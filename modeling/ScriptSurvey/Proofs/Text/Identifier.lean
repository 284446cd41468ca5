import Mathlib.Data.List.Basic
import ScriptSurvey.Proofs.Lexical.Sealed
import ScriptSurvey.Proofs.Text.Blank
import ScriptSurvey.Text.Identifier

/-!
# Names are plain text

Names are found again by walks that look for blanks, brackets, commas and quotes. No identifier
holds any of these, so a name is one word of plain code: a walk passes through it, trimming leaves
it as it is, and a scan cuts it into its characters.
-/

namespace ScriptSurvey.Text

/-- What no identifier holds is no character of one. -/
theorem ne_of_isIdentifierPart {c d : Char} (hc : isIdentifierPart c = true)
    (hd : isIdentifierPart d = false) : c ≠ d := by
  intro h
  rw [h, hd] at hc
  exact Bool.noConfusion hc

/-- The code points of the blanks. -/
def blankPoints : List Nat :=
  [9, 10, 11, 12, 13, 0x20, 0x85, 0xA0, 0x1680, 0x2000, 0x2001, 0x2002, 0x2003, 0x2004, 0x2005,
    0x2006, 0x2007, 0x2008, 0x2009, 0x200A, 0x2028, 0x2029, 0x202F, 0x205F, 0x3000]

theorem mem_blankPoints {c : Char} (h : isBlank c = true) : c.toNat ∈ blankPoints := by
  simp only [isBlank, Bool.or_eq_true, Bool.and_eq_true, beq_iff_eq, decide_eq_true_eq] at h
  simp only [blankPoints, List.mem_cons, List.not_mem_nil, or_false]
  omega

/-- A property of characters that holds of the blanks, one by one. -/
theorem of_isBlank {P : Char → Prop} (h : ∀ n ∈ blankPoints, P (Char.ofNat n)) {c : Char}
    (hc : isBlank c = true) : P c := by
  have := h c.toNat (mem_blankPoints hc)
  rwa [Char.ofNat_toNat] at this

theorem isIdentifierPart_of_isBlank {c : Char} (h : isBlank c = true) :
    isIdentifierPart c = false :=
  of_isBlank (P := fun c => isIdentifierPart c = false) (by decide +kernel) h

theorem isPlain_of_isBlank {c : Char} (h : isBlank c = true) : isPlain c = true :=
  of_isBlank (P := fun c => isPlain c = true) (by decide) h

theorem isBlank_of_isIdentifierPart {c : Char} (h : isIdentifierPart c = true) :
    isBlank c = false := by
  cases hb : isBlank c with
  | false => rfl
  | true =>
      rw [isIdentifierPart_of_isBlank hb] at h
      exact Bool.noConfusion h

theorem isWhiteSpace_of_isIdentifierPart {c : Char} (h : isIdentifierPart c = true) :
    isWhiteSpace c = false := by
  have hne : c ≠ '\uFEFF' := ne_of_isIdentifierPart h (by decide +kernel)
  rw [isWhiteSpace, isBlank_of_isIdentifierPart h, Bool.false_or, beq_eq_false_iff_ne]
  exact hne

/-- The characters of a class without a slash and without quotes are plain. -/
theorem isPlain_of_class {p : Char → Bool} (hslash : p '/' = false)
    (hdelimiter : ∀ kind : LiteralKind, p kind.delimiter = false) {c : Char} (hc : p c = true) :
    isPlain c = true := by
  have hne {d : Char} (hd : p d = false) : c ≠ d := by
    rintro rfl
    exact absurd hc (by rw [hd]; exact Bool.false_ne_true)
  have hdel (kind : LiteralKind) : c ≠ kind.delimiter := hne (hdelimiter kind)
  simp only [isPlain, LiteralKind.ofDelimiter?, if_neg (hdel .single), if_neg (hdel .double),
    if_neg (hdel .template), Option.isNone_none, Bool.and_true, bne_iff_ne]
  exact hne hslash

theorem isPlain_of_isIdentifierPart {c : Char} (h : isIdentifierPart c = true) :
    isPlain c = true :=
  isPlain_of_class rfl (fun kind => by cases kind <;> decide) h

/-- What stands in a dotted path: the characters of identifiers, and dots. -/
def isPathChar (c : Char) : Bool :=
  isIdentifierPart c || c == '.'

theorem isIdentifierPart_of_mem {t : Text} (h : isIdentifier t = true) {c : Char} (hc : c ∈ t) :
    isIdentifierPart c = true := by
  cases t with
  | nil => exact absurd h (by simp [isIdentifier])
  | cons d t =>
      simp only [isIdentifier, Bool.and_eq_true, List.all_eq_true] at h
      rcases List.mem_cons.mp hc with hcd | hct
      · rw [hcd]
        exact isIdentifierPart_of_start h.1
      · exact h.2 c hct

theorem ne_nil_of_isIdentifier {t : Text} (h : isIdentifier t = true) : t ≠ [] := by
  intro ht
  rw [ht] at h
  exact Bool.noConfusion h

/-- Identifiers hold no dot, so each of them is a dotted path. -/
theorem isDottedPath_of_isIdentifier {t : Text} (h : isIdentifier t = true) :
    isDottedPath t = true := by
  have hdot : '.' ∉ t := by
    intro hm
    exact ne_of_isIdentifierPart (isIdentifierPart_of_mem h hm) rfl rfl
  rw [isDottedPath, List.splitOn_eq_singleton hdot, List.all_cons, h]
  rfl

/-- A text is made of dots and of what stands between them. -/
theorem mem_splitOn_dot {t : Text} {c : Char} (hc : c ∈ t) :
    c = '.' ∨ ∃ w ∈ t.splitOn '.', c ∈ w := by
  induction t with
  | nil => exact absurd hc List.not_mem_nil
  | cons d t ih =>
      rw [List.splitOn_cons_eq_if_modifyHead]
      -- a dot puts an empty word in front, and any other character goes on with the first one
      by_cases hd : (d == '.') = true
      · rw [if_pos hd]
        rcases List.mem_cons.mp hc with hcd | hct
        · exact Or.inl (hcd.trans (beq_iff_eq.mp hd))
        · rcases ih hct with hdot | ⟨w, hw, hcw⟩
          · exact Or.inl hdot
          · exact Or.inr ⟨w, List.mem_cons_of_mem _ hw, hcw⟩
      · rw [if_neg hd]
        obtain ⟨w, ws, hws⟩ := List.exists_cons_of_ne_nil (List.splitOn_ne_nil '.' t)
        rw [hws] at ih ⊢
        rw [List.modifyHead_cons]
        rcases List.mem_cons.mp hc with hcd | hct
        · exact Or.inr ⟨d :: w, List.mem_cons_self, hcd ▸ List.mem_cons_self⟩
        · rcases ih hct with hdot | ⟨v, hv, hcv⟩
          · exact Or.inl hdot
          · rcases List.mem_cons.mp hv with hvw | hvs
            · exact Or.inr ⟨d :: w, List.mem_cons_self, List.mem_cons_of_mem d (hvw ▸ hcv)⟩
            · exact Or.inr ⟨v, List.mem_cons_of_mem _ hvs, hcv⟩

theorem isPathChar_of_mem {t : Text} (h : isDottedPath t = true) {c : Char} (hc : c ∈ t) :
    isPathChar c = true := by
  rw [isPathChar, Bool.or_eq_true, beq_iff_eq]
  rcases mem_splitOn_dot hc with hdot | ⟨w, hw, hcw⟩
  · exact Or.inr hdot
  · rw [isDottedPath, List.all_eq_true] at h
    exact Or.inl (isIdentifierPart_of_mem (h w hw) hcw)

theorem ne_nil_of_isDottedPath {t : Text} (h : isDottedPath t = true) : t ≠ [] := by
  intro ht
  rw [ht] at h
  exact absurd h (by decide)

/-- What is no part of identifiers, nor a dot, is no character of a dotted path. -/
theorem ne_of_isPathChar {c d : Char} (hc : isPathChar c = true) (hd : isPathChar d = false) :
    c ≠ d := by
  intro h
  rw [h, hd] at hc
  exact Bool.noConfusion hc

theorem isPlain_of_isPathChar {c : Char} (h : isPathChar c = true) : isPlain c = true := by
  rw [isPathChar, Bool.or_eq_true, beq_iff_eq] at h
  rcases h with h | h
  · exact isPlain_of_isIdentifierPart h
  · rw [h]
    decide

theorem isWhiteSpace_of_isPathChar {c : Char} (h : isPathChar c = true) :
    isWhiteSpace c = false := by
  rw [isPathChar, Bool.or_eq_true, beq_iff_eq] at h
  rcases h with h | h
  · exact isWhiteSpace_of_isIdentifierPart h
  · rw [h]
    decide

theorem isBlank_of_isPathChar {c : Char} (h : isPathChar c = true) : isBlank c = false := by
  have := isWhiteSpace_of_isPathChar h
  rw [isWhiteSpace, Bool.or_eq_false_iff] at this
  exact this.1

/-! ## Words in front of a text -/

theorem isPrefixOf?_append (word t : Text) : List.isPrefixOf? word (word ++ t) = some t :=
  List.isPrefixOf?_eq_some_iff_append_eq.mpr rfl

/-- Whether no word goes on in the text. -/
def EndsWord (t : Text) : Prop :=
  ∀ c, t.head? = some c → isIdentifierPart c = false

theorem endsWord_cons {c : Char} (h : isIdentifierPart c = false) (t : Text) : EndsWord (c :: t) := by
  intro d hd
  exact Option.some.inj hd ▸ h

theorem takeIdentifier?_append {w t : Text} (hw : isIdentifier w = true) (ht : EndsWord t) :
    takeIdentifier? (w ++ t) = some (w, t) := by
  have hpart : ∀ c ∈ w, isIdentifierPart c = true := fun c hc => isIdentifierPart_of_mem hw hc
  have htake : t.takeWhile isIdentifierPart = [] := by
    cases t with
    | nil => rfl
    | cons c t => simp [ht c rfl]
  rw [takeIdentifier?, List.takeWhile_append_of_pos hpart,
    List.dropWhile_append_of_pos hpart, htake,
    List.append_nil, dropWhile_of_head? ht]
  exact if_pos hw

end ScriptSurvey.Text
