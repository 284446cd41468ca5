import ScriptSurvey.Proofs.Text.Identifier

/-!
# The longest dotted path

What is taken from the front of a text as a dotted path is the longest one that stands there: it is a
dotted path in front of the text, and so is a front part of it every other one. There is none only
where no identifier starts.
-/

namespace ScriptSurvey.Text

theorem not_mem_dot_of_isIdentifier {w : Text} (h : isIdentifier w = true) : '.' ∉ w :=
  fun hm => ne_of_isIdentifierPart (isIdentifierPart_of_mem h hm) rfl rfl

theorem isIdentifier_singleton {c : Char} (h : isIdentifierStart c = true) :
    isIdentifier [c] = true := by
  rw [isIdentifier, h]
  rfl

theorem isIdentifier_append_part {w : Text} {c : Char} (hw : isIdentifier w = true)
    (hc : isIdentifierPart c = true) : isIdentifier (w ++ [c]) = true := by
  cases w with
  | nil => exact absurd hw Bool.false_ne_true
  | cons d w =>
      simp only [isIdentifier, Bool.and_eq_true] at hw
      simp [isIdentifier, hw.1, hc, hw.2]

theorem isDottedPath_append_dot {w : Text} (hw : isIdentifier w = true) (s : Text) :
    isDottedPath (w ++ '.' :: s) = isDottedPath s := by
  rw [isDottedPath, List.splitOn_append_cons_self_of_not_mem (not_mem_dot_of_isIdentifier hw),
    List.all_cons, hw, Bool.true_and, isDottedPath]

/-- A dotted path starts as an identifier does. -/
theorem isIdentifierStart_of_isDottedPath {c : Char} {s : Text}
    (h : isDottedPath (c :: s) = true) : isIdentifierStart c = true := by
  obtain ⟨w, ws, hws⟩ := List.exists_cons_of_ne_nil (List.splitOn_ne_nil '.' s)
  rw [isDottedPath, List.splitOn_cons_eq_if_modifyHead, hws] at h
  split at h
  · exact absurd h Bool.false_ne_true
  · simp only [List.modifyHead_cons, List.all_cons, isIdentifier, Bool.and_eq_true] at h
    exact h.1.1

/-! ## It is a dotted path -/

theorem dottedTail_prefix (t : Text) : dottedTail t <+: t := by
  fun_induction dottedTail t with
  | case1 c t _ ih => exact List.cons_prefix_cons.mpr ⟨rfl, List.cons_prefix_cons.mpr ⟨rfl, ih⟩⟩
  | case2 => exact List.nil_prefix
  | case3 c t _ _ ih => exact List.cons_prefix_cons.mpr ⟨rfl, ih⟩
  | case4 => exact List.nil_prefix
  | case5 => exact List.nil_prefix

theorem isDottedPath_append_dottedTail {w : Text} (hw : isIdentifier w = true) (t : Text) :
    isDottedPath (w ++ dottedTail t) = true := by
  fun_induction dottedTail t generalizing w with
  | case1 c t hc ih =>
      rw [isDottedPath_append_dot hw]
      exact ih (isIdentifier_singleton hc)
  | case2 => rw [List.append_nil, isDottedPath_of_isIdentifier hw]
  | case3 c t _ hc ih =>
      have := ih (isIdentifier_append_part hw hc)
      rwa [List.append_assoc] at this
  | case4 => rw [List.append_nil, isDottedPath_of_isIdentifier hw]
  | case5 => rw [List.append_nil, isDottedPath_of_isIdentifier hw]

theorem dottedPath_cons {c : Char} (h : isIdentifierStart c = true) (t : Text) :
    dottedPath (c :: t) = c :: dottedTail t := by
  rw [dottedPath, if_pos h]

theorem dottedPath_eq_nil {c : Char} (h : isIdentifierStart c = false) (t : Text) :
    dottedPath (c :: t) = [] := by
  rw [dottedPath, h]
  rfl

theorem dottedPath_prefix (t : Text) : dottedPath t <+: t := by
  cases t with
  | nil => exact List.nil_prefix
  | cons c t =>
      cases hc : isIdentifierStart c with
      | false =>
          rw [dottedPath_eq_nil hc]
          exact List.nil_prefix
      | true =>
          rw [dottedPath_cons hc]
          exact List.cons_prefix_cons.mpr ⟨rfl, dottedTail_prefix t⟩

theorem isDottedPath_dottedPath {t : Text} (h : dottedPath t ≠ []) :
    isDottedPath (dottedPath t) = true := by
  cases t with
  | nil => exact absurd rfl h
  | cons c t =>
      cases hc : isIdentifierStart c with
      | false => exact absurd (dottedPath_eq_nil hc t) h
      | true =>
          rw [dottedPath_cons hc]
          exact isDottedPath_append_dottedTail (isIdentifier_singleton hc) t

theorem isPathChar_of_mem_dottedPath {t : Text} {c : Char} (hc : c ∈ dottedPath t) :
    isPathChar c = true :=
  isPathChar_of_mem (isDottedPath_dottedPath (List.ne_nil_of_mem hc)) hc

/-! ## It is the longest one -/

/-- Behind an identifier, nothing that goes on to a dotted path goes on further. -/
theorem prefix_dottedTail {w s t : Text} (hw : isIdentifier w = true)
    (hs : isDottedPath (w ++ s) = true) (h : s <+: t) : s <+: dottedTail t := by
  fun_induction dottedTail t generalizing w s with
  | case1 c t hc ih =>
      match s, h with
      | [], _ => exact List.nil_prefix
      | [d], h =>
          obtain rfl := (List.cons_prefix_cons.mp h).1
          exact List.cons_prefix_cons.mpr ⟨rfl, List.nil_prefix⟩
      | d :: e :: s, h =>
          obtain ⟨rfl, hbehind⟩ := List.cons_prefix_cons.mp h
          obtain ⟨rfl, htail⟩ := List.cons_prefix_cons.mp hbehind
          rw [isDottedPath_append_dot hw] at hs
          refine List.cons_prefix_cons.mpr ⟨rfl, List.cons_prefix_cons.mpr ⟨rfl, ?_⟩⟩
          exact ih (isIdentifier_singleton hc) hs htail
  | case2 c t hc =>
      cases s with
      | nil => exact List.nil_prefix
      | cons d s =>
          -- behind a dot, a dotted path would have to start again
          obtain ⟨rfl, htail⟩ := List.cons_prefix_cons.mp h
          rw [isDottedPath_append_dot hw] at hs
          cases s with
          | nil => exact absurd hs (by decide)
          | cons e s =>
              obtain ⟨rfl, -⟩ := List.cons_prefix_cons.mp htail
              exact absurd (isIdentifierStart_of_isDottedPath hs) hc
  | case3 c t hdot hc ih =>
      cases s with
      | nil => exact List.nil_prefix
      | cons d s =>
          obtain ⟨rfl, htail⟩ := List.cons_prefix_cons.mp h
          refine List.cons_prefix_cons.mpr ⟨rfl, ih (isIdentifier_append_part hw hc) ?_ htail⟩
          rw [List.append_assoc]
          exact hs
  | case4 c t hdot hc =>
      cases s with
      | nil => exact List.nil_prefix
      | cons d s =>
          obtain ⟨rfl, htail⟩ := List.cons_prefix_cons.mp h
          have hpath := isPathChar_of_mem hs (c := d) (by simp)
          rw [isPathChar, Bool.or_eq_true, beq_iff_eq] at hpath
          obtain rfl := hpath.resolve_left hc
          -- a dot is the last character here, and no dotted path ends in one
          obtain rfl : t = [] := by
            cases t with
            | nil => rfl
            | cons e t => exact absurd rfl (hdot e t rfl)
          obtain rfl := List.prefix_nil.mp htail
          rw [isDottedPath_append_dot hw] at hs
          exact absurd hs (by decide)
  | case5 => exact h

/-- **No dotted path in front of a text is longer.** -/
theorem prefix_dottedPath {w t : Text} (hw : isDottedPath w = true) (h : w <+: t) :
    w <+: dottedPath t := by
  obtain ⟨c, s, rfl⟩ := List.exists_cons_of_ne_nil (ne_nil_of_isDottedPath hw)
  cases t with
  | nil => exact absurd (List.prefix_nil.mp h) (List.cons_ne_nil c s)
  | cons d t =>
      obtain ⟨rfl, htail⟩ := List.cons_prefix_cons.mp h
      have hc := isIdentifierStart_of_isDottedPath hw
      rw [dottedPath_cons hc]
      exact List.cons_prefix_cons.mpr ⟨rfl, prefix_dottedTail (isIdentifier_singleton hc) hw htail⟩

/-- Whether a name is the longest dotted path in front of a text. -/
def IsLongestPath (name t : Text) : Prop :=
  isDottedPath name = true ∧ name <+: t ∧ ∀ w, isDottedPath w = true → w <+: t → w <+: name

/-- **What is taken is the longest dotted path,** and nothing where there is none. -/
theorem isLongestPath_iff {name t : Text} : IsLongestPath name t ↔ name ≠ [] ∧ dottedPath t = name := by
  constructor
  · rintro ⟨hpath, hfront, hlongest⟩
    have hname := ne_nil_of_isDottedPath hpath
    have hle := prefix_dottedPath hpath hfront
    have hne : dottedPath t ≠ [] := fun h => hname (List.prefix_nil.mp (h ▸ hle))
    have htaken := dottedPath_prefix t
    exact ⟨hname, (hlongest _ (isDottedPath_dottedPath hne) htaken).eq_of_length_le hle.length_le⟩
  · rintro ⟨hname, rfl⟩
    exact ⟨isDottedPath_dottedPath hname, dottedPath_prefix t, fun _ => prefix_dottedPath⟩

end ScriptSurvey.Text
