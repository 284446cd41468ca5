import ScriptSurvey.Proofs.Import.Mentions
import ScriptSurvey.Proofs.Path.Parts

/-!
# What a moved text names

A new specifier names from the new directory what the old one named from the old directory, and it is put
together from the segments of the old directory and the old specifier. What these are free of, quotes and
rules, it is free of too, so a moved text can be moved again.

Two specifiers are left as they are, for they have no marker: `.` and `..`. A new specifier can be one of
them, for the directory itself or the one above, and is not found again on the way back.
-/

namespace ScriptSurvey.Rebase

open ScriptSurvey.Path

/-- The file that a specifier names from a directory. -/
def fileNamed (directory specifier : Text) : Text :=
  normalize (combine directory specifier)

/-! ## New specifiers -/

section Specifiers

variable {source target s : Text}

/-- **A new specifier names the same file**, from one directory at the root to another. -/
theorem fileNamed_specifier (hsource : startsAtRoot source = true) (htarget : startsAtRoot target = true)
    (hs : isRooted s = false) : fileNamed target (specifier source target s) = fileNamed source s := by
  have hroot := startsAtRoot_combine hsource hs
  have hnormal : startsAtRoot (normalize (combine source s)) = true := by
    rw [← rooted_place, place_normalize, rooted_place, hroot]
  refine normalize_eq_of_place_eq ?_ hroot
  rw [specifier, place_combine_relativeFrom_of_root htarget hnormal, place_normalize]

/-- What holds of the parts of a directory and of a specifier holds of the new specifier. -/
theorem of_specifier {P : Text → Prop} (h : IsPathwise P) (hsource : startsAtRoot source = true)
    (hs : isRooted s = false) (hPsource : P source) (hPs : P s) : P (specifier source target s) := by
  have hne : source ≠ [] := by
    rintro rfl
    exact Bool.noConfusion hsource
  refine h.relativeFrom ?_ target
  rw [place_normalize, place_combine hne hs]
  exact h.steps_along (h.steps_place hPsource) hPs

end Specifiers

/-- What has no such character in it stands on one side of it. -/
theorem isInfix_or_of_append_cons {w a b : Text} {c : Char} (h : w <:+: a ++ c :: b) (hc : c ∉ w) :
    w <:+: a ∨ w <:+: b := by
  rcases List.infix_append_iff.mp h with h | h | ⟨u, v, rfl, hu, hv⟩
  · exact .inl h
  · rcases List.infix_cons_iff.mp h with h | h
    · rcases List.prefix_cons_iff.mp h with rfl | ⟨v, rfl, -⟩
      · exact .inl (List.nil_infix)
      · exact absurd List.mem_cons_self hc
    · exact .inr h
  · rcases List.prefix_cons_iff.mp hv with rfl | ⟨v, rfl, -⟩
    · exact .inl ((List.append_nil u).symm ▸ hu.isInfix)
    · exact absurd (List.mem_append_right u List.mem_cons_self) hc

theorem isPathwise_isEnclosable : IsPathwise IsEnclosable where
  up := by
    unfold IsEnclosable
    decide
  unify {t} h := by
    intro c hc
    obtain ⟨d, hd, rfl⟩ := List.mem_map.mp hc
    split
    · decide
    · exact h d hd
  part h hu := fun c hc => h c (hu.subset hc)
  join {s t} hs ht := by
    intro c hc
    rcases List.mem_append.mp hc with hc | hc
    · exact hs c hc
    · rcases List.mem_cons.mp hc with rfl | hc
      · decide
      · exact ht c hc

/-- No rule has a separator in its words and between them. -/
theorem isSegment_rule {gap : Text} (hgap : Text.IsBlanks gap) :
    IsSegment ("@import".toList ++ gap ++ "url(".toList) :=
  forall_mem_spaced (by decide)
    (fun _ => Text.of_isBlank (P := fun c => isSeparator c = false) (by decide)) hgap (by decide)

/-- Unifying the separators of a path makes no text without separators. -/
theorem isInfix_of_unifySeparators {w t : Text} (h : w <:+: unifySeparators t) (hw : IsSegment w) :
    w <:+: t := by
  obtain ⟨u, hu, rfl⟩ := List.infix_map_iff.mp h
  have hsegment : IsSegment u := fun c hc => by
    cases hsep : isSeparator c with
    | false => rfl
    | true =>
        refine absurd (hw _ (List.mem_map_of_mem hc)) ?_
        simp only [isSeparator, Bool.or_eq_true, beq_iff_eq] at hsep
        rcases hsep with rfl | rfl <;> decide
  rwa [← unifySeparators, unifySeparators_segment hsegment]

theorem isPathwise_unruled : IsPathwise Unruled where
  up := unruled_of_length (by decide)
  unify {t} h := by
    intro gap hgap hne hfound
    exact h gap hgap hne (isInfix_of_unifySeparators hfound (isSegment_rule hgap))
  part h hu := h.of_isInfix hu
  join {s t} hs ht := by
    intro gap hgap hne hfound
    rcases isInfix_or_of_append_cons hfound (isSegment_rule hgap).slash_not_mem with h | h
    · exact hs gap hgap hne h
    · exact ht gap hgap hne h

/-! ## Moved declarations -/

/-- The declaration in a text that moves from one directory to another. -/
def Mention.relocate (source target : Text) (m : Mention) : Mention :=
  m.move (Rebase.specifier source target)

/-- Whether a declaration can be moved: its specifier is relative, stands between its quotes, and has no
rule in it. -/
structure Mention.IsMovable (m : Mention) : Prop extends m.IsRelative where
  enclosable : IsEnclosable m.specifier
  unruled : Unruled m.specifier

/-- A relative specifier without quotes and blanks can be moved. -/
theorem Mention.IsRelative.isMovable {m : Mention} (h : m.IsRelative)
    (hs : ∀ c ∈ m.specifier, isQuote c = false ∧ Text.isBlank c = false) : m.IsMovable := by
  refine ⟨h, fun c hc => ⟨(hs c hc).1, ?_⟩, unruled_of_not_isBlank fun c hc => (hs c hc).2⟩
  rintro rfl
  exact absurd (hs _ hc).2 (by decide)

theorem Mention.IsRelative.isRooted {m : Mention} (h : m.IsRelative) :
    isRooted m.specifier = false := by
  rcases relative_cases h.relative h.unrooted with (hs | hs) | ⟨u, hs | hs⟩ <;> rw [hs] <;> rfl

theorem unrooted_specifier (source target s : Text) : startsAtRoot (specifier source target s) = false := by
  rw [specifier, relativeFrom_eq_spell]
  exact ((isSettled_place _).wayTo (place target)).startsAtRoot_spell _

section Relocated

variable {source target : Text} {m : Mention}

/-- **A moved declaration can be moved again**, if no quote, line feed or rule is in the directory that it
comes from. -/
theorem Mention.IsMovable.relocate (h : m.IsMovable) (hsource : startsAtRoot source = true)
    (henclosable : IsEnclosable source) (hunruled : Unruled source) :
    (m.relocate source target).IsMovable := by
  unfold Mention.relocate
  by_cases hmarker : hasMarker m.specifier = true
  · have hrooted := h.toIsRelative.isRooted
    rw [move_of_hasMarker hmarker]
    exact ⟨⟨⟨h.quote, h.lead⟩, isRelative_relativeFrom _ _, unrooted_specifier _ _ _⟩,
      of_specifier isPathwise_isEnclosable hsource hrooted henclosable h.enclosable,
      of_specifier isPathwise_unruled hsource hrooted hunruled h.unruled⟩
  · rwa [move_of_not_hasMarker hmarker]

/-- **One declaration, moved**, names the same file, unless its specifier is no more than dots, which
name another file from there. -/
theorem Mention.IsRelative.fileNamed_relocate_iff (h : m.IsRelative)
    (hsource : startsAtRoot source = true) (htarget : startsAtRoot target = true) :
    fileNamed target (m.relocate source target).specifier = fileNamed source m.specifier ↔
      m.specifier ∉ [['.'], up] ∨ fileNamed target m.specifier = fileNamed source m.specifier := by
  rw [← hasMarker_iff h.relative h.unrooted, Mention.relocate]
  by_cases hmarker : hasMarker m.specifier = true
  · rw [move_of_hasMarker hmarker]
    exact iff_of_true (fileNamed_specifier hsource htarget h.isRooted) (.inl hmarker)
  · rw [move_of_not_hasMarker hmarker]
    exact (or_iff_right hmarker).symm

/-- **One declaration, moved and moved back**, names the same file, unless its specifier became dots on
the way, which name another file from here. -/
theorem Mention.IsMovable.fileNamed_relocate_relocate_iff (h : m.IsMovable)
    (hsource : startsAtRoot source = true) (htarget : startsAtRoot target = true)
    (henclosable : IsEnclosable source) (hunruled : Unruled source) :
    fileNamed source ((m.relocate source target).relocate target source).specifier =
        fileNamed source m.specifier ↔
      m.specifier ∈ [['.'], up] ∨ (m.relocate source target).specifier ∉ [['.'], up] ∨
        fileNamed source (m.relocate source target).specifier =
          fileNamed target (m.relocate source target).specifier := by
  have hmovable : (m.relocate source target).IsMovable := h.relocate hsource henclosable hunruled
  have hmarker := hasMarker_iff h.relative h.unrooted
  by_cases hdots : m.specifier ∈ [['.'], up]
  · have hsame (source target : Text) : m.relocate source target = m :=
      move_of_not_hasMarker (fun h => hmarker.mp h hdots) _
    rw [hsame, hsame]
    exact iff_of_true rfl (.inl hdots)
  · have hkept := (h.toIsRelative.fileNamed_relocate_iff hsource htarget).mpr (.inl hdots)
    rw [or_iff_right hdots, ← hkept]
    exact hmovable.toIsRelative.fileNamed_relocate_iff htarget hsource

end Relocated

/-- A text of declarations that can be moved is moved declaration by declaration. -/
theorem rebaseImports_eq {source target : Text} {ms : List Mention}
    (hsource : startsAtRoot source = true) (hunruled : Unruled source) (hms : ∀ m ∈ ms, m.IsMovable) :
    rebaseImports source target (Mention.textOf ms) =
      Mention.textOf (ms.map (Mention.relocate source target)) := by
  refine rebaseImports_textOf (fun m hm => (hms m hm).toIsRelative)
    (fun m hm => (hms m hm).enclosable) fun m hm => ?_
  by_cases hmarker : hasMarker m.specifier = true
  · rw [Mention.move_of_hasMarker hmarker]
    exact of_specifier isPathwise_unruled hsource (hms m hm).isRooted hunruled (hms m hm).unruled
  · rw [Mention.move_of_not_hasMarker hmarker]
    exact (hms m hm).unruled

/-- **Moving a text of declarations** from one directory at the root to another changes no more than the
specifiers. One that is more than dots names the same file afterwards, and dots do when they name the same
file from there. Moved back, a specifier names its file again unless it became dots on the way, which
name another file from here. No rule may begin in the directories, and no quote or line feed may be in the
first one: it is written into the specifiers as it is. -/
theorem rebaseImports_keeps_files {source target : Text} {ms : List Mention}
    (hsource : startsAtRoot source = true) (htarget : startsAtRoot target = true)
    (hunruled : Unruled source) (hms : ∀ m ∈ ms, m.IsMovable) :
    rebaseImports source target (Mention.textOf ms) =
        Mention.textOf (ms.map (Mention.relocate source target)) ∧
      (∀ m ∈ ms, fileNamed target (m.relocate source target).specifier = fileNamed source m.specifier ↔
        m.specifier ∉ [['.'], up] ∨ fileNamed target m.specifier = fileNamed source m.specifier) ∧
      (IsEnclosable source → Unruled target →
        rebaseImports target source (rebaseImports source target (Mention.textOf ms)) =
            Mention.textOf ((ms.map (Mention.relocate source target)).map
              (Mention.relocate target source)) ∧
          ∀ m ∈ ms,
            fileNamed source ((m.relocate source target).relocate target source).specifier =
                fileNamed source m.specifier ↔
              m.specifier ∈ [['.'], up] ∨ (m.relocate source target).specifier ∉ [['.'], up] ∨
                fileNamed source (m.relocate source target).specifier =
                  fileNamed target (m.relocate source target).specifier) := by
  have hthere : rebaseImports source target (Mention.textOf ms) =
      Mention.textOf (ms.map (Mention.relocate source target)) :=
    rebaseImports_eq hsource hunruled hms
  refine ⟨hthere, fun m hm => (hms m hm).fileNamed_relocate_iff hsource htarget,
    fun henclosable htargetUnruled => ⟨?_, fun m hm =>
      (hms m hm).fileNamed_relocate_relocate_iff hsource htarget henclosable hunruled⟩⟩
  rw [hthere]
  refine rebaseImports_eq htarget htargetUnruled fun m' hm' => ?_
  obtain ⟨m, hm, rfl⟩ := List.mem_map.mp hm'
  exact (hms m hm).relocate hsource henclosable hunruled

/-- A text with a clause and a rule moves one directory up, and back again. -/
theorem rebaseImports_keeps_files_nested :
    startsAtRoot "/src/c".toList = true ∧ startsAtRoot "/src".toList = true ∧
      rebaseImports "/src/c".toList "/src".toList
          "import x from './a';\n@import '../t.css';".toList =
        "import x from './c/a';\n@import './t.css';".toList ∧
      rebaseImports "/src".toList "/src/c".toList
          "import x from './c/a';\n@import './t.css';".toList =
        "import x from './a';\n@import '../t.css';".toList ∧
      fileNamed "/src".toList "./c/a".toList = fileNamed "/src/c".toList "./a".toList := by
  have hsource : startsAtRoot "/src/c".toList = true := by decide
  have htarget : startsAtRoot "/src".toList = true := by decide
  have hx : (Mention.mk (.clause ['x']) '\'' "./a".toList).IsMovable :=
    Mention.IsRelative.isMovable ⟨⟨rfl, by decide⟩, rfl, rfl⟩ (by decide)
  have ht : (Mention.mk .rule '\'' "../t.css".toList).IsMovable :=
    Mention.IsRelative.isMovable ⟨⟨rfl, by decide⟩, rfl, rfl⟩ (by decide)
  obtain ⟨hthere, hkept, hback⟩ := rebaseImports_keeps_files hsource htarget
    (unruled_of_not_isBlank (by decide)) (List.forall_mem_cons.mpr ⟨hx, List.forall_mem_singleton.mpr ht⟩)
  have hmoved : rebaseImports "/src/c".toList "/src".toList
      "import x from './a';\n@import '../t.css';".toList =
        "import x from './c/a';\n@import './t.css';".toList :=
    hthere.trans (by decide +kernel)
  have hrestored := (hback (by unfold IsEnclosable; decide) (unruled_of_not_isBlank (by decide))).1
  rw [show Mention.textOf [⟨.clause ['x'], '\'', "./a".toList⟩, ⟨.rule, '\'', "../t.css".toList⟩] =
    "import x from './a';\n@import '../t.css';".toList from rfl, hmoved] at hrestored
  exact ⟨hsource, htarget, hmoved, hrestored.trans (by decide +kernel),
    (hkept _ List.mem_cons_self).mpr (.inl (by decide))⟩

/-- A specifier becomes a dot on the way into the directory that it names. On the way back the dot is left
as it is, and names the directory above. -/
theorem rebaseImports_leaves_dots :
    rebaseImports "/a".toList "/a/b".toList "import x from './b';".toList =
        "import x from '.';".toList ∧
      rebaseImports "/a/b".toList "/a".toList "import x from '.';".toList =
        "import x from '.';".toList ∧
      fileNamed "/a/b".toList ['.'] = fileNamed "/a".toList "./b".toList ∧
      fileNamed "/a".toList ['.'] ≠ fileNamed "/a/b".toList ['.'] := by
  have hb : (Mention.mk (.clause ['x']) '\'' "./b".toList).IsMovable :=
    Mention.IsRelative.isMovable ⟨⟨rfl, by decide⟩, rfl, rfl⟩ (by decide)
  have hdot : (Mention.mk (.clause ['x']) '\'' ['.']).IsMovable :=
    Mention.IsRelative.isMovable ⟨⟨rfl, by decide⟩, rfl, rfl⟩ (by decide)
  have hinto : rebaseImports "/a".toList "/a/b".toList _ = _ :=
    rebaseImports_eq (by decide) (unruled_of_not_isBlank (by decide))
      (List.forall_mem_singleton.mpr hb)
  have hback : rebaseImports "/a/b".toList "/a".toList _ = _ :=
    rebaseImports_eq (by decide) (unruled_of_not_isBlank (by decide))
      (List.forall_mem_singleton.mpr hdot)
  exact ⟨hinto.trans (by decide +kernel), hback.trans (by decide +kernel), by decide +kernel,
    by decide +kernel⟩

end ScriptSurvey.Rebase
