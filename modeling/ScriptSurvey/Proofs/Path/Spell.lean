import Mathlib.Data.List.Basic
import ScriptSurvey.Proofs.Path.Place

/-!
# Spelling a place

Normalizing a path spells its place, with a marker `./` in front or without one, and nothing else. So
two paths lead to the same place exactly when they have the same key, and a path in normal form falls
into directory and name as its place does.
-/

namespace ScriptSurvey.Path

/-! ## Spelling a place -/

theorem segments_intercalate {steps : List Text} (h : ∀ s ∈ steps, IsSegment s) (hne : steps ≠ []) :
    segments (List.intercalate ['/'] steps) = steps :=
  List.splitOn_intercalate '/' (fun s hs => (h s hs).slash_not_mem) hne

theorem unifySeparators_intercalate {steps : List Text} (h : ∀ s ∈ steps, IsSegment s) :
    unifySeparators (List.intercalate ['/'] steps) = List.intercalate ['/'] steps := by
  induction steps with
  | nil => rfl
  | cons s steps ih =>
      have hs := unifySeparators_segment (h s List.mem_cons_self)
      have hrest := ih fun x hx => h x (List.mem_cons_of_mem _ hx)
      cases steps with
      | nil => rwa [List.intercalate_singleton]
      | cons t steps =>
          rw [List.intercalate_cons_cons, unifySeparators_append, unifySeparators_append, hrest, hs]
          rfl

/-- Only a path without steps is empty. -/
theorem intercalate_eq_nil {steps : List Text} (h : ∀ s ∈ steps, s ≠ []) :
    List.intercalate ['/'] steps = [] ↔ steps = [] := by
  constructor
  · intro hnil
    cases steps with
    | nil => rfl
    | cons s steps =>
        have hs := h s List.mem_cons_self
        cases steps with
        | nil => exact absurd (by rwa [List.intercalate_singleton] at hnil) hs
        | cons t steps =>
            rw [List.intercalate_cons_cons, List.append_assoc, List.append_eq_nil_iff] at hnil
            exact absurd hnil.1 hs
  · rintro rfl
    rfl

namespace Place

variable {p : Place}

theorem IsSettled.unifySeparators_spell (h : p.IsSettled) (marked : Bool) :
    unifySeparators (p.spell marked) = p.spell marked := by
  have hjoin := unifySeparators_intercalate fun s hs => (h.isSegment hs).1
  unfold spell
  split
  · exact congrArg ('/' :: ·) hjoin
  · split
    · split
      · rfl
      · exact congrArg (['.', '/'] ++ ·) hjoin
    · exact hjoin

/-- The steps of a settled place are the segments of its spelling that say something. -/
theorem IsSettled.filter_segments (h : p.IsSettled) (marked : Bool) :
    (segments (p.spell marked)).filter (fun s => !s.isEmpty && s != ['.']) = p.steps := by
  have hjoin : (segments (List.intercalate ['/'] p.steps)).filter
      (fun s => !s.isEmpty && s != ['.']) = p.steps := by
    by_cases hsteps : p.steps = []
    · rw [hsteps]
      rfl
    · rw [segments_intercalate (fun s hs => (h.isSegment hs).1) hsteps, List.filter_eq_self]
      intro s hs
      obtain ⟨-, hnil, hdot⟩ := h.isSegment hs
      rw [List.isEmpty_eq_false_iff.mpr hnil, bne_iff_ne.mpr hdot]
      rfl
  have hfront : ∀ s t : Text, IsSegment s → s = [] ∨ s = ['.'] →
      (segments (s ++ '/' :: t)).filter (fun s => !s.isEmpty && s != ['.']) =
        (segments t).filter (fun s => !s.isEmpty && s != ['.']) := by
    rintro s t hs (rfl | rfl) <;> rw [segments_append_slash, segments_segment hs] <;> rfl
  -- a marker and the root add a segment that says nothing
  unfold spell
  split
  · exact (hfront [] _ isSegment_nil (.inl rfl)).trans hjoin
  · split
    · split
      · next hsteps =>
          rw [hsteps]
          rfl
      · exact (hfront ['.'] _ isSegment_dot (.inr rfl)).trans hjoin
    · exact hjoin

/-- A spelling leads through the steps of its place. -/
theorem IsSettled.along_spell (h : p.IsSettled) (marked : Bool) (q : Place) :
    q.along (p.spell marked) = p.steps.foldl Place.enter q := by
  rw [along, h.unifySeparators_spell, ← h.filter_segments marked, List.foldl_filter]
  congr 1
  funext q s
  split
  · rfl
  · next hstay =>
      rw [Bool.and_eq_true, Bool.not_eq_true', bne_iff_ne, not_and_or, Bool.not_eq_false,
        List.isEmpty_iff, not_not] at hstay
      exact q.enter_of_stay hstay

/-- The text of steps does not start with a separator. -/
theorem IsSettled.head_intercalate (h : p.IsSettled) :
    (List.intercalate ['/'] p.steps).head? ≠ some '/' := by
  intro hhead
  obtain ⟨rest, hrest⟩ := List.head?_eq_some_iff.mp hhead
  have hsteps : p.steps ≠ [] := by
    intro hnil
    rw [hnil] at hrest
    exact absurd hrest (by simp [List.intercalate_nil])
  have hsegs := segments_intercalate (fun s hs => (h.isSegment hs).1) hsteps
  rw [hrest, segments, List.splitOn_cons_eq_if_modifyHead, if_pos (beq_self_eq_true _)] at hsegs
  have hnil : [] ∈ p.steps := by
    rw [← hsegs]
    exact List.mem_cons_self
  exact (h.isSegment hnil).2.1 rfl

theorem IsSettled.startsAtRoot_spell (h : p.IsSettled) (marked : Bool) :
    startsAtRoot (p.spell marked) = p.rooted := by
  rw [startsAtRoot, h.unifySeparators_spell, spell]
  cases p.rooted with
  | true => rfl
  | false =>
      rw [if_neg Bool.false_ne_true]
      split
      · split
        · rfl
        · rfl
      · exact beq_eq_false_iff_ne.mpr h.head_intercalate

/-- **What is spelled leads to the place.** -/
theorem IsSettled.place_spell (h : p.IsSettled) (marked : Bool) : place (p.spell marked) = p := by
  rw [place_eq_foldl, h.startsAtRoot_spell]
  exact (h.along_spell marked _).trans h.foldl_enter

/-- Places are told apart by their spelling. -/
theorem IsSettled.eq_of_spell {q : Place} (h : p.IsSettled) (hq : q.IsSettled) {marked marked' : Bool}
    (he : p.spell marked = q.spell marked') : p = q := by
  rw [← h.place_spell marked, he, hq.place_spell]

end Place

/-- Whether a path has a marker in front. -/
def isMarked (path : Text) : Bool :=
  List.isPrefixOf ['.', '/'] path

/-- Whether the normal form of a path has a marker, for a path that does not start at the root. One
that leads nowhere is no more than that, unless it is empty; any other keeps its own, if what is left
behind it does not begin with two dots. -/
def keepsMarker (path : Text) : Bool :=
  if (place path).steps = [] then !path.isEmpty
  else isMarked (unifySeparators path) &&
    !List.isPrefixOf up (List.intercalate ['/'] (place path).steps)

theorem keepsMarker_of_nil {path : Text} (h : (place path).steps = []) :
    keepsMarker path = !path.isEmpty :=
  if_pos h

theorem keepsMarker_of_ne_nil {path : Text} (h : (place path).steps ≠ []) :
    keepsMarker path = (isMarked (unifySeparators path) &&
      !List.isPrefixOf up (List.intercalate ['/'] (place path).steps)) :=
  if_neg h

/-- What keeps its marker does not begin with two dots. -/
theorem isPrefixOf_up_of_keepsMarker {path : Text} (h : keepsMarker path = true) :
    List.isPrefixOf up (List.intercalate ['/'] (place path).steps) = false := by
  by_cases hsteps : (place path).steps = []
  · rw [hsteps]
    rfl
  · rw [keepsMarker_of_ne_nil hsteps, Bool.and_eq_true, Bool.not_eq_true'] at h
    exact h.2

/-- **A path in normal form spells its place.** -/
theorem normalize_eq_spell (path : Text) :
    normalize path = (place path).spell (keepsMarker path) := by
  have hnil := intercalate_eq_nil fun s hs => ((isSettled_place path).isSegment hs).2.1
  have hrooted := rooted_place path
  by_cases hpath : unifySeparators path = []
  · obtain rfl := List.map_eq_nil_iff.mp hpath
    rfl
  · unfold normalize
    rw [if_neg hpath]
    change (if startsAtRoot path = true then '/' :: List.intercalate ['/'] (place path).steps
      else if List.intercalate ['/'] (place path).steps = [] then ['.']
      else if ((isMarked (unifySeparators path) || unifySeparators path == ['.']) &&
          !List.isPrefixOf up (List.intercalate ['/'] (place path).steps)) = true then
        ['.', '/'] ++ List.intercalate ['/'] (place path).steps
      else List.intercalate ['/'] (place path).steps) = _
    simp only [Place.spell, hrooted, hnil]
    by_cases hroot : startsAtRoot path = true
    · rw [if_pos hroot, if_pos hroot]
    · rw [if_neg hroot, if_neg hroot]
      by_cases hsteps : (place path).steps = []
      · have hne : path.isEmpty = false :=
          List.isEmpty_eq_false_iff.mpr fun hnil => hpath (congrArg unifySeparators hnil)
        rw [if_pos hsteps, if_pos hsteps, keepsMarker_of_nil hsteps, hne]
        rfl
      · -- only `.` leads nowhere without a marker
        have hdot : (unifySeparators path == ['.']) = false := by
          refine beq_eq_false_iff_ne.mpr fun hdot => hsteps ?_
          rw [place, hdot, startsAtRoot, hdot]
          rfl
        rw [if_neg hsteps, if_neg hsteps, keepsMarker_of_ne_nil hsteps, hdot, Bool.or_false]

theorem exists_normalize (path : Text) :
    ∃ marked, normalize path = (place path).spell marked :=
  ⟨_, normalize_eq_spell path⟩

/-- Normalizing a path does not change where it leads. -/
theorem place_normalize (path : Text) : place (normalize path) = place path := by
  obtain ⟨marked, h⟩ := exists_normalize path
  rw [h, (isSettled_place path).place_spell]

namespace Place

variable {p : Place}

/-- A spelling without a marker does not look like one with a marker. -/
theorem IsSettled.withoutMarker_unmarked (h : p.IsSettled) :
    withoutMarker (p.spell false) = p.spell false := by
  unfold spell
  cases p.rooted with
  | true => rfl
  | false =>
      rw [if_neg Bool.false_ne_true, if_neg Bool.false_ne_true]
      by_cases hsteps : p.steps = []
      · rw [hsteps]
        rfl
      · have hsegs := segments_intercalate (fun s hs => (h.isSegment hs).1) hsteps
        -- a marker would be a first step `.`
        have hdot : ['.'] ∉ p.steps := fun hmem => (h.isSegment hmem).2.2 rfl
        unfold withoutMarker
        split
        · next rest hrest =>
            have heq := List.append_eq_of_isPrefixOf?_eq_some hrest
            rw [← heq, show ['.', '/'] ++ rest = ['.'] ++ '/' :: rest from rfl,
              segments_append_slash] at hsegs
            exact absurd (hsegs ▸ List.mem_append_left _ (by decide)) hdot
        · split
          · next heq =>
              rw [heq] at hsegs
              exact absurd (hsegs ▸ by decide) hdot
          · rfl

/-- Without its marker, a spelling is the one that has none. -/
theorem IsSettled.withoutMarker_spell (h : p.IsSettled) (marked : Bool) :
    withoutMarker (p.spell marked) = p.spell false := by
  cases marked with
  | false => exact h.withoutMarker_unmarked
  | true =>
      unfold spell
      cases p.rooted with
      | true => rfl
      | false =>
          rw [if_neg Bool.false_ne_true, if_pos rfl, if_neg Bool.false_ne_true,
            if_neg Bool.false_ne_true]
          by_cases hsteps : p.steps = []
          · rw [if_pos hsteps, hsteps]
            rfl
          · rw [if_neg hsteps]
            rfl

end Place

/-- A spelling has a marker in front when it is spelled with one and does not start at the root. -/
theorem isMarked_spell {p : Place} (h : p.IsSettled) (hsteps : p.steps ≠ []) (marked : Bool) :
    isMarked (p.spell marked) = (!p.rooted && marked) := by
  cases hrooted : p.rooted with
  | true =>
      unfold isMarked Place.spell
      rw [hrooted]
      rfl
  | false =>
      cases marked with
      | true =>
          unfold isMarked Place.spell
          rw [hrooted, if_neg Bool.false_ne_true, if_pos rfl, if_neg hsteps]
          rfl
      | false =>
          -- a marker could be left out
          rw [Bool.and_false, ← Bool.not_eq_true]
          intro hmarked
          obtain ⟨rest, hrest⟩ := List.isPrefixOf_iff_prefix.mp hmarked
          have hwithout := h.withoutMarker_unmarked
          rw [← hrest] at hwithout
          have hlength : rest.length = (['.', '/'] ++ rest).length := congrArg List.length hwithout
          rw [List.length_append] at hlength
          exact absurd hlength (by simp)

/-- **The key of a directory** is the spelling of its place without a marker. -/
theorem key_eq_spell (path : Text) : Listings.key path = (place path).spell false := by
  obtain ⟨marked, h⟩ := exists_normalize path
  rw [Listings.key, h, (isSettled_place path).withoutMarker_spell]

/-- Two paths have one key exactly when they lead to one place. -/
theorem key_eq_key {path path' : Text} :
    Listings.key path = Listings.key path' ↔ place path = place path' := by
  rw [key_eq_spell, key_eq_spell]
  refine ⟨fun h => (isSettled_place path).eq_of_spell (isSettled_place path') h, fun h => by rw [h]⟩

/-! ## Directory and name -/

theorem cutAtLast_segment {s : Text} (h : IsSegment s) : Text.cutAtLast isSeparator s = none := by
  induction s with
  | nil => rfl
  | cons c s ih =>
      rw [Text.cutAtLast, ih fun d hd => h d (List.mem_cons_of_mem _ hd), h c List.mem_cons_self]
      rfl

theorem cutAtLast_separator (front : Text) {s : Text} {c : Char} (hc : isSeparator c = true)
    (h : IsSegment s) : Text.cutAtLast isSeparator (front ++ c :: s) = some (front, s) := by
  induction front with
  | nil =>
      rw [List.nil_append, Text.cutAtLast, cutAtLast_segment h, hc]
      rfl
  | cons d front ih => rw [List.cons_append, Text.cutAtLast, ih]

/-- Behind a separator stands a name. -/
theorem within_eq (directory : Text) {s : Text} (hs : IsSegment s) (hdir : directory ≠ [])
    (hend : endsInSeparator directory = false) :
    Target.within directory s = directory ++ '/' :: s := by
  have hne : directory.isEmpty = false := List.isEmpty_eq_false_iff.mpr hdir
  unfold Target.within combine withSeparator
  rw [hne, isRooted_of_isSegment hs, hend]
  simp

theorem within_root {s : Text} (hs : IsSegment s) : Target.within ['/'] s = '/' :: s := by
  unfold Target.within combine
  rw [isRooted_of_isSegment hs]
  rfl

/-- **A path in a directory falls into the directory and the name**, if only the root ends in a
separator. -/
theorem directory_within (directory : Text) {s : Text} (hs : IsSegment s)
    (hend : endsInSeparator directory = true → directory = ['/']) :
    Path.directory (Target.within directory s) = directory ∧
      base (Target.within directory s) = s := by
  by_cases hdir : directory = []
  · subst hdir
    have hwithin : Target.within [] s = s := rfl
    rw [hwithin, Path.directory, base, cutAtLast_segment hs]
    exact ⟨rfl, rfl⟩
  · cases hsep : endsInSeparator directory with
    | true =>
        have hcut : Text.cutAtLast isSeparator ('/' :: s) = some ([], s) :=
          cutAtLast_separator [] rfl hs
        rw [hend hsep, within_root hs, Path.directory, base, hcut]
        exact ⟨rfl, rfl⟩
    | false =>
        rw [within_eq directory hs hdir hsep, Path.directory, base, cutAtLast_separator directory rfl hs]
        obtain ⟨d, directory, rfl⟩ := List.exists_cons_of_ne_nil hdir
        exact ⟨rfl, rfl⟩

theorem intercalate_concat {steps : List Text} (h : steps ≠ []) (s : Text) :
    List.intercalate ['/'] (steps ++ [s]) = List.intercalate ['/'] steps ++ '/' :: s := by
  induction steps with
  | nil => exact absurd rfl h
  | cons t steps ih =>
      cases steps with
      | nil => rw [List.singleton_append, List.intercalate_cons_cons, List.intercalate_singleton,
          List.intercalate_singleton, List.append_assoc, List.singleton_append]
      | cons u steps =>
          have hne : u :: steps ≠ [] := List.cons_ne_nil u steps
          rw [List.cons_append, List.intercalate_cons_of_ne_nil (List.append_ne_nil_of_left_ne_nil hne _),
            ih hne, List.intercalate_cons_of_ne_nil hne]
          simp only [List.append_assoc]

namespace Place

variable {p : Place}

/-- No spelling but that of the root ends in a separator. -/
theorem IsSettled.eq_root_of_endsInSeparator (h : p.IsSettled) {marked : Bool}
    (hend : endsInSeparator (p.spell marked) = true) : p.spell marked = ['/'] := by
  by_cases hsteps : p.steps = []
  · unfold spell at hend ⊢
    rw [hsteps] at hend ⊢
    revert hend
    cases p.rooted <;> cases marked <;> decide
  · -- the last character is that of the last step
    obtain ⟨front, s, hfs⟩ := List.eq_nil_or_concat p.steps |>.resolve_left hsteps
    rw [List.concat_eq_append] at hfs
    obtain ⟨hsegment, hne, -⟩ := h.isSegment (s := s) (by rw [hfs]; simp)
    obtain ⟨x, hx⟩ : ∃ x, p.spell marked = x ++ s := by
      have hjoin : ∃ x, List.intercalate ['/'] p.steps = x ++ s := by
        rw [hfs]
        by_cases hfront : front = []
        · exact ⟨[], by rw [hfront, List.nil_append, List.intercalate_singleton]; rfl⟩
        · exact ⟨List.intercalate ['/'] front ++ ['/'], by rw [intercalate_concat hfront]; simp⟩
      obtain ⟨x, hx⟩ := hjoin
      unfold spell
      rw [hx]
      split
      · exact ⟨'/' :: x, rfl⟩
      · split
        · exact ⟨['.', '/'] ++ x, (List.append_assoc ..).symm⟩
        · exact ⟨x, rfl⟩
    obtain ⟨y, c, hc, hsep⟩ := exists_separator hend
    have hlast : s.getLast hne = c := by
      have := congrArg List.getLast? (hx.symm.trans hc)
      rw [List.getLast?_append_of_ne_nil _ hne, List.getLast?_concat,
        List.getLast?_eq_getLast_of_ne_nil hne] at this
      exact Option.some.inj this
    have := hsegment c (hlast ▸ List.getLast_mem hne)
    rw [hsep] at this
    exact absurd this Bool.noConfusion

/-- **One more step is one more name in the directory.** -/
theorem IsSettled.spell_append (h : p.IsSettled) {s : Text} (hs : IsSegment s) (marked : Bool) :
    (p.append s).spell marked = Target.within (p.spell marked) s := by
  have hnew : p.steps ++ [s] ≠ [] := by simp
  by_cases hsteps : p.steps = []
  · unfold spell Place.append
    simp only [hsteps, List.nil_append, List.intercalate_singleton, List.intercalate_nil,
      List.cons_ne_nil, if_true, if_false]
    cases p.rooted with
    | true => exact (within_root hs).symm
    | false =>
        cases marked with
        | false => rfl
        | true => exact (within_eq ['.'] hs (by decide) (by decide)).symm
  · have hend : endsInSeparator (p.spell marked) = false := by
      rw [← Bool.not_eq_true]
      intro hend
      have hroot := h.place_spell marked
      rw [h.eq_root_of_endsInSeparator hend] at hroot
      exact hsteps (hroot ▸ rfl)
    have hne : p.spell marked ≠ [] := by
      intro hnil
      have hroot := h.place_spell marked
      rw [hnil] at hroot
      exact hsteps (hroot ▸ rfl)
    -- no spelling with steps is empty or ends in a separator, so the name is joined behind one
    rw [within_eq _ hs hne hend]
    unfold spell Place.append
    simp only [intercalate_concat hsteps, hnew, hsteps, if_false]
    cases p.rooted <;> cases marked <;> simp

/-- A spelling has no separator to lose. -/
theorem IsSettled.withoutSeparator_spell (h : p.IsSettled) (marked : Bool) :
    withoutSeparator (p.spell marked) = p.spell marked := by
  unfold withoutSeparator
  split
  · next hend =>
      rw [Bool.and_eq_true, decide_eq_true_eq] at hend
      rw [h.eq_root_of_endsInSeparator hend.2] at hend
      exact absurd hend.1 (by decide)
  · rfl

/-- The key of a directory of a tree is its spelling without a marker. -/
theorem IsSettled.treeKey_spell (h : p.IsSettled) (marked : Bool) :
    FileTree.key (p.spell marked) = p.spell false := by
  rw [FileTree.key, h.withoutSeparator_spell, h.withoutMarker_spell]

end Place

/-- **A tree keeps its directories under the keys that listings have**, whatever path asks for
them. -/
theorem treeKey_normalize (path : Text) : FileTree.key (normalize path) = Listings.key path := by
  obtain ⟨marked, h⟩ := exists_normalize path
  rw [h, (isSettled_place path).treeKey_spell, key_eq_spell]

end ScriptSurvey.Path
