import ScriptSurvey.Proofs.Path.Spell

/-!
# What a path denotes

A path is followed from a stack of directories, the innermost first: a path from the root empties the
stack, `..` leaves the innermost directory if there is one, and any other segment enters a directory,
but for `.` and the empty one.

Normalizing does not change where this leads, wherever it starts: each segment does to the place of a
path what it does to the stack, and the levels up that stay in front of a place are still carried out.
A path in normal form spells its place, so it has no segment that could be left out, and it is its own
normal form.
-/

namespace ScriptSurvey.Path

/-! ## Following a path -/

/-- The stack of directories behind one more segment. -/
def descend (stack : List Text) (s : Text) : List Text :=
  if s = [] ∨ s = ['.'] then stack
  else if s = up then stack.tail
  else s :: stack

/-- The stack of directories that a path leads to from another one. -/
def follow (stack : List Text) (path : Text) : List Text :=
  (segments (unifySeparators path)).foldl descend (if startsAtRoot path then [] else stack)

theorem descend_stay {stack : List Text} {s : Text} (h : s = [] ∨ s = ['.']) :
    descend stack s = stack :=
  if_pos h

theorem descend_up (stack : List Text) : descend stack up = stack.tail := rfl

theorem descend_name {stack : List Text} {s : Text} (h : IsName s) :
    descend stack s = s :: stack := by
  have hstay : ¬(s = [] ∨ s = ['.']) := by
    rintro (hs | hs)
    · exact h.ne_nil hs
    · exact h.ne_dot hs
  unfold descend
  rw [if_neg hstay, if_neg h.ne_up]

namespace Place

variable {p q : Place} {s : Text}

/-- The stack of directories that the steps of a place lead to. -/
def follow (stack : List Text) (p : Place) : List Text :=
  p.steps.foldl descend (if p.rooted then [] else stack)

theorem follow_append (stack : List Text) (p : Place) (s : Text) :
    (p.append s).follow stack = descend (p.follow stack) s := by
  rw [follow, append, List.foldl_append]
  rfl

/-- **One more segment does to the stack** what it does to the place. -/
theorem Enters.follow_eq (h : p.Enters s q) (stack : List Text) :
    q.follow stack = descend (p.follow stack) s := by
  cases h with
  | stay hs => exact (descend_stay hs).symm
  | down hs => exact follow_append stack p s
  | back hs hp => rw [hp, follow_append, descend_name hs, descend_up, List.tail_cons]
  | root hrooted hsteps =>
      rw [follow, hrooted, hsteps]
      rfl
  | above hrooted hups => exact follow_append stack p up

theorem IsSettled.follow_foldl (h : p.IsSettled) {segs : List Text}
    (hsegs : ∀ s ∈ segs, IsSegment s) (stack : List Text) :
    (segs.foldl Place.enter p).follow stack = segs.foldl descend (p.follow stack) := by
  induction segs generalizing p with
  | nil => rfl
  | cons s segs ih =>
      have hs := hsegs s List.mem_cons_self
      rw [List.foldl_cons, List.foldl_cons, ← (h.enters hs).follow_eq stack]
      exact ih (h.enter hs) fun x hx => hsegs x (List.mem_cons_of_mem s hx)

end Place

/-- A path leads where its place does. -/
theorem follow_eq (stack : List Text) (path : Text) :
    follow stack path = (place path).follow stack := by
  rw [place_eq_foldl,
    (Place.isSettled_start _).follow_foldl fun s hs => isSegment_of_mem_segments hs]
  rfl

/-! ## Normal forms -/

/-- Whether a path is in normal form: it is empty, the root or `.`, or no segment of it could be left
out, and levels up stand only in front, where neither the root nor a marker is. -/
def IsNormal (path : Text) : Prop :=
  path ∈ [[], ['/'], ['.']] ∨
    ∃ (front body : Text) (k : Nat) (names : List Text), front ∈ [[], ['/'], ['.', '/']] ∧
      path = front ++ body ∧ segments body = List.replicate k up ++ names ∧
      (∀ s ∈ names, IsName s) ∧ (front ≠ [] → k = 0)

/-- Where levels up stand in front, the text begins with two dots. -/
theorem isPrefixOf_up (k : Nat) (names : List Text) :
    List.isPrefixOf up (List.intercalate ['/'] (List.replicate (k + 1) up ++ names)) = true := by
  rw [List.replicate_succ, List.cons_append]
  cases List.replicate k up ++ names with
  | nil => rfl
  | cons s rest => rw [List.intercalate_cons_cons]; rfl

/-- A settled place is spelled in normal form, with a marker only where no level up stands. -/
theorem Place.IsSettled.isNormal_spell {p : Place} (h : p.IsSettled) {marked : Bool}
    (hmarked : p.rooted = false → marked = true →
      List.isPrefixOf up (List.intercalate ['/'] p.steps) = false) :
    IsNormal (p.spell marked) := by
  by_cases hnil : p.steps = []
  · refine .inl ?_
    unfold spell
    rw [hnil]
    cases p.rooted <;> cases marked <;> decide
  · have hsegments := segments_intercalate (fun s hs => (h.isSegment hs).1) hnil
    obtain ⟨k, names, hsteps, hroot, hnames⟩ := h
    rw [hsteps] at hsegments
    unfold spell
    -- what stands in front of the steps depends on root and marker
    cases hrooted : p.rooted with
    | true =>
        exact .inr ⟨['/'], _, k, names, by decide, rfl, hsteps ▸ hsegments, hnames,
          fun _ => hroot hrooted⟩
    | false =>
        cases hm : marked with
        | true =>
            rw [if_neg Bool.false_ne_true, if_pos rfl, if_neg hnil]
            refine .inr ⟨['.', '/'], _, k, names, by decide, rfl, hsteps ▸ hsegments, hnames,
              fun _ => ?_⟩
            cases k with
            | zero => rfl
            | succ k =>
                have hdots := hmarked hrooted hm
                rw [hsteps, isPrefixOf_up] at hdots
                exact Bool.noConfusion hdots
        | false =>
            exact .inr ⟨[], _, k, names, by decide, rfl, hsteps ▸ hsegments, hnames,
              fun hfront => absurd rfl hfront⟩

theorem isNormal_normalize (path : Text) : IsNormal (normalize path) := by
  rw [normalize_eq_spell]
  exact (isSettled_place path).isNormal_spell fun _ hmarked => isPrefixOf_up_of_keepsMarker hmarked

/-- A path in normal form keeps the marker that it has. -/
theorem keepsMarker_normalize {path : Text} (h : startsAtRoot path = false) :
    keepsMarker (normalize path) = keepsMarker path := by
  have hplace := place_normalize path
  by_cases hsteps : (place path).steps = []
  · rw [keepsMarker_of_nil hsteps, keepsMarker_of_nil (hplace ▸ hsteps)]
    cases path with
    | nil => rfl
    | cons c path =>
        have hspell := normalize_eq_spell (c :: path)
        rw [keepsMarker_of_nil hsteps, Place.spell, hsteps,
          rooted_place, h] at hspell
        rw [hspell]
        rfl
  · have hspell := normalize_eq_spell path
    have hunify := (isSettled_place path).unifySeparators_spell (keepsMarker path)
    have hmarked := isMarked_spell (isSettled_place path) hsteps (keepsMarker path)
    rw [← hspell] at hunify hmarked
    rw [keepsMarker_of_ne_nil (hplace ▸ hsteps), hunify, hmarked, hplace,
      rooted_place, h, Bool.not_false, Bool.true_and]
    cases hkeeps : keepsMarker path with
    | true => rw [isPrefixOf_up_of_keepsMarker hkeeps]; rfl
    | false => rfl

/-- A path in normal form is its own normal form. -/
theorem normalize_normalize (path : Text) : normalize (normalize path) = normalize path := by
  rw [normalize_eq_spell (normalize path), place_normalize]
  cases hroot : startsAtRoot path with
  | true =>
      -- from the root there is no marker to keep
      rw [normalize_eq_spell path, Place.spell, Place.spell, rooted_place, hroot]
      rfl
  | false => rw [keepsMarker_normalize hroot, ← normalize_eq_spell]

/-- **Normalizing keeps what a path denotes**, from wherever it is followed, and gives it one spelling,
in which nothing could be left out. -/
theorem normalize_denotes (path : Text) :
    (∀ stack, follow stack (normalize path) = follow stack path) ∧
      normalize (normalize path) = normalize path ∧ IsNormal (normalize path) := by
  refine ⟨fun stack => ?_, normalize_normalize path, isNormal_normalize path⟩
  rw [follow_eq, follow_eq, place_normalize]

/-- A marker, a separator of the other kind and a level up that leads out. -/
example : normalize "./a\\../..//b".toList = "../b".toList ∧
    follow ["d".toList, "c".toList] "./a\\../..//b".toList = ["b".toList, "c".toList] := by
  decide +kernel

end ScriptSurvey.Path
