import ScriptSurvey.Proofs.Lexical.Cuts
import ScriptSurvey.Proofs.Path.Relative

/-!
# Parts of a path

A place has no steps but segments of the path that leads there, and a way none but these and levels up. So
what holds of a path and of all its parts holds of every path that is made from it: it says something of
the segments, and not of how they are put together.
-/

namespace ScriptSurvey.Path

/-! ## The steps of a place -/

theorem mem_enter {rooted : Bool} {stack : List Text} {s x : Text} (h : x ∈ enter rooted stack s) :
    x ∈ stack ∨ x = s := by
  unfold enter at h
  split at h
  · exact .inl h
  · split at h
    · split at h
      · -- no step is there to leave
        split at h
        · exact absurd h List.not_mem_nil
        · exact .inr (List.mem_singleton.mp h)
      · next last outer =>
          split at h
          · split at h
            · exact .inl h
            · exact (List.mem_cons.mp h).symm
          · exact .inl (List.mem_cons_of_mem last h)
    · exact (List.mem_cons.mp h).symm

namespace Place

variable {p q : Place} {s x : Text}

theorem mem_steps_enter (h : x ∈ (p.enter s).steps) : x ∈ p.steps ∨ x = s :=
  (mem_enter (List.mem_reverse.mp h)).imp_left List.mem_reverse.mp

theorem mem_steps_foldl {segs : List Text} (h : x ∈ (segs.foldl Place.enter p).steps) :
    x ∈ p.steps ∨ x ∈ segs := by
  induction segs generalizing p with
  | nil => exact .inl h
  | cons s segs ih =>
      rcases ih h with hx | hx
      · rcases mem_steps_enter hx with hx | rfl
        · exact .inl hx
        · exact .inr List.mem_cons_self
      · exact .inr (List.mem_cons_of_mem s hx)

theorem mem_steps_wayTo (h : x ∈ (p.wayTo q).steps) : x = up ∨ x ∈ q.steps := by
  obtain ⟨common, -, hq⟩ := exists_dropCommon p.steps q.steps
  rcases List.mem_append.mp h with hx | hx
  · obtain ⟨y, -, rfl⟩ := List.mem_map.mp hx
    exact .inl rfl
  · exact .inr (hq ▸ List.mem_append_right common hx)

theorem rooted_along (p : Place) (path : Text) : (p.along path).rooted = p.rooted := by
  unfold along
  generalize segments (unifySeparators path) = segs
  induction segs generalizing p with
  | nil => rfl
  | cons s segs ih => exact ih (p.enter s)

end Place

/-- What is joined to a directory starts where the directory does. -/
theorem startsAtRoot_combine {directory path : Text} (h : startsAtRoot directory = true)
    (hpath : isRooted path = false) : startsAtRoot (combine directory path) = true := by
  have hne : directory ≠ [] := by
    rintro rfl
    exact Bool.noConfusion h
  have hrooted := congrArg Place.rooted (place_combine hne hpath)
  rwa [Place.rooted_along, rooted_place, rooted_place, h] at hrooted

/-! ## What holds of the parts of a path -/

/-- Whether what holds of paths also holds of their segments, and of the paths made from these. -/
structure IsPathwise (P : Text → Prop) : Prop where
  up : P up
  unify {t : Text} : P t → P (unifySeparators t)
  part {t u : Text} : P t → u <:+: t → P u
  join {s t : Text} : P s → P t → P (s ++ '/' :: t)

namespace IsPathwise

variable {P : Text → Prop} (h : IsPathwise P)

include h

theorem segment {path s : Text} (hpath : P path) (hs : s ∈ segments (unifySeparators path)) : P s := by
  refine h.part (h.unify hpath) ?_
  have hpart := isInfix_intercalate ['/'] hs
  rwa [segments, List.intercalate_splitOn] at hpart

theorem intercalate {steps : List Text} (hsteps : ∀ s ∈ steps, P s) :
    P (List.intercalate ['/'] steps) := by
  induction steps with
  | nil => exact h.part h.up List.nil_infix
  | cons s steps ih =>
      have hs := hsteps s List.mem_cons_self
      cases steps with
      | nil => exact List.intercalate_singleton ▸ hs
      | cons t steps =>
          rw [List.intercalate_cons_cons, List.append_assoc]
          exact h.join hs (ih fun x hx => hsteps x (List.mem_cons_of_mem s hx))

theorem spell {p : Place} (hp : ∀ s ∈ p.steps, P s) (marked : Bool) : P (p.spell marked) := by
  have hjoined := h.intercalate hp
  have hnil : P [] := h.part h.up List.nil_infix
  have hdot : P ['.'] := h.part h.up ⟨['.'], [], rfl⟩
  unfold Place.spell
  split
  · exact h.join hnil hjoined
  · split
    · split
      · exact hdot
      · exact h.join hdot hjoined
    · exact hjoined

theorem steps_along {p : Place} {path : Text} (hp : ∀ s ∈ p.steps, P s) (hpath : P path) :
    ∀ s ∈ (p.along path).steps, P s := by
  intro s hs
  rcases Place.mem_steps_foldl hs with hs | hs
  · exact hp s hs
  · exact h.segment hpath hs

theorem steps_place {path : Text} (hpath : P path) : ∀ s ∈ (place path).steps, P s := by
  rw [place_eq_foldl]
  exact h.steps_along (fun s hs => absurd hs List.not_mem_nil) hpath

theorem relativeFrom {target : Text} (htarget : ∀ s ∈ (place target).steps, P s) (start : Text) :
    P (relativeFrom start target) := by
  rw [relativeFrom_eq_spell]
  refine h.spell (fun s hs => ?_) _
  rcases Place.mem_steps_wayTo hs with rfl | hs
  · exact h.up
  · exact htarget s hs

end IsPathwise

end ScriptSurvey.Path
