import ScriptSurvey.Proofs.Path.Spell

/-!
# Places below others

A place lies **below** another if it is reached from there by one step or more. The first of these
steps is the **child** of the upper place that leads to the lower one, so a path has one child in each
directory that it leads through, and none in any other.
-/

namespace ScriptSurvey.Path.Place

/-- Whether a place is reached from another by one step or more. -/
def Below (p q : Place) : Prop :=
  ∃ rest, rest ≠ [] ∧ q = ⟨p.rooted, p.steps ++ rest⟩

/-- The step that leads from a place towards another one below it. -/
def child? (p q : Place) : Option Text :=
  if p.rooted = q.rooted ∧ p.steps <+: q.steps then q.steps[p.steps.length]? else none

variable {p q : Place}

theorem below_append_iff {s : Text} : p.Below (q.append s) ↔ p = q ∨ p.Below q := by
  constructor
  · rintro ⟨rest, hne, hq⟩
    obtain ⟨front, last, rfl⟩ := (List.eq_nil_or_concat rest).resolve_left hne
    rw [List.concat_eq_append, ← List.append_assoc] at hq
    have hfront : q = ⟨p.rooted, p.steps ++ front⟩ :=
      (append_inj (q := ⟨p.rooted, p.steps ++ front⟩) hq).1
    by_cases hnil : front = []
    · rw [hnil, List.append_nil] at hfront
      exact .inl hfront.symm
    · exact .inr ⟨front, hnil, hfront⟩
  · rintro (rfl | ⟨rest, -, rfl⟩)
    · exact ⟨[s], List.cons_ne_nil s [], rfl⟩
    · exact ⟨rest ++ [s], by simp, by rw [append, List.append_assoc]⟩

theorem not_below_of_nil (h : q.steps = []) : ¬p.Below q := by
  rintro ⟨rest, hne, rfl⟩
  exact hne (List.append_eq_nil_iff.mp h).2

theorem not_below_self (p : Place) : ¬p.Below p := by
  rintro ⟨rest, hne, hp⟩
  have hsteps : p.steps = p.steps ++ rest := congrArg steps hp
  exact hne (List.self_eq_append_right.mp hsteps)

/-! ## Children -/

/-- A child leads to the other place, in one step or in more. -/
theorem child?_eq_some_iff {n : Text} :
    p.child? q = some n ↔ q = p.append n ∨ (p.append n).Below q := by
  have hcons : p.child? q = some n ↔ ∃ more, q = ⟨p.rooted, p.steps ++ n :: more⟩ := by
    unfold child?
    constructor
    · intro h
      split at h
      · next hprefix =>
          obtain ⟨hroot, rest, hrest⟩ := hprefix
          rw [← hrest, List.getElem?_append_right (Nat.le_refl _), Nat.sub_self,
            ← List.head?_eq_getElem?] at h
          obtain ⟨more, rfl⟩ := List.head?_eq_some_iff.mp h
          exact ⟨more, by rw [hroot, hrest]⟩
      · exact absurd h (by simp)
    · rintro ⟨more, rfl⟩
      rw [if_pos ⟨rfl, List.prefix_append _ _⟩, List.getElem?_append_right (Nat.le_refl _),
        Nat.sub_self]
      rfl
  -- the steps behind the child are none, or more
  rw [hcons]
  constructor
  · rintro ⟨more, rfl⟩
    by_cases hmore : more = []
    · rw [hmore]
      exact .inl rfl
    · exact .inr ⟨more, hmore, by rw [append, List.append_assoc]; rfl⟩
  · rintro (rfl | ⟨more, -, rfl⟩)
    · exact ⟨[], rfl⟩
    · exact ⟨more, by rw [append, List.append_assoc]; rfl⟩

/-- There is a child exactly towards places below. -/
theorem isSome_child?_iff : (p.child? q).isSome = true ↔ p.Below q := by
  rw [Option.isSome_iff_exists]
  constructor
  · rintro ⟨n, hn⟩
    rcases child?_eq_some_iff.mp hn with rfl | ⟨rest, -, rfl⟩
    · exact below_append_iff.mpr (.inl rfl)
    · exact ⟨n :: rest, List.cons_ne_nil n rest, by rw [append, List.append_assoc]; rfl⟩
  · rintro ⟨rest, hne, rfl⟩
    obtain ⟨n, more, rfl⟩ := List.exists_cons_of_ne_nil hne
    refine ⟨n, child?_eq_some_iff.mpr ?_⟩
    by_cases hmore : more = []
    · rw [hmore]
      exact .inl rfl
    · exact .inr ⟨more, hmore, by rw [append, List.append_assoc]; rfl⟩

/-- One more step is the child of the place that it starts from; the places above that one keep their
children. -/
theorem child?_append (p q : Place) (s : Text) :
    p.child? (q.append s) = if p = q then some s else p.child? q := by
  refine Option.ext fun n => ?_
  rw [child?_eq_some_iff, below_append_iff]
  split
  · next hpq =>
      subst hpq
      rw [Option.some.injEq]
      constructor
      · rintro (h | h | h)
        · exact (append_inj h).2
        · exact absurd (congrArg (List.length ∘ steps) h) (by simp [append])
        · exact absurd (isSome_child?_iff.mp (by rw [child?_eq_some_iff.mpr (.inr h)]; rfl))
            (not_below_self p)
      · rintro rfl
        exact .inl rfl
  · next hpq =>
      rw [child?_eq_some_iff, eq_comm (a := p.append n)]
      refine ⟨fun h => h.resolve_left fun h => hpq (append_inj h).1.symm, .inr⟩

end ScriptSurvey.Path.Place
