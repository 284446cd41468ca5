import Mathlib.Data.List.Induction
import Mathlib.Data.List.Nodup

/-!
# Lists without repetitions

A list without its repetitions has each member once, in the order in which the members first come up.
Whether repetitions are left out before or after a list is mapped, filtered or joined to others makes
no difference, as long as they are left out in the end.
-/

namespace ScriptSurvey

variable {α β : Type} [BEq α] [LawfulBEq α] [BEq β] [LawfulBEq β]

theorem eraseDups_concat (as : List α) (b : α) :
    (as ++ [b]).eraseDups = if b ∈ as then as.eraseDups else as.eraseDups ++ [b] := by
  rw [List.eraseDups_append]
  split
  · next h => simp [List.removeAll, h]
  · next h => simp [List.removeAll, h, List.eraseDups_cons]

/-- The last one that comes up for the first time has all others in front of it, wherever it stands. -/
theorem mem_of_getLast?_eraseDups {as : List α} {x y : α} (hy : as.eraseDups.getLast? = some y)
    (hx : x ∈ as) (hne : x ≠ y) {bs cs : List α} (h : as = bs ++ y :: cs) : x ∈ bs := by
  -- from the end: what comes last again changes nothing, and what comes last for the first time is `y`
  induction as using List.reverseRecOn generalizing cs with
  | nil => exact absurd hx List.not_mem_nil
  | append_singleton as z ih =>
      have hxs (hz : x ≠ z) : x ∈ as := by
        rcases List.mem_append.mp hx with hx | hx
        · exact hx
        · exact absurd (List.mem_singleton.mp hx) hz
      rw [eraseDups_concat] at hy
      split at hy
      · next hz =>
          have hx : x ∈ as := by
            by_cases hxz : x = z
            · exact hxz ▸ hz
            · exact hxs hxz
          rcases List.eq_nil_or_concat cs with rfl | ⟨cs, w, rfl⟩
          · rwa [(List.append_inj' h rfl).1] at hx
          · rw [List.concat_eq_append, ← List.cons_append, ← List.append_assoc] at h
            exact ih hy hx (List.append_inj' h rfl).1
      · next hz =>
          rw [List.getLast?_concat, Option.some.injEq] at hy
          subst hy
          rcases List.eq_nil_or_concat cs with rfl | ⟨cs, w, rfl⟩
          · rw [(List.append_inj' h rfl).1] at hxs
            exact hxs hne
          · -- it stands at the end only
            rw [List.concat_eq_append, ← List.cons_append, ← List.append_assoc] at h
            refine absurd ?_ hz
            rw [(List.append_inj' h rfl).1]
            exact List.mem_append_right bs List.mem_cons_self

/-- What comes several times in front, and never behind, comes once. -/
theorem eraseDups_replicate_append {x : α} (n : Nat) {l : List α} (hx : x ∉ l) :
    (List.replicate (n + 1) x ++ l).eraseDups = x :: l.eraseDups := by
  have hfront : (List.replicate n x).filter (fun y => !y == x) = [] := by
    rw [List.filter_eq_nil_iff]
    intro y hy
    simp [List.eq_of_mem_replicate hy]
  have hback : l.filter (fun y => !y == x) = l := by
    rw [List.filter_eq_self]
    intro y hy
    have hne : y ≠ x := fun he => hx (he ▸ hy)
    simp [hne]
  rw [List.replicate_succ, List.cons_append, List.eraseDups_cons, List.filter_append, hfront, hback,
    List.nil_append]

theorem nodup_eraseDups (as : List α) : as.eraseDups.Nodup := by
  induction as using List.reverseRecOn with
  | nil => exact List.nodup_nil
  | append_singleton as b ih =>
      rw [eraseDups_concat]
      split
      · exact ih
      · next hb =>
          refine ih.append (List.nodup_singleton b) fun x hx hxb => hb ?_
          rw [← List.mem_singleton.mp hxb]
          exact List.mem_eraseDups.mp hx

theorem eraseDups_filter (p : α → Bool) (as : List α) :
    (as.filter p).eraseDups = as.eraseDups.filter p := by
  induction as using List.reverseRecOn with
  | nil => rfl
  | append_singleton as b ih =>
      rw [List.filter_append, eraseDups_concat]
      by_cases hp : p b = true
      · rw [List.filter_cons_of_pos hp, List.filter_nil, eraseDups_concat, ih]
        by_cases hb : b ∈ as
        · rw [if_pos (List.mem_filter.mpr ⟨hb, hp⟩), if_pos hb]
        · rw [if_neg fun h => hb (List.mem_of_mem_filter h), if_neg hb, List.filter_append,
            List.filter_cons_of_pos hp, List.filter_nil]
      · rw [List.filter_cons_of_neg hp, List.filter_nil, List.append_nil, ih]
        split
        · rfl
        · rw [List.filter_append, List.filter_cons_of_neg hp, List.filter_nil, List.append_nil]

/-- Lists that are the same without their repetitions are so behind one another. -/
theorem eraseDups_append_congr {as as' bs bs' : List α} (h : as.eraseDups = as'.eraseDups)
    (h' : bs.eraseDups = bs'.eraseDups) : (as ++ bs).eraseDups = (as' ++ bs').eraseDups := by
  have hmem (x : α) : x ∈ as ↔ x ∈ as' := by
    rw [← List.mem_eraseDups, h, List.mem_eraseDups]
  have hremove : bs'.removeAll as = bs'.removeAll as' := by
    unfold List.removeAll
    refine List.filter_congr fun x _ => ?_
    rw [Bool.eq_iff_iff]
    simp [hmem]
  rw [List.eraseDups_append, List.eraseDups_append, h, ← hremove, List.removeAll, List.removeAll,
    eraseDups_filter, eraseDups_filter, h']

theorem eraseDups_flatMap_congr {γ : Type} {f g : γ → List α} {xs : List γ}
    (h : ∀ x ∈ xs, (f x).eraseDups = (g x).eraseDups) :
    (xs.flatMap f).eraseDups = (xs.flatMap g).eraseDups := by
  induction xs with
  | nil => rfl
  | cons x xs ih =>
      exact eraseDups_append_congr (h x List.mem_cons_self)
        (ih fun y hy => h y (List.mem_cons_of_mem x hy))

theorem eraseDups_filterMap_eraseDups (g : α → Option β) (as : List α) :
    (as.eraseDups.filterMap g).eraseDups = (as.filterMap g).eraseDups := by
  induction as using List.reverseRecOn with
  | nil => rfl
  | append_singleton as b ih =>
      rw [eraseDups_concat, List.filterMap_append]
      split
      · next hb =>
          -- what it is mapped to came up with it
          rw [ih, List.filterMap_cons]
          cases hg : g b with
          | none => rw [List.filterMap_nil, List.append_nil]
          | some c =>
              rw [List.filterMap_nil, eraseDups_concat,
                if_pos (List.mem_filterMap.mpr ⟨b, hb, hg⟩)]
      · rw [List.filterMap_append]
        exact eraseDups_append_congr ih rfl

end ScriptSurvey
