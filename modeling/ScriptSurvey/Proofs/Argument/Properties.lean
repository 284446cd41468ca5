import Mathlib.Data.List.Induction
import ScriptSurvey.Argument.Element
import ScriptSurvey.Proofs.List.FirstSeen

/-!
# Properties, each key once

An object takes its properties one after the other. A key that comes again takes the new value and
keeps its first place. So of the properties with one key the **last gives the value, and the first the
place**:

* the keys are those of the properties, in the order in which they first come up;
* a property is in the object exactly if none behind it has its key.
-/

namespace ScriptSurvey.Element

/-- The properties that an object is left with. -/
def collapse (ps : List (Text × Element)) : List (Text × Element) :=
  ps.foldl (fun ps p => insertProperty p.1 p.2 ps) []

theorem ofProperties_eq (ps : List (Text × Element)) : ofProperties ps = object (collapse ps) := rfl

theorem collapse_concat (ps : List (Text × Element)) (p : Text × Element) :
    collapse (ps ++ [p]) = insertProperty p.1 p.2 (collapse ps) :=
  List.foldl_concat ..

theorem keys_insertProperty (key : Text) (value : Element) (ps : List (Text × Element)) :
    (insertProperty key value ps).map Prod.fst =
      if key ∈ ps.map Prod.fst then ps.map Prod.fst else ps.map Prod.fst ++ [key] := by
  induction ps with
  | nil => rfl
  | cons p ps ih =>
      rw [insertProperty]
      by_cases hk : p.1 = key
      · rw [if_pos hk, List.map_cons, List.map_cons, hk, if_pos List.mem_cons_self]
      · rw [if_neg hk, List.map_cons, ih, List.map_cons]
        by_cases hm : key ∈ ps.map Prod.fst
        · rw [if_pos hm, if_pos (List.mem_cons_of_mem _ hm)]
        · have hne : key ∉ p.1 :: ps.map Prod.fst := by
            rw [List.mem_cons, not_or]
            exact ⟨fun h => hk h.symm, hm⟩
          rw [if_neg hm, if_neg hne, List.cons_append]

/-- The keys come in the order in which they first come up. -/
theorem keys_collapse (ps : List (Text × Element)) :
    (collapse ps).map Prod.fst = (ps.map Prod.fst).eraseDups := by
  induction ps using List.reverseRecOn with
  | nil => rfl
  | append_singleton ps p ih =>
      rw [collapse_concat, keys_insertProperty, ih, List.map_append, List.map_singleton,
        eraseDups_concat]
      simp only [List.mem_eraseDups]

theorem mem_insertProperty_iff {key : Text} {value : Element} {ps : List (Text × Element)}
    (h : (ps.map Prod.fst).Nodup) {p : Text × Element} :
    p ∈ insertProperty key value ps ↔ p = (key, value) ∨ p ∈ ps ∧ p.1 ≠ key := by
  induction ps with
  | nil => simp [insertProperty]
  | cons q ps ih =>
      rw [List.map_cons, List.nodup_cons] at h
      rw [insertProperty]
      by_cases hk : q.1 = key
      · -- the value is replaced where the key stands, and the key stands there only
        have hne (hp : p ∈ ps) : p.1 ≠ key := fun he =>
          h.1 (by rw [hk, ← he]; exact List.mem_map_of_mem hp)
        rw [if_pos hk, hk, List.mem_cons, List.mem_cons]
        constructor
        · rintro (hp | hp)
          · exact .inl hp
          · exact .inr ⟨.inr hp, hne hp⟩
        · rintro (hp | ⟨rfl | hp, he⟩)
          · exact .inl hp
          · exact absurd hk he
          · exact .inr hp
      · rw [if_neg hk, List.mem_cons, ih h.2, List.mem_cons]
        constructor
        · rintro (rfl | hp | ⟨hp, he⟩)
          · exact .inr ⟨.inl rfl, hk⟩
          · exact .inl hp
          · exact .inr ⟨.inr hp, he⟩
        · rintro (hp | ⟨hp | hp, he⟩)
          · exact .inr (.inl hp)
          · exact .inl hp
          · exact .inr (.inr ⟨hp, he⟩)

theorem nodup_keys_collapse (ps : List (Text × Element)) : ((collapse ps).map Prod.fst).Nodup := by
  rw [keys_collapse]
  exact nodup_eraseDups _

theorem insertProperty_of_not_mem {key : Text} {value : Element} {ps : List (Text × Element)}
    (h : key ∉ ps.map Prod.fst) : insertProperty key value ps = ps ++ [(key, value)] := by
  induction ps with
  | nil => rfl
  | cons p ps ih =>
      rw [List.map_cons, List.mem_cons, not_or] at h
      rw [insertProperty, if_neg fun he => h.1 he.symm, ih h.2]
      rfl

/-- Properties with different keys are kept as they come. -/
theorem ofProperties_of_nodup {ps : List (Text × Element)} (h : (ps.map Prod.fst).Nodup) :
    ofProperties ps = object ps := by
  rw [ofProperties_eq]
  induction ps using List.reverseRecOn with
  | nil => rfl
  | append_singleton ps p ih =>
      rw [List.map_append, List.nodup_append] at h
      have hcollapse : collapse ps = ps := object.inj (ih h.1)
      have hp : p.1 ∉ ps.map Prod.fst := fun hm => h.2.2 _ hm _ List.mem_cons_self rfl
      rw [collapse_concat, hcollapse, insertProperty_of_not_mem hp]

/-- Whether a property is there and none behind it has its key. -/
def IsLast {α : Type} (p : Text × α) (ps : List (Text × α)) : Prop :=
  ∃ a b, ps = a ++ p :: b ∧ p.1 ∉ b.map Prod.fst

theorem IsLast.mem {α : Type} {p : Text × α} {ps : List (Text × α)} (h : IsLast p ps) : p ∈ ps := by
  obtain ⟨a, b, rfl, -⟩ := h
  exact List.mem_append_right a List.mem_cons_self

/-- The last property with a key stays so when values are changed. -/
theorem isLast_map_iff {α β : Type} {f : Text × α → Text × β} (hf : ∀ p, (f p).1 = p.1)
    {ps : List (Text × α)} {q : Text × β} :
    IsLast q (ps.map f) ↔ ∃ p, IsLast p ps ∧ f p = q := by
  have hkeys (b : List (Text × α)) : (b.map f).map Prod.fst = b.map Prod.fst := by
    rw [List.map_map]
    exact List.map_congr_left fun p _ => hf p
  constructor
  · rintro ⟨a, b, h, hb⟩
    obtain ⟨a', rest, rfl, rfl, hrest⟩ := List.map_eq_append_iff.mp h
    obtain ⟨p, b', rfl, rfl, rfl⟩ := List.map_eq_cons_iff.mp hrest
    rw [hkeys, hf] at hb
    exact ⟨p, ⟨a', b', rfl, hb⟩, rfl⟩
  · rintro ⟨p, ⟨a, b, rfl, hb⟩, rfl⟩
    refine ⟨a.map f, b.map f, by simp, ?_⟩
    rwa [hkeys, hf]

/-- An object has those properties that none behind has the key of. -/
theorem mem_collapse_iff {ps : List (Text × Element)} {p : Text × Element} :
    p ∈ collapse ps ↔ IsLast p ps := by
  induction ps using List.reverseRecOn with
  | nil => exact iff_of_false List.not_mem_nil fun ⟨a, b, h, _⟩ => absurd h (by simp)
  | append_singleton ps q ih =>
      rw [collapse_concat, mem_insertProperty_iff (nodup_keys_collapse ps), ih]
      constructor
      · rintro (rfl | ⟨⟨a, b, rfl, hb⟩, hne⟩)
        · exact ⟨ps, [], rfl, List.not_mem_nil⟩
        · exact ⟨a, b ++ [q], by simp, by simpa using ⟨by simpa using hb, hne⟩⟩
      · rintro ⟨a, b, h, hb⟩
        rcases List.eq_nil_or_concat b with rfl | ⟨b, r, rfl⟩
        · exact .inl (List.singleton_inj.mp (List.append_inj' h rfl).2).symm
        · rw [List.concat_eq_append, ← List.cons_append, ← List.append_assoc] at h
          obtain ⟨rfl, hq⟩ := List.append_inj' h rfl
          obtain rfl := List.singleton_inj.mp hq
          rw [List.concat_eq_append, List.map_append, List.mem_append, not_or] at hb
          exact .inr ⟨⟨a, b, rfl, hb.1⟩, fun he => hb.2 (by rw [he]; exact List.mem_singleton_self _)⟩

/-! ## Some of the properties -/

theorem filter_insertProperty (s : Text → Bool) (key : Text) (value : Element)
    (ps : List (Text × Element)) :
    (insertProperty key value ps).filter (fun p => s p.1) =
      if s key then insertProperty key value (ps.filter fun p => s p.1)
      else ps.filter fun p => s p.1 := by
  induction ps with
  | nil =>
      rw [insertProperty, List.filter_cons, List.filter_nil]
      rfl
  | cons p ps ih =>
      obtain ⟨k, v⟩ := p
      rw [insertProperty]
      by_cases hk : k = key
      · subst hk
        rw [if_pos rfl, List.filter_cons, List.filter_cons]
        cases s k with
        | true => rw [if_pos rfl, if_pos rfl, if_pos rfl, insertProperty, if_pos rfl]
        | false => rfl
      · rw [if_neg hk, List.filter_cons, List.filter_cons, ih]
        cases s k with
        | true =>
            rw [if_pos rfl, if_pos rfl, insertProperty, if_neg hk]
            split <;> rfl
        | false => rfl

/-- Leaving out keys makes no difference to the others. -/
theorem collapse_filter (s : Text → Bool) (ps : List (Text × Element)) :
    collapse (ps.filter fun p => s p.1) = (collapse ps).filter fun p => s p.1 := by
  induction ps using List.reverseRecOn with
  | nil => rfl
  | append_singleton ps p ih =>
      rw [List.filter_append, collapse_concat, filter_insertProperty, ← ih]
      cases hs : s p.1 with
      | true =>
          have hone : [p].filter (fun p => s p.1) = [p] := by simp [hs]
          rw [hone, collapse_concat, if_pos rfl]
      | false =>
          have hnone : [p].filter (fun p => s p.1) = [] := by simp [hs]
          rw [hnone, List.append_nil]
          rfl

end ScriptSurvey.Element
