import ScriptSurvey.Proofs.Lexical.Reach

/-!
# Offsets of code

The offsets at which the characters of code among some runs begin. They are those at which a scan steps
over code, they go up, and a cursor that is reached divides them into those in front of it and those from
it on.
-/

namespace ScriptSurvey

open Run

/-- The offsets of the characters of code among some runs, the first of which begins at byte `n`. -/
def Run.codeOffsets (n : Nat) : List Run → List Nat
  | [] => []
  | r :: rs =>
    if r.mode.isCode then n :: codeOffsets (n + Text.size r.text) rs
    else codeOffsets (n + Text.size r.text) rs

namespace Run

theorem codeOffsets_append (n : Nat) (p q : List Run) :
    codeOffsets n (p ++ q) = codeOffsets n p ++ codeOffsets (n + Text.size (join p)) q := by
  induction p generalizing n with
  | nil => rfl
  | cons r p ih =>
      rw [List.cons_append, codeOffsets, codeOffsets, ih, join_cons, Text.size_append,
        Nat.add_assoc]
      split <;> rfl

theorem codeOffsets_of_forall {rs : List Run} (h : ∀ r ∈ rs, r.mode.isCode = false) (n : Nat) :
    codeOffsets n rs = [] := by
  induction rs generalizing n with
  | nil => rfl
  | cons r rs ih =>
      rw [codeOffsets, h r List.mem_cons_self]
      exact ih (fun s hs => h s (List.mem_cons_of_mem r hs)) _

theorem exists_of_mem_codeOffsets {n p : Nat} {rs : List Run} (h : p ∈ codeOffsets n rs) :
    ∃ a x b, rs = a ++ code x :: b ∧ p = n + Text.size (join a) := by
  induction rs generalizing n with
  | nil => exact absurd h List.not_mem_nil
  | cons r rs ih =>
      have hothers (h : p ∈ codeOffsets (n + Text.size r.text) rs) :
          ∃ a x b, r :: rs = a ++ code x :: b ∧ p = n + Text.size (join a) := by
        obtain ⟨a, x, b, rfl, rfl⟩ := ih h
        exact ⟨r :: a, x, b, rfl, by rw [join_cons, Text.size_append, Nat.add_assoc]⟩
      rw [codeOffsets] at h
      split at h
      · next hcode =>
          rcases List.mem_cons.mp h with rfl | h
          · obtain ⟨x, rfl⟩ := exists_eq_code hcode
            exact ⟨[], x, rs, rfl, rfl⟩
          · exact hothers h
      · exact hothers h

theorem lt_of_mem_codeOffsets {n p : Nat} {rs : List Run} (h : p ∈ codeOffsets n rs) :
    n ≤ p ∧ p < n + Text.size (join rs) := by
  obtain ⟨a, x, b, rfl, rfl⟩ := exists_of_mem_codeOffsets h
  have hpos := x.utf8Size_pos
  simp only [join_append, join_cons, text, Text.size_append, Text.size_cons, Text.size_nil]
  omega

theorem pairwise_codeOffsets (n : Nat) (rs : List Run) : (codeOffsets n rs).Pairwise (· < ·) := by
  induction rs generalizing n with
  | nil => exact List.Pairwise.nil
  | cons r rs ih =>
      rw [codeOffsets]
      split
      · next hcode =>
          refine List.pairwise_cons.mpr ⟨fun p hp => ?_, ih _⟩
          obtain ⟨x, rfl⟩ := exists_eq_code hcode
          have hpos := Text.size_pos (List.cons_ne_nil x [])
          have hle := (lt_of_mem_codeOffsets hp).1
          rw [text] at hle
          omega
      · exact ih _

end Run

namespace Cursor

/-- The steps over code begin at the offsets of the characters of code. -/
theorem codeOffsets_scan (c : Cursor) :
    (c.scan.1.filter fun step => step.2.mode.isCode).map (fun step => step.1.start) =
      Run.codeOffsets c.offset (runs c.rest) := by
  fun_induction scan c with
  | case1 c h =>
      cases hrest : c.rest with
      | nil =>
          rw [runs_nil]
          rfl
      | cons x t => exact absurd h (by simp [step?_of_cons hrest])
  | case2 c r d h ih =>
      have hoffset := offset_of_step? h
      have hruns : runs c.rest = r :: runs d.rest := by
        cases hrest : c.rest with
        | nil => exact absurd h (by simp [step?_of_nil hrest])
        | cons x t =>
            rw [step?_of_cons hrest, Option.some.injEq, Prod.mk.injEq] at h
            rw [runs_cons, ← h.1, ← h.2]
            rfl
      rw [hruns, Run.codeOffsets, ← hoffset, ← ih, List.filter_cons]
      split <;> rfl

/-- A cursor that is reached has passed over the offsets of what stands in front of it. -/
theorem Reaches.codeOffsets_eq {c d : Cursor} {rs : List Run} (h : c.Reaches d rs) :
    Run.codeOffsets c.offset (runs c.rest) =
      Run.codeOffsets c.offset rs ++ Run.codeOffsets d.offset (runs d.rest) := by
  rw [h.ahead, Run.codeOffsets_append, h.offset_eq]

end Cursor

end ScriptSurvey
