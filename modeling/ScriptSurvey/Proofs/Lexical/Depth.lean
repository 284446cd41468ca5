import ScriptSurvey.Proofs.Lexical.Partner
import ScriptSurvey.Proofs.Lexical.Rescan

/-!
# How deep brackets nest

The depth of a text is the greatest number of brackets that are open at once when its outermost level is
searched. It is what a counter of brackets has to hold: as long as the depth fits, a counter of bounded
size counts right.

Parts of a text are no deeper than the text, and no text is deeper than it is long. Where each bracket
that is opened is closed as well, every level takes two bytes, so the depth is at most half the length.
-/

namespace ScriptSurvey

open Run Nesting

namespace Nesting

/-- The greatest number of brackets that are open at once in front of, among and behind some runs. -/
def deepest (n : Nesting) : List Run → Nat
  | [] => n.depth
  | r :: rs => max n.depth ((n.behind r).deepest rs)

variable {n m : Nesting} {p q rs : List Run}

theorem depth_le_deepest (n : Nesting) (rs : List Run) : n.depth ≤ n.deepest rs := by
  cases rs with
  | nil => exact Nat.le_refl _
  | cons r rs => exact Nat.le_max_left _ _

theorem deepest_behind_le (n : Nesting) (r : Run) (rs : List Run) :
    (n.behind r).deepest rs ≤ n.deepest (r :: rs) :=
  Nat.le_max_right _ _

theorem deepest_append (n : Nesting) (p q : List Run) :
    n.deepest (p ++ q) = max (n.deepest p) ((n.after p).deepest q) := by
  induction p generalizing n with
  | nil => exact (Nat.max_eq_right (depth_le_deepest n q)).symm
  | cons r p ih => rw [List.cons_append, deepest, ih, deepest, after_cons, Nat.max_assoc]

/-- Runs that are no brackets lead no deeper. -/
theorem deepest_of_stays {n : Nesting} {rs : List Run} (h : ∀ r ∈ rs, ∀ e, r.shift e = .stays) :
    n.deepest rs = n.depth := by
  induction rs generalizing n with
  | nil => rfl
  | cons r rs ih =>
      obtain ⟨hr, hrs⟩ := List.forall_mem_cons.mp h
      have hsame : (n.behind r).depth = n.depth := by
        rw [behind, hr]
      rw [deepest, ih hrs, hsame, Nat.max_self]

/-- A run leads no less deep from further in. -/
theorem depth_behind_mono (hd : n.depth ≤ m.depth) (he : n.afterEquals = true → m.afterEquals = true)
    (r : Run) : (n.behind r).depth ≤ (m.behind r).depth := by
  have hsame (h : r.shift n.afterEquals = r.shift m.afterEquals) :
      (n.behind r).depth ≤ (m.behind r).depth := by
    rw [behind, behind, h]
    dsimp only
    split <;> omega
  by_cases hr : r = code '>'
  · -- a bracket that closes one for the first walk may belong to an arrow for the second
    subst hr
    cases hn : n.afterEquals with
    | true => exact hsame (by rw [hn, he hn])
    | false =>
        have hclosed : (n.behind (code '>')).depth = n.depth - 1 := by
          rw [behind, hn]
          rfl
        have hle : m.depth - 1 ≤ (m.behind (code '>')).depth := by
          rw [behind]
          cases m.afterEquals with
          | true => exact Nat.sub_le _ _
          | false => exact Nat.le_refl _
        omega
  · refine hsame ?_
    unfold shift
    split <;> first | rfl | exact absurd rfl hr

/-- **A walk that starts further in** comes no less deep. -/
theorem deepest_mono (hd : n.depth ≤ m.depth) (he : n.afterEquals = true → m.afterEquals = true)
    (rs : List Run) : n.deepest rs ≤ m.deepest rs := by
  induction rs generalizing n m with
  | nil => exact hd
  | cons r rs ih =>
      have hrest : (n.behind r).deepest rs ≤ (m.behind r).deepest rs :=
        ih (depth_behind_mono hd he r) fun h => h
      rw [deepest, deepest]
      omega

/-- A run that nests is a character. -/
theorem size_pos_of_shift {r : Run} {e : Bool} (h : r.shift e ≠ .stays) : 0 < Text.size r.text := by
  cases r with
  | code c => exact c.utf8Size_pos
  | comment kind text => exact absurd rfl h
  | literal kind text => exact absurd rfl h

/-- Each level takes a bracket that opens it. -/
theorem deepest_le (n : Nesting) (rs : List Run) : n.deepest rs ≤ n.depth + Text.size (join rs) := by
  induction rs generalizing n with
  | nil => exact Nat.le_add_right _ _
  | cons r rs ih =>
      have hrest := ih (n.behind r)
      have hone : (n.behind r).depth ≤ n.depth + Text.size r.text := by
        rw [behind]
        dsimp only
        split
        · next hopens => exact Nat.add_le_add_left (size_pos_of_shift (by rw [hopens]; simp)) _
        · omega
        · omega
      rw [deepest, join_cons, Text.size_append]
      omega

/-- **Where each closing bracket has one to close,** the levels that are gone into are those in front, those
behind, and at most one for every two bytes. -/
theorem two_mul_deepest_le {d d' : Nat} {e : Bool} (h : openBehind d e rs = some d') :
    2 * (Nesting.mk d e).deepest rs ≤ d + d' + Text.size (join rs) := by
  induction rs generalizing d e with
  | nil =>
      obtain rfl := Option.some.inj h
      show 2 * d ≤ d + d + 0
      omega
  | cons r rs ih =>
      obtain ⟨k, hwithin, hrest⟩ := openBehind_cons h
      have hle := ih hrest
      have hbelow := depth_le_deepest ⟨k, r.isChar '='⟩ rs
      rw [deepest, behind_of_within hwithin, join_cons, Text.size_append]
      have hstep : d ≤ k + Text.size r.text ∧ k ≤ d + Text.size r.text := by
        cases hshift : r.shift e with
        | opens =>
            have hpos := size_pos_of_shift (e := e) (r := r) (by rw [hshift]; simp)
            rw [hshift] at hwithin
            obtain rfl := Option.some.inj hwithin
            omega
        | closes =>
            have hpos := size_pos_of_shift (e := e) (r := r) (by rw [hshift]; simp)
            rw [hshift, Shift.within] at hwithin
            split at hwithin
            · exact absurd hwithin (by simp)
            · obtain rfl := Option.some.inj hwithin
              omega
        | stays =>
            rw [hshift] at hwithin
            obtain rfl := Option.some.inj hwithin
            omega
      dsimp only at hbelow ⊢
      omega

end Nesting

/-! ## Texts -/

namespace Text

/-- The greatest number of brackets that are open at once in a text. -/
def depth (t : Text) : Nat :=
  outermost.deepest (runs t)

variable {t : Text} {a p rs : List Run}

theorem depth_join (h : Stable p) : depth (join p) = outermost.deepest p := by
  rw [depth, h]

/-- Behind the front part of a text, no more brackets are open than somewhere in it. -/
theorem depth_after_le (h : runs t = a ++ rs) : (outermost.after a).depth ≤ depth t := by
  rw [depth, h, deepest_append]
  exact (depth_le_deepest _ rs).trans (Nat.le_max_right _ _)

theorem deepest_after_le (h : runs t = a ++ rs) : (outermost.after a).deepest rs ≤ depth t := by
  rw [depth, h, deepest_append]
  exact Nat.le_max_right _ _

/-- **A part of a text** is no deeper than the text. -/
theorem depth_join_le (h : p <:+: runs t) : depth (join p) ≤ depth t := by
  obtain ⟨a, b, hruns⟩ := h
  rw [depth_join ((Run.stable_runs t).of_isInfix ⟨a, b, hruns⟩)]
  rw [List.append_assoc] at hruns
  calc outermost.deepest p
      ≤ (outermost.after a).deepest p := deepest_mono (Nat.zero_le _) (fun he => absurd he (by decide)) p
    _ ≤ (outermost.after a).deepest (p ++ b) := by
        rw [deepest_append]
        exact Nat.le_max_left _ _
    _ ≤ depth t := deepest_after_le hruns.symm

/-- No text is deeper than it is long. -/
theorem depth_le_size (t : Text) : depth t ≤ size t := by
  have h := deepest_le outermost (runs t)
  rw [join_runs] at h
  exact h.trans (Nat.le_of_eq (Nat.zero_add _))

end Text

end ScriptSurvey
