import ScriptSurvey.Proofs.Lexical.Even
import ScriptSurvey.Proofs.Lexical.Matched
import ScriptSurvey.Proofs.Lexical.Scan

/-!
# The partner of a parenthesis

A parenthesis that is open has a partner, the one that closes it when round, square and curly brackets
nest by kind. The search for a closing bracket does not ask for kinds: it counts the brackets of all four
kinds that are open, and takes the first one for which there is none left. It takes the partner exactly if
the count is down to zero there and has not been short of a bracket before, which is so wherever all four
kinds nest.
-/

namespace ScriptSurvey

open Run

namespace Run

/-- The count finds a parenthesis exactly if nothing is open there any more. -/
theorem enclosedFrom_append_iff {depth : Nat} {e : Bool} (p q : List Run) :
    enclosedFrom depth e (p ++ code ')' :: q) = some (p, q) ↔ openBehind depth e p = some 0 := by
  -- the search and the count go through the same depths, until the parenthesis is next
  induction p generalizing depth e with
  | nil =>
      rw [List.nil_append, enclosedFrom, openBehind]
      cases depth with
      | zero => exact iff_of_true rfl rfl
      | succ n =>
          refine iff_of_false (fun h => ?_) (by simp)
          obtain ⟨x, -, hx⟩ := Option.map_eq_some_iff.mp h
          exact List.cons_ne_nil _ _ (congrArg Prod.fst hx)
  | cons r p ih =>
      rw [List.cons_append, enclosedFrom, openBehind]
      cases (r.shift e).within depth with
      | none => exact iff_of_false (by simp) (by simp)
      | some d =>
          rw [Option.bind_some, ← ih]
          show (enclosedFrom d (r.isChar '=') (p ++ code ')' :: q)).map _ = _ ↔ _
          constructor
          · intro h
            obtain ⟨x, hx, heq⟩ := Option.map_eq_some_iff.mp h
            obtain ⟨hfront, hafter⟩ := Prod.mk.inj heq
            rw [hx, ← (List.cons.inj hfront).2, ← hafter]
          · intro h
            rw [h]
            rfl

/-- What the count finds is what stands in front of a parenthesis, exactly if nothing is open there any
more. -/
theorem eq_iff_of_enclosed {inner after found rest : List Run}
    (h : enclosed (inner ++ code ')' :: after) = some (found, rest)) :
    found = inner ↔ openBehind 0 false inner = some 0 := by
  constructor
  · rintro rfl
    obtain ⟨x, -, hsplit⟩ := eq_of_enclosed h
    rw [← (List.cons.inj (List.append_cancel_left hsplit)).2] at h
    exact (enclosedFrom_append_iff found after).mp h
  · intro hopen
    have := (enclosedFrom_append_iff inner after).mpr hopen
    exact (Prod.mk.inj (Option.some.inj (h.symm.trans this))).1

theorem text_ne_nil_of_mem_runs {t : Text} {r : Run} (h : r ∈ runs t) : r.text ≠ [] := by
  fun_induction runs t with
  | case1 => exact absurd h List.not_mem_nil
  | case2 c t ih =>
      rcases List.mem_cons.mp h with rfl | h
      · exact Step.first_run_ne_nil c t
      · exact ih h

/-- Front parts of the runs of a text that are of one size are the same. -/
theorem eq_of_size_join {t : Text} {p q x y : List Run} (hp : runs t = p ++ x)
    (hq : runs t = q ++ y) (h : Text.size (join p) = Text.size (join q)) : p = q := by
  -- one is a front part of the other, and what it lacks has no bytes, while a run has some
  have hnil {s : List Run} (hs : ∀ r ∈ s, r ∈ runs t) (h : Text.size (join s) = 0) : s = [] := by
    cases s with
    | nil => rfl
    | cons r s =>
        have hpos := Text.size_pos (text_ne_nil_of_mem_runs (hs r List.mem_cons_self))
        rw [join_cons, Text.size_append] at h
        omega
  rcases List.append_eq_append_iff.mp (hp.symm.trans hq) with ⟨s, rfl, -⟩ | ⟨s, rfl, -⟩
  · rw [join_append, Text.size_append] at h
    have := hnil (s := s) (fun r hr => by rw [hq]; simp [hr]) (by omega)
    rw [this, List.append_nil]
  · rw [join_append, Text.size_append] at h
    have := hnil (s := s) (fun r hr => by rw [hp]; simp [hr]) (by omega)
    rw [this, List.append_nil]

end Run

/-- Where all four kinds nest, the count is the height of the stack. -/
theorem BracketStack.openBehind_of_walk {s t : BracketStack} {p : List Run}
    (h : s.walk p = some t) :
    Run.openBehind s.opened.length s.afterEquals p = some t.opened.length := by
  induction p generalizing s with
  | nil =>
      rw [← Option.some.inj h]
      rfl
  | cons r p ih =>
      obtain ⟨u, hmove, hrest⟩ := walk_cons h
      have hstep : (r.shift s.afterEquals).within s.opened.length = some u.opened.length ∧
          u.afterEquals = r.isChar '=' := by
        cases hmove with
        | opens hshift => exact ⟨by rw [hshift]; rfl, rfl⟩
        | stays hshift => exact ⟨by rw [hshift]; rfl, rfl⟩
        | closes hshift _ => exact ⟨by rw [hshift]; rfl, rfl⟩
      rw [Run.openBehind, hstep.1, Option.bind_some, ← hstep.2]
      exact ih hrest

namespace Bracket

theorem eq_code_of_closed? {r : Run} (h : closed? r = some round) : r = code ')' := by
  unfold closed? at h
  split at h
  · rfl
  · exact absurd h (by simp)
  · exact absurd h (by simp)
  · exact absurd h (by simp)

/-- A run closes the bracket above which the stack is looked at, or it does to the brackets above what
it does to them alone. -/
theorem step_above {b : Bracket} {inner outer o : List Bracket} {r : Run}
    (h : step (inner ++ b :: outer) r = some o) :
    (inner = [] ∧ closed? r = some b) ∨
      ∃ inner', step inner r = some inner' ∧ o = inner' ++ b :: outer := by
  revert h
  unfold step
  cases opened? r with
  | some a => exact fun h => .inr ⟨a :: inner, rfl, (Option.some.inj h).symm⟩
  | none =>
      cases closed? r with
      | none => exact fun h => .inr ⟨inner, rfl, (Option.some.inj h).symm⟩
      | some c =>
          cases inner with
          | nil =>
              intro h
              obtain ⟨rfl, -⟩ : b = c ∧ outer = o := by simpa using h
              exact .inl ⟨rfl, rfl⟩
          | cons a inner =>
              intro h
              obtain ⟨rfl, ho⟩ : a = c ∧ inner ++ b :: outer = o := by simpa using h
              exact .inr ⟨inner, if_pos rfl, ho.symm⟩

/-- An open bracket that is closed at the end is closed by one of its kind, and what stands before that
closes its own brackets. -/
theorem exists_closer_of_walk {b : Bracket} {inner outer left : List Bracket} {rs : List Run}
    (h : walk (inner ++ b :: outer) rs = some left) (hleft : left.length ≤ outer.length) :
    ∃ p c q, rs = p ++ c :: q ∧ walk inner p = some [] ∧ closed? c = some b := by
  -- `inner` is what is open above the bracket, until nothing is and a run closes the bracket itself
  induction rs generalizing inner with
  | nil =>
      have hlength := congrArg List.length (Option.some.inj h)
      simp only [List.length_append, List.length_cons] at hlength
      omega
  | cons r rs ih =>
      obtain ⟨o, hstep, hrest⟩ := Option.bind_eq_some_iff.mp h
      rcases step_above hstep with ⟨rfl, hcloses⟩ | ⟨inner', hinner, rfl⟩
      · exact ⟨[], r, rs, rfl, rfl, hcloses⟩
      · obtain ⟨p, c, q, rfl, hp, hc⟩ := ih hrest
        refine ⟨r :: p, c, q, rfl, ?_, hc⟩
        rw [walk, hinner]
        exact hp

/-- In nested runs, an open parenthesis has a partner, and the runs between the two are nested. -/
theorem Nested.exists_partner {front rest : List Run} (h : Nested (front ++ code '(' :: rest)) :
    ∃ inner after, rest = inner ++ code ')' :: after ∧ Nested inner := by
  rw [Nested, walk_append] at h
  obtain ⟨o, -, hopened⟩ := Option.bind_eq_some_iff.mp h
  have hrest : walk ([] ++ round :: o) rest = some [] := hopened
  obtain ⟨inner, c, after, rfl, hinner, hc⟩ := exists_closer_of_walk hrest (Nat.zero_le _)
  rw [eq_code_of_closed? hc]
  exact ⟨inner, after, rfl, hinner⟩

end Bracket

end ScriptSurvey
