import ScriptSurvey.Lexical.Nesting

/-!
# Even runs

The walks over nested runs share one count, and ask no bracket for its kind. Runs are **even** if the
count comes out of them as it went in and is never short of a bracket within. Such runs are passed over
in brackets: the search for a closing bracket goes on behind them, and a cut at a word finds nothing in
them.

Even runs need not have partners for their brackets, since a `<` may go with a `)`. And they may end in
`=`, so that a `>` behind them is no bracket, although one was open.
-/

namespace ScriptSurvey

namespace Nesting

open Run

theorem cutAtFirst_cons_of_none {word : Text} {n : Nesting} {r : Run} {rs : List Run}
    (h : dropCode? word (r :: rs) = none ∨ n.depth ≠ 0) :
    n.cutAtFirst word (r :: rs) =
      ((n.behind r).cutAtFirst word rs).map fun p => (r :: p.1, p.2) := by
  have hnone : (if n.depth = 0 then dropCode? word (r :: rs) else none) = none := by
    rcases h with h | h
    · rw [h, ite_self]
    · rw [if_neg h]
  rw [cutAtFirst, hnone]

theorem cutAtFirst_cons_of_some {word : Text} {r : Run} {rs after : List Run} {e : Bool}
    (h : dropCode? word (r :: rs) = some after) :
    (Nesting.mk 0 e).cutAtFirst word (r :: rs) = some ([], after) := by
  rw [cutAtFirst, if_pos rfl, h]

theorem dropCode?_of_some {word : Text} {rs after : List Run} (h : dropCode? word rs = some after)
    (q : List Run) : dropCode? word (rs ++ q) = some (after ++ q) := by
  fun_induction dropCode? word rs with
  | case1 rs => rw [dropCode?, Option.some.inj h]
  | case2 c word rs ih => rw [List.cons_append, dropCode?, if_pos rfl, ih h]
  | case3 => exact absurd h (by simp)
  | case4 => exact absurd h (by simp)

theorem dropCode?_singleton_iff {w : Char} {r : Run} {rs : List Run} :
    dropCode? [w] (r :: rs) = none ↔ r ≠ code w := by
  cases r with
  | code d => simp [dropCode?, eq_comm]
  | comment _ _ => simp [dropCode?]
  | literal _ _ => simp [dropCode?]

/-- There is no cut exactly if the first run makes none and there is none behind it. -/
theorem cutAtFirst_cons_eq_none_iff {word : Text} {n : Nesting} {r : Run} {rs : List Run} :
    n.cutAtFirst word (r :: rs) = none ↔
      (dropCode? word (r :: rs) = none ∨ n.depth ≠ 0) ∧ (n.behind r).cutAtFirst word rs = none := by
  by_cases hcut : dropCode? word (r :: rs) = none ∨ n.depth ≠ 0
  · rw [cutAtFirst_cons_of_none hcut, Option.map_eq_none_iff]
    exact (and_iff_right hcut).symm
  · obtain ⟨hd, hn⟩ := not_or.mp hcut
    obtain ⟨after, ha⟩ := Option.ne_none_iff_exists'.mp hd
    have hz : n = ⟨0, n.afterEquals⟩ := congrArg (Nesting.mk · _) (Decidable.not_not.mp hn)
    rw [hz, cutAtFirst_cons_of_some ha, ← hz]
    exact iff_of_false (by simp) fun h => hcut h.1

/-- Runs with no cut in them have none in front of other runs. -/
theorem cutAtFirst_of_append {word : Text} {n : Nesting} {p q : List Run}
    (h : n.cutAtFirst word (p ++ q) = none) : n.cutAtFirst word p = none := by
  induction p generalizing n with
  | nil => rfl
  | cons r p ih =>
      rw [List.cons_append, cutAtFirst_cons_eq_none_iff] at h
      refine cutAtFirst_cons_eq_none_iff.mpr ⟨h.1.imp_left fun hd => ?_, ih h.2⟩
      cases hp : dropCode? word (r :: p) with
      | none => rfl
      | some after =>
          have := dropCode?_of_some hp q
          rw [List.cons_append, hd] at this
          exact absurd this (by simp)

/-- The nesting behind some runs. -/
def after (n : Nesting) (rs : List Run) : Nesting :=
  rs.foldl behind n

theorem after_cons (n : Nesting) (r : Run) (rs : List Run) :
    n.after (r :: rs) = (n.behind r).after rs := rfl

theorem after_append (n : Nesting) (p q : List Run) :
    n.after (p ++ q) = (n.after p).after q :=
  List.foldl_append

/-- Whether a walk stands behind `=` does not depend on how deep it is. -/
theorem afterEquals_after (d k : Nat) (e : Bool) (p : List Run) :
    ((Nesting.mk d e).after p).afterEquals = ((Nesting.mk k e).after p).afterEquals := by
  rcases List.eq_nil_or_concat p with rfl | ⟨p, r, rfl⟩
  · rfl
  · rw [List.concat_eq_append, after_append, after_append]
    rfl

end Nesting

namespace Run

open Nesting

/-- The number of brackets of all four kinds that are open behind some runs, with `depth` of them open
in front; `none` once there is none for a closing bracket. -/
def openBehind (depth : Nat) (afterEquals : Bool) : List Run → Option Nat
  | [] => some depth
  | r :: rs => ((r.shift afterEquals).within depth).bind fun d => openBehind d (r.isChar '=') rs

variable {d d' : Nat} {e : Bool} {p : List Run}

theorem openBehind_cons {r : Run} (h : openBehind d e (r :: p) = some d') :
    ∃ m, (r.shift e).within d = some m ∧ openBehind m (r.isChar '=') p = some d' :=
  Option.bind_eq_some_iff.mp h

/-- A run leads where it does with more brackets open around. -/
theorem within_add {s : Shift} (h : s.within d = some d') (k : Nat) :
    s.within (d + k) = some (d' + k) := by
  cases s with
  | opens =>
      obtain rfl : d + 1 = d' := Option.some.inj h
      exact congrArg some (Nat.add_right_comm d k 1)
  | closes =>
      rw [Shift.within] at h
      split at h
      · exact absurd h (by simp)
      · obtain rfl : d - 1 = d' := Option.some.inj h
        rw [Shift.within, if_neg (by omega)]
        exact congrArg some (by omega)
  | stays =>
      obtain rfl : d = d' := Option.some.inj h
      rfl

theorem openBehind_add (h : openBehind d e p = some d') (k : Nat) :
    openBehind (d + k) e p = some (d' + k) := by
  induction p generalizing d e with
  | nil =>
      rw [← Option.some.inj h]
      rfl
  | cons r p ih =>
      obtain ⟨m, hstep, hrest⟩ := openBehind_cons h
      rw [openBehind, within_add hstep k]
      exact ih hrest

/-- A walk that is not short of a bracket is as deep as brackets are open. -/
theorem behind_of_within {r : Run} (h : (r.shift e).within d = some d') :
    (Nesting.mk d e).behind r = ⟨d', r.isChar '='⟩ := by
  rw [behind]
  cases hs : r.shift e with
  | opens =>
      rw [hs] at h
      rw [← Option.some.inj h]
  | closes =>
      rw [hs, Shift.within] at h
      split at h
      · exact absurd h (by simp)
      · rw [← Option.some.inj h]
  | stays =>
      rw [hs] at h
      rw [← Option.some.inj h]

theorem depth_after_of_openBehind (h : openBehind d e p = some d') :
    ((Nesting.mk d e).after p).depth = d' := by
  induction p generalizing d e with
  | nil => exact Option.some.inj h
  | cons r p ih =>
      obtain ⟨m, hstep, hrest⟩ := openBehind_cons h
      rw [after_cons, behind_of_within hstep]
      exact ih hrest

theorem openBehind_append (h : openBehind d e p = some d') (q : List Run) :
    openBehind d e (p ++ q) = openBehind d' ((Nesting.mk d e).after p).afterEquals q := by
  induction p generalizing d e with
  | nil =>
      obtain rfl : d = d' := Option.some.inj h
      rfl
  | cons r p ih =>
      obtain ⟨m, hstep, hrest⟩ := openBehind_cons h
      rw [List.cons_append, openBehind, hstep, after_cons, behind_of_within hstep]
      exact ih hrest

theorem exists_openBehind_of_append {q : List Run} (h : openBehind d e (p ++ q) = some d') :
    ∃ m, openBehind d e p = some m := by
  induction p generalizing d e with
  | nil => exact ⟨d, rfl⟩
  | cons r p ih =>
      obtain ⟨m, hstep, hrest⟩ := openBehind_cons h
      obtain ⟨n, hn⟩ := ih hrest
      exact ⟨n, by rw [openBehind, hstep]; exact hn⟩

/-- The search for a closing bracket goes on behind runs that do not have it. -/
theorem enclosedFrom_append (h : openBehind d e p = some d') (q : List Run) :
    enclosedFrom d e (p ++ q) =
      (enclosedFrom d' ((Nesting.mk d e).after p).afterEquals q).map fun x => (p ++ x.1, x.2) := by
  induction p generalizing d e with
  | nil =>
      obtain rfl : d = d' := Option.some.inj h
      simp [after]
  | cons r p ih =>
      obtain ⟨m, hstep, hrest⟩ := openBehind_cons h
      rw [List.cons_append, enclosedFrom, hstep, after_cons, behind_of_within hstep]
      dsimp only
      rw [ih hrest, Option.map_map]
      rfl

/-- In brackets, a cut at a word finds nothing in runs that do not close them. -/
theorem cutAtFirst_append_of_openBehind (h : openBehind d e p = some d') (word : Text)
    (q : List Run) :
    (Nesting.mk (d + 1) e).cutAtFirst word (p ++ q) =
      (((Nesting.mk (d + 1) e).after p).cutAtFirst word q).map fun x => (p ++ x.1, x.2) := by
  induction p generalizing d e with
  | nil => simp [after]
  | cons r p ih =>
      obtain ⟨m, hstep, hrest⟩ := openBehind_cons h
      have hbehind := behind_of_within (within_add hstep 1)
      rw [List.cons_append, cutAtFirst_cons_of_none (.inr (Nat.succ_ne_zero d)), hbehind, ih hrest,
        after_cons, hbehind, Option.map_map]
      rfl

/-! ## Runs that the count comes out of as it went in -/

/-- Runs that close as many brackets as they open, and none that they have not opened. -/
def IsEven (p : List Run) : Prop :=
  openBehind 0 false p = some 0

instance (p : List Run) : Decidable (IsEven p) :=
  inferInstanceAs (Decidable (_ = _))

/-- Whether a walk from the start of the runs ends behind `=`. -/
def endsInEquals (p : List Run) : Bool :=
  (outermost.after p).afterEquals

theorem IsEven.openBehind (h : IsEven p) (d : Nat) : openBehind d false p = some d := by
  have := openBehind_add h d
  rwa [Nat.zero_add] at this

theorem IsEven.after (h : IsEven p) (d : Nat) :
    (Nesting.mk d false).after p = ⟨d, endsInEquals p⟩ := by
  have hdepth := depth_after_of_openBehind (h.openBehind d)
  have hequals := afterEquals_after d 0 false p
  cases hn : (Nesting.mk d false).after p with
  | mk k e =>
      rw [hn] at hdepth hequals
      exact congr (congrArg Nesting.mk hdepth) hequals

theorem IsEven.openBehind_append (h : IsEven p) (d : Nat) (q : List Run) :
    Run.openBehind d false (p ++ q) = Run.openBehind d (endsInEquals p) q := by
  rw [Run.openBehind_append (h.openBehind d), h.after]

theorem IsEven.enclosedFrom_append (h : IsEven p) (d : Nat) (q : List Run) :
    enclosedFrom d false (p ++ q) =
      (enclosedFrom d (endsInEquals p) q).map fun x => (p ++ x.1, x.2) := by
  rw [Run.enclosedFrom_append (h.openBehind d), h.after]

theorem IsEven.cutAtFirst_append (h : IsEven p) (d : Nat) (word : Text) (q : List Run) :
    (Nesting.mk (d + 1) false).cutAtFirst word (p ++ q) =
      ((Nesting.mk (d + 1) (endsInEquals p)).cutAtFirst word q).map fun x => (p ++ x.1, x.2) := by
  rw [cutAtFirst_append_of_openBehind (h.openBehind d), h.after]

/-- Even runs that a closing bracket may stand behind: not a `>` if they end in `=`. -/
structure ClosedBy (c : Char) (p : List Run) : Prop where
  even : IsEven p
  closes : (code c).shift (endsInEquals p) = .closes

theorem closes_of_mem {c : Char} (h : c ∈ [')', ']', '\x7d']) (e : Bool) :
    (code c).shift e = .closes := by
  simp only [List.mem_cons, List.not_mem_nil, or_false] at h
  rcases h with rfl | rfl | rfl <;> rfl

/-- A closing bracket other than `>` closes behind all even runs. -/
theorem IsEven.closedBy (h : IsEven p) {c : Char} (hc : c ∈ [')', ']', '\x7d']) : ClosedBy c p :=
  ⟨h, closes_of_mem hc _⟩

namespace ClosedBy

variable {c : Char}

theorem behind (h : ClosedBy c p) (d : Nat) :
    (Nesting.mk (d + 1) (endsInEquals p)).behind (code c) = ⟨d, false⟩ := by
  have hequals : (code c).isChar '=' = false := by
    rw [isChar, beq_eq_false_iff_ne]
    rintro hc
    have := h.closes
    rw [hc] at this
    exact absurd this (by simp [shift])
  rw [Nesting.behind, h.closes, hequals]
  rfl

/-- Behind an opening bracket: even runs, then the bracket that closes it. -/
theorem enclosed (h : ClosedBy c p) (after : List Run) :
    enclosed (p ++ code c :: after) = some (p, after) := by
  rw [Run.enclosed, h.even.enclosedFrom_append, enclosedFrom, h.closes]
  simp [Shift.within]

theorem wrapped (h : ClosedBy c p) (o : Char) :
    wrapped o (code o :: (p ++ [code c])) = some p := by
  simp [Run.wrapped, isChar, h.enclosed]

/-- A bracket that closes before the end does not wrap the whole. -/
theorem wrapped_eq_none (h : ClosedBy c p) {after : List Run} (ha : after ≠ []) (o b : Char) :
    Run.wrapped b (code o :: (p ++ code c :: after)) = none := by
  cases after with
  | nil => exact absurd rfl ha
  | cons r after =>
      rw [Run.wrapped, h.enclosed]
      split <;> rfl

theorem cutAtFirst (h : ClosedBy c p) (d : Nat) (word : Text) (q : List Run) :
    (Nesting.mk (d + 1) false).cutAtFirst word (p ++ code c :: q) =
      ((Nesting.mk d false).cutAtFirst word q).map fun x => (p ++ code c :: x.1, x.2) := by
  rw [h.even.cutAtFirst_append, cutAtFirst_cons_of_none (.inr (Nat.succ_ne_zero d)), h.behind,
    Option.map_map]
  rfl

end ClosedBy

/-! ## Runs that close nothing -/

theorem enclosedFrom_of_openBehind (h : openBehind d e p = some d') : enclosedFrom d e p = none := by
  have := enclosedFrom_append h []
  rwa [List.append_nil] at this

theorem cutAtFirst_of_openBehind (h : openBehind d e p = some d') (word : Text) :
    (Nesting.mk (d + 1) e).cutAtFirst word p = none := by
  have := cutAtFirst_append_of_openBehind h word []
  rwa [List.append_nil] at this

end Run

end ScriptSurvey
