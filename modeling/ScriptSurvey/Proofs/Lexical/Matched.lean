import ScriptSurvey.Proofs.Lexical.Brackets

/-!
# Brackets of all four kinds

The walks over nested runs count `<` and `>` with the other brackets, and ask no bracket for its
kind. Where all four kinds nest by kind that is enough, since the count is then the height of the
stack of open brackets:

* the closing bracket that the count finds is of the kind of the opening one;
* what stands between the two opens and closes its own brackets, and so does each of the pieces
  between its commas.

Runs are **matched** if the stack never meets a closing bracket that is not for its top. Brackets
may stay open behind them, or be open before, so each part of matched runs is matched.
-/

namespace ScriptSurvey

open Run

/-- Where a walk over runs is: which brackets are open, the innermost first, and whether directly
behind `=`. -/
structure BracketStack where
  opened : List Run
  afterEquals : Bool
deriving DecidableEq, Repr

namespace BracketStack

/-- Nothing is open at the start of a text. -/
def empty : BracketStack := ⟨[], false⟩

/-- Whether the runs are an opening bracket and the closing one of its kind. -/
def isPair (o c : Run) : Bool :=
  bracketPairs.any fun p => o == code p.1 && c == code p.2

theorem exists_of_isPair {o c : Run} (h : isPair o c = true) :
    ∃ p ∈ bracketPairs, o = code p.1 ∧ c = code p.2 := by
  obtain ⟨p, hp, hoc⟩ := List.any_eq_true.mp h
  rw [Bool.and_eq_true, beq_iff_eq, beq_iff_eq] at hoc
  exact ⟨p, hp, hoc⟩

/-- The stack behind a run; `none` when the run closes a bracket that is not on top. -/
def behind? (s : BracketStack) (r : Run) : Option BracketStack :=
  match r.shift s.afterEquals, s.opened with
  | .opens, rest => some ⟨r :: rest, r.isChar '='⟩
  | .stays, rest => some ⟨rest, r.isChar '='⟩
  | .closes, [] => none
  | .closes, o :: rest => if isPair o r then some ⟨rest, r.isChar '='⟩ else none

/-- The stack behind some runs. -/
def walk (s : BracketStack) : List Run → Option BracketStack
  | [] => some s
  | r :: rs => (s.behind? r).bind fun s => s.walk rs

theorem walk_append (s : BracketStack) (p q : List Run) :
    s.walk (p ++ q) = (s.walk p).bind fun s => s.walk q := by
  induction p generalizing s with
  | nil => rfl
  | cons r p ih =>
      rw [List.cons_append, walk, walk, Option.bind_assoc]
      exact congrArg _ (funext ih)

/-- What a run can do to the stack. -/
inductive Move (r : Run) : BracketStack → BracketStack → Prop where
  | opens {open_ : List Run} {e : Bool} : r.shift e = .opens →
      Move r ⟨open_, e⟩ ⟨r :: open_, r.isChar '='⟩
  | stays {open_ : List Run} {e : Bool} : r.shift e = .stays →
      Move r ⟨open_, e⟩ ⟨open_, r.isChar '='⟩
  | closes {o : Run} {open_ : List Run} {e : Bool} : r.shift e = .closes → isPair o r = true →
      Move r ⟨o :: open_, e⟩ ⟨open_, r.isChar '='⟩

theorem move_of_behind? {s s' : BracketStack} {r : Run} (h : s.behind? r = some s') :
    Move r s s' := by
  obtain ⟨open_, e⟩ := s
  unfold behind? at h
  split at h
  · next hshift =>
      rw [← Option.some.inj h]
      exact .opens hshift
  · next hshift =>
      rw [← Option.some.inj h]
      exact .stays hshift
  · exact absurd h (by simp)
  · next o rest hshift hrest =>
      split at h
      · next hpair =>
          rw [← Option.some.inj h, show open_ = o :: rest from hrest]
          exact .closes hshift hpair
      · exact absurd h (by simp)

/-- A walk over some runs goes over the first, and then over the others. -/
theorem walk_cons {s s' : BracketStack} {r : Run} {rs : List Run} (h : s.walk (r :: rs) = some s') :
    ∃ t, Move r s t ∧ t.walk rs = some s' := by
  obtain ⟨t, ht, hrest⟩ := Option.bind_eq_some_iff.mp h
  exact ⟨t, move_of_behind? ht, hrest⟩

theorem behind?_of_move {s s' : BracketStack} {r : Run} (h : Move r s s') :
    s.behind? r = some s' := by
  cases h with
  | opens hshift => simp only [behind?, hshift]
  | stays hshift => simp only [behind?, hshift]
  | closes hshift hpair => simp only [behind?, hshift, hpair, if_true]

theorem Move.walk_cons {s t s' : BracketStack} {r : Run} {rs : List Run} (h : Move r s t)
    (hrest : t.walk rs = some s') : s.walk (r :: rs) = some s' := by
  rw [walk, behind?_of_move h]
  exact hrest

/-! ## The count is the height of the stack -/

/-- A run closes the bracket above which the stack is looked at, or it does to the count what it
does to the height above that bracket. -/
theorem Move.within {inner base : List Run} {o r : Run} {e : Bool} {t : BracketStack}
    (h : Move r ⟨inner ++ o :: base, e⟩ t) :
    (inner = [] ∧ isPair o r = true ∧ (r.shift e).within inner.length = none) ∨
      ∃ inner', t = ⟨inner' ++ o :: base, r.isChar '='⟩ ∧ Move r ⟨inner, e⟩ ⟨inner', r.isChar '='⟩ ∧
        (r.shift e).within inner.length = some inner'.length := by
  generalize hs : (⟨inner ++ o :: base, e⟩ : BracketStack) = s at h
  cases h with
  | opens hshift =>
      obtain ⟨rfl, rfl⟩ := BracketStack.mk.inj hs
      exact .inr ⟨r :: inner, rfl, .opens hshift, by rw [hshift]; rfl⟩
  | stays hshift =>
      obtain ⟨rfl, rfl⟩ := BracketStack.mk.inj hs
      exact .inr ⟨inner, rfl, .stays hshift, by rw [hshift]; rfl⟩
  | closes hshift hpair =>
      obtain ⟨hopen, rfl⟩ := BracketStack.mk.inj hs
      cases inner with
      | nil =>
          rw [List.nil_append, List.cons.injEq] at hopen
          rw [← hopen.1] at hpair
          exact .inl ⟨rfl, hpair, by rw [hshift]; rfl⟩
      | cons i inner =>
          obtain ⟨rfl, rfl⟩ := List.cons.inj hopen
          exact .inr ⟨inner, rfl, .closes hshift hpair, by rw [hshift]; rfl⟩

/-- The bracket that the count finds is for the one on the stack, and the stack has come down to
it. -/
theorem exists_pair_of_enclosedFrom {rs a b inner base : List Run} {o : Run} {e : Bool}
    {s' : BracketStack} (h : walk ⟨inner ++ o :: base, e⟩ rs = some s')
    (he : enclosedFrom inner.length e rs = some (a, b)) :
    ∃ c, rs = a ++ c :: b ∧ isPair o c = true ∧ ∃ e', walk ⟨inner, e⟩ a = some ⟨[], e'⟩ := by
  induction rs generalizing inner e a with
  | nil => exact absurd he (by simp [enclosedFrom])
  | cons r rs ih =>
      obtain ⟨t, hmove, hrest⟩ := walk_cons h
      rw [enclosedFrom] at he
      rcases hmove.within with ⟨rfl, hpair, hwithin⟩ | ⟨inner', rfl, hinner, hwithin⟩
      · rw [hwithin] at he
        obtain ⟨rfl, rfl⟩ := Prod.mk.inj (Option.some.inj he)
        exact ⟨r, rfl, hpair, e, rfl⟩
      · rw [hwithin] at he
        obtain ⟨⟨x, y⟩, hcut, hp⟩ := Option.map_eq_some_iff.mp he
        obtain ⟨rfl, rfl⟩ := Prod.mk.inj hp
        obtain ⟨c, hc, hpair, e', hw⟩ := ih hrest hcut
        exact ⟨c, by rw [hc, List.cons_append], hpair, e', hinner.walk_cons hw⟩

theorem exists_pair_of_enclosed {rs a b base : List Run} {o : Run} {s' : BracketStack}
    (h : walk ⟨o :: base, false⟩ rs = some s') (he : enclosed rs = some (a, b)) :
    ∃ c, rs = a ++ c :: b ∧ isPair o c = true ∧ ∃ e, walk empty a = some ⟨[], e⟩ :=
  @exists_pair_of_enclosedFrom rs a b [] base o false s' h he

theorem Move.eq_of_comma {s t : BracketStack} (h : Move (code ',') s t) :
    t = ⟨s.opened, false⟩ := by
  cases h with
  | opens hshift => exact absurd hshift (by simp [shift])
  | stays _ => rfl
  | closes hshift _ => exact absurd hshift (by simp [shift])

/-- Where everything is closed again, each piece between commas closes its own brackets. -/
theorem closes_of_mem_pieces {rs : List Run} {s : BracketStack} {e : Bool}
    (h : s.walk rs = some ⟨[], e⟩) {p : List Run} {ps : List (List Run)}
    (hp : (⟨s.opened.length, s.afterEquals⟩ : Nesting).pieces rs = p :: ps) :
    (∃ e', s.walk p = some ⟨[], e'⟩) ∧ ∀ q ∈ ps, ∃ e', empty.walk q = some ⟨[], e'⟩ := by
  induction rs generalizing s p ps with
  | nil =>
      obtain ⟨rfl, rfl⟩ := List.cons.inj hp
      exact ⟨⟨e, h⟩, fun q hq => absurd hq List.not_mem_nil⟩
  | cons r rs ih =>
      -- the nesting is the height of the stack, so a comma at depth zero meets an empty stack
      obtain ⟨t, hmove, hrest⟩ := walk_cons h
      have hbehind : (⟨s.opened.length, s.afterEquals⟩ : Nesting).behind r =
          ⟨t.opened.length, t.afterEquals⟩ := by
        cases hmove with
        | opens hshift => simp [Nesting.behind, hshift]
        | stays hshift => simp [Nesting.behind, hshift]
        | closes hshift _ => simp [Nesting.behind, hshift]
      obtain ⟨q, qs, hq⟩ := List.exists_cons_of_ne_nil
        (Nesting.pieces_ne_nil ⟨t.opened.length, t.afterEquals⟩ rs)
      obtain ⟨⟨e', hfirst⟩, hothers⟩ := ih hrest hq
      rw [Nesting.pieces, hbehind, hq] at hp
      split at hp
      · next hcomma =>
          obtain ⟨rfl, rfl⟩ := List.cons.inj hp
          have hnil : s.opened = [] := List.length_eq_zero_iff.mp hcomma.1
          have hr : r = code ',' := by simpa [isChar] using hcomma.2
          rw [hr] at hmove
          obtain rfl : t = empty := by rw [hmove.eq_of_comma, hnil, empty]
          refine ⟨⟨s.afterEquals, ?_⟩, fun x hx => ?_⟩
          · rw [walk, ← hnil]
          · rcases List.mem_cons.mp hx with rfl | hx
            · exact ⟨e', hfirst⟩
            · exact hothers x hx
      · obtain ⟨rfl, rfl⟩ := List.cons.inj hp
        exact ⟨⟨e', hmove.walk_cons hfirst⟩, hothers⟩

/-! ## Three of the four kinds -/

/-- The brackets on the stack that are of the three kinds. -/
def kinds (s : BracketStack) : List Bracket :=
  s.opened.filterMap Bracket.opened?

theorem step_of_move {s t : BracketStack} {r : Run} (h : Move r s t) :
    Bracket.step s.kinds r = some t.kinds := by
  cases h with
  | opens hshift =>
      unfold shift at hshift
      split at hshift <;> first | rfl | exact absurd hshift (by simp)
  | @stays _ e hshift =>
      have hchars : ∀ c ∈ Bracket.chars, ∀ e, (code c).shift e ≠ .stays := by decide
      refine Bracket.step_of_not_mem (fun c hc hr => hchars c hc e ?_) _
      rw [← hr]
      exact hshift
  | closes _ hpair =>
      obtain ⟨p, hp, rfl, rfl⟩ := exists_of_isPair hpair
      simp only [bracketPairs, List.mem_cons, List.not_mem_nil, or_false] at hp
      rcases hp with rfl | rfl | rfl | rfl <;> rfl

theorem walk_kinds {s t : BracketStack} {rs : List Run} (h : s.walk rs = some t) :
    Bracket.walk s.kinds rs = some t.kinds := by
  induction rs generalizing s with
  | nil =>
      rw [← Option.some.inj h]
      rfl
  | cons r rs ih =>
      obtain ⟨u, hmove, hrest⟩ := walk_cons h
      rw [Bracket.walk, step_of_move hmove]
      exact ih hrest

end BracketStack

open BracketStack

/-! ## Matched runs -/

/-- Whether no closing bracket in the runs, wherever they stand, is for another bracket than the
innermost open one. -/
def IsMatched (rs : List Run) : Prop :=
  ∃ s s' : BracketStack, s.walk rs = some s'

theorem IsMatched.of_isInfix {p rs : List Run} (h : IsMatched rs) (hp : p <:+: rs) :
    IsMatched p := by
  obtain ⟨a, b, rfl⟩ := hp
  obtain ⟨s, s', hw⟩ := h
  rw [walk_append, walk_append] at hw
  obtain ⟨u, hu, _⟩ := Option.bind_eq_some_iff.mp hw
  obtain ⟨t, _, hpart⟩ := Option.bind_eq_some_iff.mp hu
  exact ⟨t, u, hpart⟩

/-- In matched runs, the count finds for each opening bracket the closing one of its kind, and the
brackets between the two nest. -/
theorem IsMatched.exists_closer {o : Char} {rest a b : List Run} (h : IsMatched (code o :: rest))
    (ho : isOpeningBracket o = true) (he : enclosed rest = some (a, b)) :
    ∃ c, (o, c) ∈ bracketPairs ∧ rest = a ++ code c :: b ∧
      ∃ e, BracketStack.empty.walk a = some ⟨[], e⟩ := by
  obtain ⟨s, s', hw⟩ := h
  obtain ⟨t, hmove, hrest⟩ := walk_cons hw
  cases hmove with
  | opens _ =>
      rw [isChar_of_isOpeningBracket ho] at hrest
      obtain ⟨c, hc, hpair, hinner⟩ := exists_pair_of_enclosed hrest he
      obtain ⟨p, hp, ho, rfl⟩ := exists_of_isPair hpair
      obtain rfl : o = p.1 := by simpa using ho
      exact ⟨p.2, hp, hc, hinner⟩
  | stays hshift =>
      exact absurd ((shift_of_isOpeningBracket ho _).symm.trans hshift) (by simp)
  | closes hshift _ =>
      exact absurd ((shift_of_isOpeningBracket ho _).symm.trans hshift) (by simp)

/-- Where all four kinds nest, the three kinds nest in each piece between commas. -/
theorem nested_of_mem_splitAtCommas {rs p : List Run} {e : Bool}
    (h : BracketStack.empty.walk rs = some ⟨[], e⟩) (hp : p ∈ Run.splitAtCommas rs) :
    Bracket.Nested p := by
  rw [Run.splitAtCommas, List.mem_filter, List.mem_map] at hp
  obtain ⟨⟨q, hq, rfl⟩, _⟩ := hp
  refine (Bracket.same_trim q).nested ?_
  obtain ⟨x, xs, hx⟩ := List.exists_cons_of_ne_nil (Nesting.pieces_ne_nil Nesting.outermost rs)
  obtain ⟨hfirst, hothers⟩ := closes_of_mem_pieces h hx
  rw [hx] at hq
  have hclosed : ∃ e', BracketStack.empty.walk q = some ⟨[], e'⟩ := by
    rcases List.mem_cons.mp hq with rfl | hq
    · exact hfirst
    · exact hothers q hq
  obtain ⟨e', hw⟩ := hclosed
  exact walk_kinds hw

end ScriptSurvey
