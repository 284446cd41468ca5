import ScriptSurvey.Proofs.Lexical.Even
import ScriptSurvey.Proofs.Text.Identifier

/-!
# Level runs

The walks over nested runs share one count for all kinds of brackets. On runs in which every
bracket has its partner the count is as good as a stack: a walk comes out of them at the depth it
went in with, and never sees what they hold. Such runs are called **level**:

* runs that neither nest nor end in `=` are level;
* an arrow `=>` is level, since its `>` is no bracket;
* level runs between two brackets of one kind are level.

From this one fact all walks follow: the search for a closing bracket passes over level runs, a
cut at a word goes on behind them, and a split at commas is a cut at the first comma, repeated.
-/

namespace ScriptSurvey

/-- The brackets that lead one level in, each with the one that leads out again. -/
def bracketPairs : List (Char × Char) :=
  [('(', ')'), ('[', ']'), ('\x7b', '\x7d'), ('<', '>')]

theorem pair_round : ('(', ')') ∈ bracketPairs := by simp [bracketPairs]

theorem pair_square : ('[', ']') ∈ bracketPairs := by simp [bracketPairs]

theorem pair_curly : ('\x7b', '\x7d') ∈ bracketPairs := by simp [bracketPairs]

theorem pair_angle : ('<', '>') ∈ bracketPairs := by simp [bracketPairs]

namespace Run

/-- Whether the run nests nothing and is no `=`, so that the walk goes on as if it were not there.
-/
def isFlat (r : Run) : Bool :=
  r.shift false == .stays && !r.isChar '='

theorem shift_of_isFlat {r : Run} (h : r.isFlat = true) (e : Bool) : r.shift e = .stays := by
  cases e with
  | false =>
      simp only [isFlat, Bool.and_eq_true, beq_iff_eq] at h
      exact h.1
  | true =>
      by_cases hr : r = code '>'
      · rw [hr] at h
        exact absurd h (by decide)
      · simp only [isFlat, Bool.and_eq_true, beq_iff_eq] at h
        rw [← h.1]
        unfold shift
        split <;> first | rfl | exact absurd rfl hr

theorem isChar_of_isFlat {r : Run} (h : r.isFlat = true) : r.isChar '=' = false := by
  simp only [isFlat, Bool.and_eq_true, Bool.not_eq_true'] at h
  exact h.2

theorem shift_open {o c : Char} (h : (o, c) ∈ bracketPairs) (e : Bool) :
    (code o).shift e = .opens := by
  simp only [bracketPairs, List.mem_cons, Prod.mk.injEq, List.not_mem_nil, or_false] at h
  rcases h with ⟨rfl, rfl⟩ | ⟨rfl, rfl⟩ | ⟨rfl, rfl⟩ | ⟨rfl, rfl⟩ <;> rfl

theorem shift_close {o c : Char} (h : (o, c) ∈ bracketPairs) : (code c).shift false = .closes := by
  simp only [bracketPairs, List.mem_cons, Prod.mk.injEq, List.not_mem_nil, or_false] at h
  rcases h with ⟨rfl, rfl⟩ | ⟨rfl, rfl⟩ | ⟨rfl, rfl⟩ | ⟨rfl, rfl⟩ <;> rfl

theorem isChar_bracket {o c : Char} (h : (o, c) ∈ bracketPairs) :
    (code o).isChar '=' = false ∧ (code c).isChar '=' = false := by
  simp only [bracketPairs, List.mem_cons, Prod.mk.injEq, List.not_mem_nil, or_false] at h
  rcases h with ⟨rfl, rfl⟩ | ⟨rfl, rfl⟩ | ⟨rfl, rfl⟩ | ⟨rfl, rfl⟩ <;> decide

/-- Runs in which every bracket has its partner. -/
inductive Level : List Run → Prop where
  | nil : Level []
  | flat {r : Run} {rs : List Run} : r.isFlat = true → Level rs → Level (r :: rs)
  | arrow {rs : List Run} : Level rs → Level (code '=' :: code '>' :: rs)
  | group {o c : Char} {inner rs : List Run} :
      (o, c) ∈ bracketPairs → Level inner → Level rs → Level (code o :: (inner ++ code c :: rs))

theorem Level.append {p q : List Run} (hp : Level p) (hq : Level q) : Level (p ++ q) := by
  induction hp with
  | nil => exact hq
  | flat hr _ ih => exact .flat hr ih
  | arrow _ ih => exact .arrow ih
  | group ho hi _ _ ih =>
      rw [List.cons_append, List.append_assoc, List.cons_append]
      exact .group ho hi ih

theorem Level.of_isFlat {p : List Run} (h : ∀ r ∈ p, r.isFlat = true) : Level p := by
  induction p with
  | nil => exact .nil
  | cons r p ih =>
      exact .flat (h r List.mem_cons_self) (ih fun s hs => h s (List.mem_cons_of_mem r hs))

/-- Level runs in brackets. -/
theorem Level.bracketed {o c : Char} {inner : List Run} (h : (o, c) ∈ bracketPairs)
    (hi : Level inner) : Level (code o :: (inner ++ [code c])) :=
  .group h hi .nil

/-! ## Walks over level runs -/

end Run

namespace Nesting

open Run

theorem behind_of_isFlat {r : Run} (h : r.isFlat = true) (n : Nesting) :
    n.behind r = ⟨n.depth, false⟩ := by
  simp [behind, shift_of_isFlat h, isChar_of_isFlat h]

theorem behind_open {o c : Char} (h : (o, c) ∈ bracketPairs) (n : Nesting) :
    n.behind (code o) = ⟨n.depth + 1, false⟩ := by
  simp [behind, shift_open h, (isChar_bracket h).1]

theorem behind_close {o c : Char} (h : (o, c) ∈ bracketPairs) (d : Nat) :
    (Nesting.mk (d + 1) false).behind (code c) = ⟨d, false⟩ := by
  simp [behind, shift_close h, (isChar_bracket h).2]

theorem behind_equals (d : Nat) : (Nesting.mk d false).behind (code '=') = ⟨d, true⟩ := rfl

theorem behind_arrow (d : Nat) : (Nesting.mk d true).behind (code '>') = ⟨d, false⟩ := rfl

theorem after_level {p : List Run} (hp : Level p) (d : Nat) :
    (Nesting.mk d false).after p = ⟨d, false⟩ := by
  induction hp generalizing d with
  | nil => rfl
  | flat hr _ ih =>
      rw [after_cons, behind_of_isFlat hr]
      exact ih d
  | arrow _ ih =>
      rw [after_cons, after_cons, behind_equals, behind_arrow]
      exact ih d
  | @group o c inner rs ho _ _ ihi ih =>
      rw [after_cons, behind_open ho, after_append, ihi, after_cons, behind_close ho]
      exact ih d

end Nesting

namespace Run

open Nesting

/-- A group of brackets leaves the count as it was. -/
theorem openBehind_group {o c : Char} {p : List Run} (h : (o, c) ∈ bracketPairs)
    (hp : ClosedBy c p) (d : Nat) (e : Bool) (q : List Run) :
    openBehind d e (code o :: (p ++ code c :: q)) = openBehind d false q := by
  rw [openBehind, shift_open h, (isChar_bracket h).1]
  show openBehind (d + 1) false (p ++ code c :: q) = _
  rw [hp.even.openBehind_append, openBehind, hp.closes, (isChar_bracket h).2]
  rfl

theorem openBehind_flat {r : Run} (h : r.isFlat = true) (d : Nat) (e : Bool) (q : List Run) :
    openBehind d e (r :: q) = openBehind d false q := by
  rw [openBehind, shift_of_isFlat h, isChar_of_isFlat h]
  rfl

theorem openBehind_of_isFlat {p : List Run} (h : ∀ r ∈ p, r.isFlat = true) (d : Nat) (e : Bool) :
    openBehind d e p = some d := by
  induction p generalizing e with
  | nil => rfl
  | cons r p ih =>
      rw [openBehind_flat (h r List.mem_cons_self)]
      exact ih (fun s hs => h s (List.mem_cons_of_mem r hs)) false

/-- Level runs are even, and a walk does not end behind `=`. -/
theorem Level.even {p : List Run} (hp : Level p) : IsEven p ∧ endsInEquals p = false := by
  refine ⟨?_, by rw [endsInEquals, outermost, after_level hp]⟩
  induction hp with
  | nil => rfl
  | flat hr _ ih =>
      rw [IsEven, openBehind_flat hr]
      exact ih
  | arrow _ ih => exact ih
  | @group o c inner rs ho hi _ ihi ih =>
      have hequals : endsInEquals inner = false := by rw [endsInEquals, outermost, after_level hi]
      rw [IsEven, openBehind_group ho ⟨ihi, by rw [hequals, shift_close ho]⟩]
      exact ih

theorem Level.closedBy {o c : Char} {inner : List Run} (hi : Level inner)
    (h : (o, c) ∈ bracketPairs) : ClosedBy c inner where
  even := hi.even.1
  closes := by rw [hi.even.2, shift_close h]

/-! ## The partner of a bracket lies behind level runs -/

theorem enclosed_level {o c : Char} {inner : List Run} (h : (o, c) ∈ bracketPairs)
    (hi : Level inner) (after : List Run) :
    enclosed (inner ++ code c :: after) = some (inner, after) :=
  (hi.closedBy h).enclosed after

theorem wrapped_of_head {b : Char} {r : Run} {rs : List Run} (h : r ≠ code b) :
    wrapped b (r :: rs) = none := by
  rw [wrapped, if_neg]
  simpa [isChar] using h

end Run

/-! ## Cuts go on behind level runs -/

namespace Nesting

open Run

/-- Runs that nest nothing leave the depth as it is. -/
theorem depth_after_of_isFlat {p : List Run} (h : ∀ r ∈ p, r.isFlat = true) (n : Nesting) :
    (n.after p).depth = n.depth := by
  induction p generalizing n with
  | nil => rfl
  | cons r p ih =>
      rw [after_cons, ih fun s hs => h s (List.mem_cons_of_mem r hs),
        behind_of_isFlat (h r List.mem_cons_self)]

/-- Whether the word does not begin anywhere outside the brackets of the runs. -/
def Lacks (word : Text) (rs : List Run) : Prop :=
  outermost.cutAtFirst word rs = none

instance (word : Text) (rs : List Run) : Decidable (Lacks word rs) :=
  inferInstanceAs (Decidable (_ = none))

theorem dropCode?_of_ne {w : Char} {word : Text} {r : Run} (h : r ≠ code w) (rs : List Run) :
    dropCode? (w :: word) (r :: rs) = none := by
  cases r with
  | code d =>
      rw [dropCode?, if_neg]
      exact fun hwd => h (by rw [hwd])
  | comment _ _ => rfl
  | literal _ _ => rfl

theorem lacks_nil (w : Char) (word : Text) : Lacks (w :: word) [] := rfl

theorem lacks_flat_iff {word : Text} {r : Run} {rs : List Run} (hr : r.isFlat = true) :
    Lacks word (r :: rs) ↔ dropCode? word (r :: rs) = none ∧ Lacks word rs := by
  rw [Lacks, cutAtFirst_cons_eq_none_iff, behind_of_isFlat hr]
  exact and_congr_left fun _ => or_iff_left (absurd rfl)

theorem lacks_flat {word : Text} {r : Run} {rs : List Run} (hr : r.isFlat = true)
    (hd : dropCode? word (r :: rs) = none) (h : Lacks word rs) : Lacks word (r :: rs) :=
  (lacks_flat_iff hr).mpr ⟨hd, h⟩

theorem lacks_arrow_iff {word : Text} {rs : List Run}
    (he : dropCode? word (code '=' :: code '>' :: rs) = none)
    (hg : dropCode? word (code '>' :: rs) = none) :
    Lacks word (code '=' :: code '>' :: rs) ↔ Lacks word rs := by
  rw [Lacks, cutAtFirst_cons_of_none (Or.inl he), outermost, behind_equals,
    cutAtFirst_cons_of_none (Or.inl hg), behind_arrow, Option.map_eq_none_iff,
    Option.map_eq_none_iff]
  rfl

/-- A bracket that opens begins no word with another character. -/
theorem cutAtFirst_open {o c w : Char} (h : (o, c) ∈ bracketPairs) (hw : w ≠ o) (word : Text)
    (rs : List Run) :
    outermost.cutAtFirst (w :: word) (code o :: rs) =
      ((Nesting.mk 1 false).cutAtFirst (w :: word) rs).map fun x => (code o :: x.1, x.2) := by
  rw [cutAtFirst_cons_of_none (Or.inl (dropCode?_of_ne (fun he => hw (Run.code.inj he).symm) rs)),
    behind_open h]
  rfl

theorem cutAtFirst_group {o c w : Char} {inner : List Run} (h : (o, c) ∈ bracketPairs)
    (hi : ClosedBy c inner) (hw : w ≠ o) (word : Text) (rs : List Run) :
    outermost.cutAtFirst (w :: word) (code o :: (inner ++ code c :: rs)) =
      (outermost.cutAtFirst (w :: word) rs).map
        fun x => (code o :: (inner ++ code c :: x.1), x.2) := by
  rw [cutAtFirst_open h hw, hi.cutAtFirst, Option.map_map]
  rfl

theorem lacks_group_iff {o c w : Char} {word : Text} {inner rs : List Run}
    (h : (o, c) ∈ bracketPairs) (hi : ClosedBy c inner) (hw : w ≠ o) :
    Lacks (w :: word) (code o :: (inner ++ code c :: rs)) ↔ Lacks (w :: word) rs := by
  rw [Lacks, cutAtFirst_group h hi hw, Option.map_eq_none_iff]
  rfl

theorem lacks_group {o c w : Char} {word : Text} {inner rs : List Run}
    (h : (o, c) ∈ bracketPairs) (hi : ClosedBy c inner) (hw : w ≠ o)
    (hrs : Lacks (w :: word) rs) : Lacks (w :: word) (code o :: (inner ++ code c :: rs)) :=
  (lacks_group_iff h hi hw).mpr hrs

/-- A cut at a word goes on behind runs in which its first character does not stand at depth zero.
-/
theorem cutAtFirst_append_of_none {w : Char} {n : Nesting} {p : List Run}
    (h : n.cutAtFirst [w] p = none) (word : Text) (q : List Run) :
    n.cutAtFirst (w :: word) (p ++ q) =
      ((n.after p).cutAtFirst (w :: word) q).map fun x => (p ++ x.1, x.2) := by
  induction p generalizing n with
  | nil => simp [after]
  | cons r p ih =>
      obtain ⟨hr, hp⟩ := cutAtFirst_cons_eq_none_iff.mp h
      have hword : dropCode? (w :: word) (r :: (p ++ q)) = none ∨ n.depth ≠ 0 :=
        hr.imp_left fun hr => dropCode?_of_ne (dropCode?_singleton_iff.mp hr) (p ++ q)
      rw [List.cons_append, cutAtFirst_cons_of_none hword, ih hp, after_cons]
      simp [Option.map_map, Function.comp_def]

/-- A cut at a word goes on behind level runs that lack the first character of the word. -/
theorem cutAtFirst_append {p : List Run} (hp : Level p) {w : Char} (hw : Lacks [w] p)
    (word : Text) (q : List Run) :
    outermost.cutAtFirst (w :: word) (p ++ q) =
      (outermost.cutAtFirst (w :: word) q).map fun x => (p ++ x.1, x.2) := by
  rw [cutAtFirst_append_of_none hw, outermost, after_level hp]

theorem lacks_append_iff {p q : List Run} {w : Char} {word : Text} (hp : Level p)
    (hw : Lacks [w] p) : Lacks (w :: word) (p ++ q) ↔ Lacks (w :: word) q := by
  rw [Lacks, cutAtFirst_append hp hw, Option.map_eq_none_iff]
  rfl

theorem Lacks.append {p q : List Run} {w : Char} {word : Text} (hp : Level p)
    (hw : Lacks [w] p) (hq : Lacks (w :: word) q) : Lacks (w :: word) (p ++ q) :=
  (lacks_append_iff hp hw).mpr hq

/-! ## Pieces between commas -/

/-- The pieces are what stands before the first comma, and the pieces behind it. -/
theorem pieces_eq (n : Nesting) (rs : List Run) :
    n.pieces rs =
      match n.cutAtFirst [','] rs with
      | none => [rs]
      | some (a, b) => a :: outermost.pieces b := by
  induction rs generalizing n with
  | nil => rfl
  | cons r rs ih =>
      -- both walks look at the same run: a comma at depth zero, or one that they go on behind
      by_cases hcut : n.depth = 0 ∧ r.isChar ',' = true
      · obtain ⟨hn, hr⟩ := hcut
        have hrun : r = code ',' := by simpa [isChar] using hr
        have hd : dropCode? [','] (r :: rs) = some rs := by
          rw [hrun, dropCode?, if_pos rfl, dropCode?]
        have hb : n.behind r = outermost := by
          rw [hrun, behind_of_isFlat rfl, hn]
          rfl
        obtain ⟨d, e⟩ := n
        simp only at hn
        subst hn
        rw [cutAtFirst_cons_of_some hd, pieces, if_pos ⟨rfl, hr⟩, hb]
      · have hnone : dropCode? [','] (r :: rs) = none ∨ n.depth ≠ 0 := by
          by_cases hn : n.depth = 0
          · refine Or.inl (dropCode?_of_ne (fun hr => hcut ⟨hn, ?_⟩) rs)
            rw [hr]
            rfl
          · exact Or.inr hn
        rw [cutAtFirst_cons_of_none hnone, pieces, if_neg hcut, ih]
        cases (n.behind r).cutAtFirst [','] rs with
        | none => rfl
        | some p => rfl

theorem pieces_of_lacks {rs : List Run} (h : Lacks [','] rs) : outermost.pieces rs = [rs] := by
  rw [pieces_eq, h]

/-- The first piece ends at a comma with nothing open in front of it. -/
theorem pieces_append_comma_of_depth {n : Nesting} {p : List Run}
    (h : n.cutAtFirst [','] p = none) (hz : (n.after p).depth = 0) (q : List Run) :
    n.pieces (p ++ code ',' :: q) = p :: outermost.pieces q := by
  have hd : dropCode? [','] (code ',' :: q) = some q := by
    rw [dropCode?, if_pos rfl, dropCode?]
  have hn : n.after p = ⟨0, (n.after p).afterEquals⟩ := congrArg (Nesting.mk · _) hz
  rw [pieces_eq, cutAtFirst_append_of_none h, hn, cutAtFirst_cons_of_some hd]
  simp

/-! ## The last word -/

/-- The last word is missing exactly where the first one is. -/
theorem cutAtLast_eq_none_iff {word : Text} {n : Nesting} {rs : List Run} :
    n.cutAtLast word rs = none ↔ n.cutAtFirst word rs = none := by
  induction rs generalizing n with
  | nil => simp [cutAtLast, cutAtFirst]
  | cons r rs ih =>
      rw [cutAtLast, cutAtFirst]
      cases hl : (n.behind r).cutAtLast word rs with
      | none =>
          rw [ih] at hl
          rw [hl]
          cases if n.depth = 0 then dropCode? word (r :: rs) else none <;> simp
      | some p =>
          have hf : (n.behind r).cutAtFirst word rs ≠ none := fun h => by
            rw [ih.mpr h] at hl
            exact absurd hl (by simp)
          cases if n.depth = 0 then dropCode? word (r :: rs) else none with
          | none => simpa using hf
          | some after => simp

theorem cutAtLast_of_lacks {word : Text} {rs : List Run} (h : Lacks word rs) :
    Run.cutAtLast word rs = none :=
  cutAtLast_eq_none_iff.mpr h

/-- A last word behind some runs is the last word of the whole. -/
theorem cutAtLast_append {word : Text} {n : Nesting} {p q a b : List Run}
    (h : (n.after p).cutAtLast word q = some (a, b)) :
    n.cutAtLast word (p ++ q) = some (p ++ a, b) := by
  induction p generalizing n with
  | nil => exact h
  | cons r p ih => rw [List.cons_append, cutAtLast, ih (n := n.behind r) h]; rfl

end Nesting

end ScriptSurvey
