import ScriptSurvey.Proofs.Lexical.Partner
import ScriptSurvey.Proofs.Lexical.Slices

/-!
# The search finds the partner of each bracket

Brackets of all four kinds are paired by a stack that keeps, for each bracket that is open, its offset
and its kind. A closing bracket is for the one on top, and only if that is of its kind; at the end the
stack is empty. So some texts have **pairs of brackets**, and others have none to speak of.

The search for a closing bracket keeps one number, and begins in the middle of a text. In a text with
pairs it still finds the partner of each opening bracket: the number is the height of the stack above that
bracket. And what stands between the two has pairs of its own.
-/

namespace ScriptSurvey

open Run BracketStack Cursor

/-! ## Pairing by a stack -/

/-- The offsets of the brackets that some runs pair, the first of which begins at byte `n`, with some
brackets open in front, the innermost first; `none` when a bracket has no partner of its kind. -/
def Run.pairsFrom (opened : List (Nat × Run)) (afterEquals : Bool) (n : Nat) :
    List Run → Option (List (Nat × Nat))
  | [] => if opened.isEmpty then some [] else none
  | r :: rs =>
    match r.shift afterEquals, opened with
    | .opens, opened => pairsFrom ((n, r) :: opened) (r.isChar '=') (n + Text.size r.text) rs
    | .stays, opened => pairsFrom opened (r.isChar '=') (n + Text.size r.text) rs
    | .closes, [] => none
    | .closes, o :: opened =>
      if isPair o.2 r then
        (pairsFrom opened (r.isChar '=') (n + Text.size r.text) rs).map fun ps => (o.1, n) :: ps
      else none

/-- The pairs of brackets of a text, each by the offsets of the two. -/
def bracketPairs? (t : Text) : Option (List (Nat × Nat)) :=
  Run.pairsFrom [] false 0 (runs t)

namespace Run

/-- What a run at byte `n` does to the brackets that are open, and the pair that it makes. -/
inductive Pairs (e : Bool) (n : Nat) (r : Run) :
    List (Nat × Run) → List (Nat × Run) → List (Nat × Nat) → Prop where
  | opens {opened : List (Nat × Run)} : r.shift e = .opens → Pairs e n r opened ((n, r) :: opened) []
  | stays {opened : List (Nat × Run)} : r.shift e = .stays → Pairs e n r opened opened []
  | closes {o : Nat × Run} {opened : List (Nat × Run)} : r.shift e = .closes →
      isPair o.2 r = true → Pairs e n r (o :: opened) opened [(o.1, n)]

variable {opened opened' : List (Nat × Run)} {e : Bool} {n : Nat} {r : Run} {rs : List Run}
  {ps new : List (Nat × Nat)}

/-- Runs pair what the first of them pairs, and then what the others do. -/
theorem pairs_of_pairsFrom (h : pairsFrom opened e n (r :: rs) = some ps) :
    ∃ opened' new ps', Pairs e n r opened opened' new ∧ ps = new ++ ps' ∧
      pairsFrom opened' (r.isChar '=') (n + Text.size r.text) rs = some ps' := by
  unfold pairsFrom at h
  split at h
  · next hshift => exact ⟨_, [], ps, .opens hshift, rfl, h⟩
  · next hshift => exact ⟨_, [], ps, .stays hshift, rfl, h⟩
  · exact absurd h (by simp)
  · next o opened hshift =>
      split at h
      · next hpair =>
          obtain ⟨ps', hps', rfl⟩ := Option.map_eq_some_iff.mp h
          exact ⟨opened, [(o.1, n)], ps', .closes hshift hpair, rfl, hps'⟩
      · exact absurd h (by simp)

theorem Pairs.move (h : Pairs e n r opened opened' new) :
    Move r ⟨opened.map Prod.snd, e⟩ ⟨opened'.map Prod.snd, r.isChar '='⟩ := by
  cases h with
  | opens hshift => exact .opens hshift
  | stays hshift => exact .stays hshift
  | closes hshift hpair => exact .closes hshift hpair

/-- Where there are pairs, the stack of kinds goes along and is empty at the end. -/
theorem walk_of_pairsFrom (h : pairsFrom opened e n rs = some ps) :
    ∃ e', walk ⟨opened.map Prod.snd, e⟩ rs = some ⟨[], e'⟩ := by
  induction rs generalizing opened e n ps with
  | nil =>
      rw [pairsFrom] at h
      split at h
      · next hnil =>
          rw [List.isEmpty_iff.mp hnil]
          exact ⟨e, rfl⟩
      · exact absurd h (by simp)
  | cons r rs ih =>
      obtain ⟨opened', new, ps', hpairs, -, hrest⟩ := pairs_of_pairsFrom h
      obtain ⟨e', hwalk⟩ := ih hrest
      exact ⟨e', hpairs.move.walk_cons hwalk⟩

/-- A stack of kinds that goes along and is empty at the end makes pairs. -/
theorem exists_pairsFrom_of_walk {e' : Bool}
    (h : walk ⟨opened.map Prod.snd, e⟩ rs = some ⟨[], e'⟩) (n : Nat) :
    ∃ ps, pairsFrom opened e n rs = some ps := by
  -- the stack holds the kinds of the brackets that are open, so both walks close the same one
  induction rs generalizing opened e n with
  | nil =>
      have hnil : opened.map Prod.snd = [] := congrArg BracketStack.opened (Option.some.inj h)
      rw [List.map_eq_nil_iff] at hnil
      exact ⟨[], by rw [hnil]; rfl⟩
  | cons r rs ih =>
      obtain ⟨t, ht, hrest⟩ := Option.bind_eq_some_iff.mp h
      unfold behind? at ht
      unfold pairsFrom
      cases hshift : r.shift e with
      | opens =>
          rw [hshift] at ht
          obtain rfl := Option.some.inj ht
          have hopened : walk ⟨((n, r) :: opened).map Prod.snd, r.isChar '='⟩ rs = some ⟨[], e'⟩ := hrest
          exact ih hopened _
      | stays =>
          rw [hshift] at ht
          obtain rfl := Option.some.inj ht
          exact ih hrest _
      | closes =>
          cases opened with
          | nil => exact absurd ht (by simp [hshift])
          | cons o opened =>
              simp only [hshift, List.map_cons] at ht
              split at ht
              · next hpair =>
                  obtain rfl := Option.some.inj ht
                  obtain ⟨ps, hps⟩ := ih hrest (n + Text.size r.text)
                  exact ⟨(o.1, n) :: ps, by simp only [hpair, if_true, hps, Option.map_some]⟩
              · exact absurd ht (by simp)

/-- Each bracket that is open in front has a partner. -/
theorem exists_mem_of_opened (h : pairsFrom opened e n rs = some ps) {o : Nat × Run}
    (ho : o ∈ opened) : ∃ c, (o.1, c) ∈ ps := by
  induction rs generalizing opened e n ps with
  | nil =>
      rw [pairsFrom] at h
      split at h
      · next hnil =>
          rw [List.isEmpty_iff.mp hnil] at ho
          exact absurd ho List.not_mem_nil
      · exact absurd h (by simp)
  | cons r rs ih =>
      obtain ⟨opened', new, ps', hpairs, rfl, hrest⟩ := pairs_of_pairsFrom h
      have hlater (ho : o ∈ opened') : ∃ c, (o.1, c) ∈ new ++ ps' := by
        obtain ⟨c, hc⟩ := ih hrest ho
        exact ⟨c, List.mem_append_right new hc⟩
      cases hpairs with
      | opens _ => exact hlater (List.mem_cons_of_mem _ ho)
      | stays _ => exact hlater ho
      | closes _ _ =>
          rcases List.mem_cons.mp ho with rfl | ho
          · exact ⟨n, List.mem_cons_self⟩
          · exact hlater ho

/-- Each bracket that the runs open has a partner. -/
theorem exists_mem_of_opens {a b : List Run} {x : Char}
    (h : pairsFrom opened e n (a ++ code x :: b) = some ps)
    (hx : ∀ e, (code x).shift e = .opens) : ∃ c, (n + Text.size (join a), c) ∈ ps := by
  induction a generalizing opened e n ps with
  | nil =>
      obtain ⟨opened', new, ps', hpairs, rfl, hrest⟩ := pairs_of_pairsFrom h
      cases hpairs with
      | opens _ =>
          obtain ⟨c, hc⟩ := exists_mem_of_opened hrest List.mem_cons_self
          exact ⟨c, hc⟩
      | stays hshift => exact absurd ((hx e).symm.trans hshift) (by simp)
      | closes hshift _ => exact absurd ((hx e).symm.trans hshift) (by simp)
  | cons r a ih =>
      obtain ⟨opened', new, ps', -, rfl, hrest⟩ := pairs_of_pairsFrom h
      obtain ⟨c, hc⟩ := ih hrest
      rw [join_cons, Text.size_append, ← Nat.add_assoc]
      exact ⟨c, List.mem_append_right new hc⟩

/-! ## The count finds the partner -/

theorem isOpening_of_shift {e : Bool} (h : r.shift e = .opens) :
    ∃ x, r = code x ∧ isOpeningBracket x = true := by
  unfold shift at h
  split at h
  · exact ⟨'(', rfl, rfl⟩
  · exact ⟨'[', rfl, rfl⟩
  · exact ⟨'\x7b', rfl, rfl⟩
  · exact ⟨'<', rfl, rfl⟩
  · exact absurd h (by simp)
  · exact absurd h (by simp)
  · exact absurd h (by simp)
  · split at h <;> exact absurd h (by simp)
  · exact absurd h (by simp)

/-- Whether the count finds byte `c` for a bracket with `depth` more of them open, when the runs ahead
begin at byte `n`. -/
def FindsFrom (depth : Nat) (e : Bool) (n : Nat) (rs : List Run) (c : Nat) : Prop :=
  ∃ inner after, enclosedFrom depth e rs = some (inner, after) ∧ c = n + Text.size (join inner)

theorem FindsFrom.cons {depth d c : Nat} (hstep : (r.shift e).within depth = some d)
    (h : FindsFrom d (r.isChar '=') (n + Text.size r.text) rs c) : FindsFrom depth e n (r :: rs) c := by
  obtain ⟨inner, after, hcut, rfl⟩ := h
  refine ⟨r :: inner, after, ?_, ?_⟩
  · rw [enclosedFrom, hstep]
    show (enclosedFrom d (r.isChar '=') rs).map _ = _
    rw [hcut]
    rfl
  · rw [join_cons, Text.size_append, Nat.add_assoc]

/-- **A pair is what the count finds**: for a bracket that is open in front, with as many more open as
stand above it, or for one of the runs, with none. -/
theorem findsFrom_of_mem {o c : Nat} (h : pairsFrom opened e n rs = some ps) (hmem : (o, c) ∈ ps) :
    (∃ above b below, opened = above ++ (o, b) :: below ∧ FindsFrom above.length e n rs c) ∨
      ∃ a x b, rs = a ++ code x :: b ∧ o = n + Text.size (join a) ∧ isOpeningBracket x = true ∧
        FindsFrom 0 false (o + x.utf8Size) b c := by
  induction rs generalizing opened e n ps with
  | nil =>
      rw [pairsFrom] at h
      split at h
      · obtain rfl := Option.some.inj h
        exact absurd hmem List.not_mem_nil
      · exact absurd h (by simp)
  | cons r rs ih =>
      obtain ⟨opened', new, ps', hpairs, rfl, hrest⟩ := pairs_of_pairsFrom h
      have hlater (hmem : (o, c) ∈ ps') :
          (∃ above b below, opened' = above ++ (o, b) :: below ∧
            FindsFrom above.length (r.isChar '=') (n + Text.size r.text) rs c) ∨
          ∃ a x b, r :: rs = a ++ code x :: b ∧ o = n + Text.size (join a) ∧
            isOpeningBracket x = true ∧ FindsFrom 0 false (o + x.utf8Size) b c := by
        rcases ih hrest hmem with hopened | ⟨a, x, b, rfl, rfl, hx, hfinds⟩
        · exact .inl hopened
        · refine .inr ⟨r :: a, x, b, rfl, ?_, hx, hfinds⟩
          rw [join_cons, Text.size_append, Nat.add_assoc]
      cases hpairs with
      | opens hshift =>
          rcases hlater hmem with ⟨above, b, below, heq, hfinds⟩ | hrun
          · cases above with
            | nil =>
                -- the bracket is the run itself
                obtain ⟨⟨rfl, rfl⟩, rfl⟩ := by simpa using heq
                obtain ⟨x, rfl, hx⟩ := isOpening_of_shift hshift
                rw [isChar_of_isOpeningBracket hx] at hfinds
                exact .inr ⟨[], x, rs, rfl, rfl, hx, hfinds⟩
            | cons p above =>
                obtain ⟨-, rfl⟩ := List.cons.inj heq
                exact .inl ⟨above, b, below, rfl, hfinds.cons (by rw [hshift]; rfl)⟩
          · exact .inr hrun
      | stays hshift =>
          rcases hlater hmem with ⟨above, b, below, rfl, hfinds⟩ | hrun
          · exact .inl ⟨above, b, below, rfl, hfinds.cons (by rw [hshift]; rfl)⟩
          · exact .inr hrun
      | @closes p _ hshift hpair =>
          rcases List.mem_cons.mp hmem with heq | hmem
          · obtain ⟨rfl, rfl⟩ := Prod.mk.inj heq
            refine .inl ⟨[], p.2, opened', rfl, [], rs, ?_, rfl⟩
            rw [enclosedFrom, hshift]
            rfl
          · rcases hlater hmem with ⟨above, b, below, rfl, hfinds⟩ | hrun
            · exact .inl ⟨p :: above, b, below, rfl, hfinds.cons (by rw [hshift]; rfl)⟩
            · exact .inr hrun

end Run

/-! ## The search in a text -/

/-- The brackets of a text have pairs exactly if they nest by kind. -/
theorem isSome_bracketPairs?_iff {t : Text} :
    (bracketPairs? t).isSome = true ↔ ∃ e, BracketStack.empty.walk (runs t) = some ⟨[], e⟩ := by
  rw [Option.isSome_iff_exists]
  constructor
  · rintro ⟨ps, hps⟩
    exact walk_of_pairsFrom hps
  · rintro ⟨e, he⟩
    have hwalk : walk ⟨([] : List (Nat × Run)).map Prod.snd, false⟩ (runs t) = some ⟨[], e⟩ := he
    exact exists_pairsFrom_of_walk hwalk 0

theorem utf8Size_of_mem_bracketPairs {x y : Char} (h : (x, y) ∈ bracketPairs) :
    x.utf8Size = 1 ∧ y.utf8Size = 1 := by
  simp only [bracketPairs, List.mem_cons, Prod.mk.injEq, List.not_mem_nil, or_false] at h
  rcases h with ⟨rfl, rfl⟩ | ⟨rfl, rfl⟩ | ⟨rfl, rfl⟩ | ⟨rfl, rfl⟩ <;> decide

/-- The search at a bracket of code counts over the runs behind it. -/
theorem closingOffset_eq {t : Text} {a b : List Run} {x : Char} (h : runs t = a ++ code x :: b)
    (hx : isOpeningBracket x = true) :
    closingOffset t (Text.size (join a)) =
      (enclosed b).map fun p => Text.size (join a) + 1 + Text.size (join p.1) := by
  have hstable := Run.stable_runs t
  rw [h] at hstable
  have hb : Stable b := (hstable.of_append_right (p := a)).of_append_right (p := [code x])
  have ht : t = join a ++ x :: join b := by
    rw [← join_runs t, h, join_append]
    rfl
  rw [closingOffset, ht, Text.cutAt?_append, Option.bind_some, bracketed, if_pos hx, hb,
    Option.map_map]
  rfl

/-- In a text whose brackets match, the search finds a bracket of the same kind, and the brackets between
the two nest. -/
theorem exists_closer_of_closingOffset {t : Text} {a b : List Run} {x : Char} {c : Nat}
    (hruns : runs t = a ++ code x :: b) (hx : isOpeningBracket x = true) (h : IsMatched (runs t))
    (hc : closingOffset t (Text.size (join a)) = some c) :
    ∃ inner y after, b = inner ++ code y :: after ∧ (x, y) ∈ bracketPairs ∧
      c = Text.size (join a) + 1 + Text.size (join inner) ∧ enclosed b = some (inner, after) ∧
      ∃ e, BracketStack.empty.walk inner = some ⟨[], e⟩ := by
  rw [closingOffset_eq hruns hx] at hc
  obtain ⟨⟨inner, after⟩, hcut, rfl⟩ := Option.map_eq_some_iff.mp hc
  have hmatched : IsMatched (code x :: b) := by
    rw [hruns] at h
    exact h.of_isInfix (List.suffix_append a _).isInfix
  obtain ⟨y, hy, hb, hinner⟩ := hmatched.exists_closer hx hcut
  exact ⟨inner, y, after, hb, hy, rfl, hcut, hinner⟩

/-- The text behind a run of one byte, up to another run. -/
theorem slice?_behind {t : Text} {a inner after : List Run} {r : Run}
    (hruns : runs t = a ++ r :: (inner ++ after)) (hr : Text.size r.text = 1) :
    (Span.mk (Text.size (join a) + 1) (Text.size (join a) + 1 + Text.size (join inner))).slice? t =
      some (join inner) := by
  have hfront : Text.size (join (a ++ [r])) = Text.size (join a) + 1 := by
    rw [join_append, Text.size_append, join_cons, join_nil, List.append_nil, hr]
  have ht : t = join (a ++ [r]) ++ (join inner ++ join after) := by
    rw [← join_runs t, hruns]
    simp
  have hslice := Span.slice?_append (join (a ++ [r])) (join inner) (join after)
  rwa [hfront, ← ht] at hslice

/-- What the partner of an opening bracket `x` at byte `o` has to be, if those are the pairs of
brackets. -/
structure IsPartner (t : Text) (pairs : List (Nat × Nat)) (o : Nat) (x : Char) (c : Nat) : Prop where
  /-- It is paired with the bracket, and it alone. -/
  paired : ∀ d, (o, d) ∈ pairs ↔ d = c
  /-- It is a bracket of code, of the same kind. -/
  kind : ∃ y, (x, y) ∈ bracketPairs ∧ (⟨c, c + 1⟩, code y) ∈ (ofText t).scan.1
  /-- What stands between the two has pairs again, and no comments or strings but those of the text. -/
  between : ∃ inner, (Span.mk (o + 1) c).slice? t = some inner ∧
    (bracketPairs? inner).isSome = true ∧ ∀ r ∈ runs inner, r ∈ runs t

/-- All that a bracket is paired with is found by the search. -/
theorem closingOffset_of_mem {t : Text} {ps : List (Nat × Nat)} (h : bracketPairs? t = some ps)
    {o c : Nat} (hmem : (o, c) ∈ ps) : closingOffset t o = some c := by
  rcases findsFrom_of_mem h hmem with ⟨above, _, _, hnil, -⟩ | ⟨a, x, b, hruns, ho, hx, hfinds⟩
  · exact absurd hnil (by simp)
  · obtain ⟨inner, after, hcut, rfl⟩ := hfinds
    rw [Nat.zero_add] at ho
    rw [ho, closingOffset_eq hruns hx, enclosed, hcut, utf8Size_of_isOpeningBracket hx]
    rfl

/-- **The search finds the partner of each opening bracket**, in all texts whose brackets have pairs. What
stands between the two closes what it opens. -/
theorem exists_enclosed_isPartner {t : Text} {ps : List (Nat × Nat)} (h : bracketPairs? t = some ps)
    {s : Span} {x : Char} (hx : (s, code x) ∈ (ofText t).scan.1) (hopen : isOpeningBracket x = true) :
    ∃ a inner y after, runs t = a ++ code x :: (inner ++ code y :: after) ∧
      s.start = Text.size (join a) ∧ openBehind 0 false inner = some 0 ∧
      enclosed (inner ++ code y :: after) = some (inner, after) ∧
      IsPartner t ps s.start x (Text.size (join a) + 1 + Text.size (join inner)) := by
  rw [scan_ofText] at hx
  obtain ⟨a, b, hruns, rfl⟩ := exists_of_mem_placed hx
  rw [Nat.zero_add]
  have hopens := shift_of_isOpeningBracket hopen
  obtain ⟨c, hc⟩ : ∃ c, (Text.size (join a), c) ∈ ps := by
    have hpairs := h
    rw [bracketPairs?, hruns] at hpairs
    have := exists_mem_of_opens hpairs hopens
    rwa [Nat.zero_add] at this
  have hfound := closingOffset_of_mem h hc
  obtain ⟨e, hwalk⟩ := walk_of_pairsFrom h
  obtain ⟨inner, y, after, rfl, hy, rfl, hcut, e', hinner⟩ :=
    exists_closer_of_closingOffset hruns hopen ⟨_, _, hwalk⟩ hfound
  have hsizes := utf8Size_of_mem_bracketPairs hy
  have hpart : inner <:+: runs t := ⟨a ++ [code x], code y :: after, by rw [hruns]; simp⟩
  have hagain : runs (join inner) = inner := (Run.stable_runs t).of_isInfix hpart
  refine ⟨a, inner, y, after, hruns, rfl, openBehind_of_walk hinner, hcut,
    fun d => ⟨fun hd => ?_, fun hd => hd ▸ hc⟩, ⟨y, hy, ?_⟩, join inner, ?_, ?_, ?_⟩
  · exact Option.some.inj ((closingOffset_of_mem h hd).symm.trans hfound)
  · have hmem := mem_placed 0 (a ++ code x :: inner) (code y) after
    rw [scan_ofText, hruns]
    simpa [Run.text, hsizes, Nat.add_assoc] using hmem
  · exact slice?_behind hruns hsizes.1
  · rw [isSome_bracketPairs?_iff, hagain]
    exact ⟨e', hinner⟩
  · intro r hr
    rw [hagain] at hr
    exact hpart.subset hr

end ScriptSurvey
