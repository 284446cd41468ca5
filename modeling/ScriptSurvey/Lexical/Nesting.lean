import ScriptSurvey.Lexical.Trivia

/-!
# Nesting

Brackets nest runs.  `(`, `[`, `{` and `<` lead one level in, and `)`, `]`, `}` and `>` one level
out; only code counts, and a `>` directly behind `=` belongs to an arrow and is no bracket.  The
kinds share one count: the reader of call arguments cannot know whether a `<` compares or opens
type arguments.

Two walks over runs use the count.  Searching at the outermost level, it never falls below zero,
so that a stray closing bracket (a comparison, say) does not move the rest of the text out of
that level.  Searching the partner of an opening bracket, the walk ends where the count would
fall below that of the bracket.

The count is a natural number here.  A signed word of 32 bits holds it in every text in which fewer
than `2 ^ 31` brackets are open at once (`Text.depth`), and so in every text of fewer than `2 ^ 31`
bytes; walks with such a count come to the same there (`ByOffset.arguments?_eq`,
`ByOffset.calls?_int32`).  In deeper texts they do not, since the count wraps around
(`ByOffset.closing?_int32_iff`).
-/

namespace ScriptSurvey

/-- What a run does to the nesting. -/
inductive Shift where
  | opens
  | closes
  | stays
deriving DecidableEq, Repr

/-- The number of brackets open behind a run, of those opened behind some bracket; `none` when the
run closes that bracket itself. -/
def Shift.within (depth : Nat) : Shift → Option Nat
  | opens => some (depth + 1)
  | closes => if depth = 0 then none else some (depth - 1)
  | stays => some depth

namespace Run

/-- What the run does to the nesting, given whether it stands directly behind `=`. -/
def shift (afterEquals : Bool) : Run → Shift
  | code '(' => .opens
  | code '[' => .opens
  | code '{' => .opens
  | code '<' => .opens
  | code ')' => .closes
  | code ']' => .closes
  | code '}' => .closes
  | code '>' => if afterEquals then .stays else .closes
  | _ => .stays

/-- Whether the run is the code character `c`. -/
def isChar (c : Char) (r : Run) : Bool :=
  r == code c

end Run

/-- Where a walk over runs is: how deep, and whether directly behind `=`. -/
structure Nesting where
  depth : Nat
  afterEquals : Bool
deriving DecidableEq, Repr

namespace Nesting

/-- The outermost level, at the start of a text. -/
def outermost : Nesting := ⟨0, false⟩

/-- The nesting behind a run.  Closing a bracket at depth zero changes nothing. -/
def behind (n : Nesting) (r : Run) : Nesting where
  depth :=
    match r.shift n.afterEquals with
    | .opens => n.depth + 1
    | .closes => n.depth - 1
    | .stays => n.depth
  afterEquals := r.isChar '='

/-- The pieces between the commas at depth zero; there is one more piece than commas. -/
def pieces (n : Nesting) : List Run → List (List Run)
  | [] => [[]]
  | r :: rs =>
    if n.depth = 0 ∧ r.isChar ',' then [] :: pieces (n.behind r) rs
    else
      match pieces (n.behind r) rs with
      | [] => [[r]]
      | p :: ps => (r :: p) :: ps

/-- What follows `word` when the runs begin with it in code. -/
def dropCode? : Text → List Run → Option (List Run)
  | [], rs => some rs
  | c :: word, .code d :: rs => if c = d then dropCode? word rs else none
  | _ :: _, _ => none

/-- Cut at the first `word` at depth zero, leaving it out. -/
def cutAtFirst (word : Text) (n : Nesting) : List Run → Option (List Run × List Run)
  | [] => none
  | r :: rs =>
    match if n.depth = 0 then dropCode? word (r :: rs) else none with
    | some after => some ([], after)
    | none => (cutAtFirst word (n.behind r) rs).map fun p => (r :: p.1, p.2)

/-- Cut at the last `word` at depth zero, leaving it out. -/
def cutAtLast (word : Text) (n : Nesting) : List Run → Option (List Run × List Run)
  | [] => none
  | r :: rs =>
    match cutAtLast word (n.behind r) rs with
    | some p => some (r :: p.1, p.2)
    | none => (if n.depth = 0 then dropCode? word (r :: rs) else none).map fun after => ([], after)

end Nesting

namespace Run

/-- The pieces between the outermost commas, trimmed, without the empty ones.  So neither an
empty text nor a trailing comma makes a piece. -/
def splitAtCommas (rs : List Run) : List (List Run) :=
  ((Nesting.outermost.pieces rs).map trim).filter fun p => !p.isEmpty

/-- Cut at the first `word` outside brackets. -/
def cutAtFirst (word : Text) (rs : List Run) : Option (List Run × List Run) :=
  Nesting.outermost.cutAtFirst word rs

/-- Cut at the last `word` outside brackets. -/
def cutAtLast (word : Text) (rs : List Run) : Option (List Run × List Run) :=
  Nesting.outermost.cutAtLast word rs

/-- Cut at the first code character `c`, however deep. -/
def cutAtChar (c : Char) : List Run → Option (List Run × List Run)
  | [] => none
  | r :: rs => if r.isChar c then some ([], rs) else (cutAtChar c rs).map fun p => (r :: p.1, p.2)

/-- Behind an opening bracket with `depth` more brackets open: what stands before the closing
bracket, and what follows it. -/
def enclosedFrom (depth : Nat) (afterEquals : Bool) : List Run → Option (List Run × List Run)
  | [] => none
  | r :: rs =>
    match (r.shift afterEquals).within depth with
    | none => some ([], rs)
    | some d => (enclosedFrom d (r.isChar '=') rs).map fun p => (r :: p.1, p.2)

/-- Behind an opening bracket: what it encloses, and what follows the closing bracket. -/
def enclosed (rs : List Run) : Option (List Run × List Run) :=
  enclosedFrom 0 false rs

/-- What stands between the bracket `c` in front and the bracket that closes it, when that is
the last run. -/
def wrapped (c : Char) : List Run → Option (List Run)
  | [] => none
  | r :: rs =>
    if r.isChar c then
      match enclosed rs with
      | some (inner, []) => some inner
      | _ => none
    else none

end Run

/-- The pieces of a text between its outermost commas. -/
def splitAtCommas (t : Text) : List Text :=
  (Run.splitAtCommas (runs t)).map Run.join

/-- Whether `c` is an opening bracket. -/
def isOpeningBracket (c : Char) : Bool :=
  c == '(' || c == '[' || c == '{' || c == '<'

/-- The piece of a text that the opening bracket in front encloses. -/
def bracketed (t : Text) : Option Text :=
  match t with
  | [] => none
  | c :: rest =>
    if isOpeningBracket c then (Run.enclosed (runs rest)).map fun p => Run.join p.1 else none

/-- The offset of the bracket that closes the one at byte `offset`. -/
def closingOffset (t : Text) (offset : Nat) : Option Nat :=
  (Text.cutAt? offset t).bind fun p =>
    (bracketed p.2).map fun inner => offset + 1 + Text.size inner

/-! ## Parts are no longer than the whole -/

namespace Nesting

theorem length_dropCode? {word : Text} {rs after : List Run} (h : dropCode? word rs = some after) :
    after.length + word.length = rs.length := by
  fun_induction dropCode? word rs with
  | case1 => simp_all
  | case2 c word rs ih => have := ih h; simp only [List.length_cons]; omega
  | case3 => simp at h
  | case4 => simp at h

theorem length_cutAtFirst {word : Text} {n : Nesting} {rs a b : List Run}
    (h : n.cutAtFirst word rs = some (a, b)) : a.length + word.length + b.length = rs.length := by
  induction rs generalizing n a b with
  | nil => simp [cutAtFirst] at h
  | cons r rs ih =>
      simp only [cutAtFirst] at h
      split at h
      · next after hd =>
          split at hd
          · simp only [Option.some.injEq, Prod.mk.injEq] at h
            have := length_dropCode? hd
            rw [← h.1, ← h.2]
            simp only [List.length_nil, List.length_cons] at this ⊢
            omega
          · simp at hd
      · simp only [Option.map_eq_some_iff] at h
        obtain ⟨⟨a', b'⟩, hp, he⟩ := h
        simp only [Prod.mk.injEq] at he
        have := ih hp
        rw [← he.1, ← he.2]
        simp only [List.length_cons]
        omega

theorem length_cutAtLast {word : Text} {n : Nesting} {rs a b : List Run}
    (h : n.cutAtLast word rs = some (a, b)) : a.length + word.length + b.length = rs.length := by
  induction rs generalizing n a b with
  | nil => simp [cutAtLast] at h
  | cons r rs ih =>
      simp only [cutAtLast] at h
      split at h
      · next p hp =>
          simp only [Option.some.injEq, Prod.mk.injEq] at h
          have := ih (a := p.1) (b := p.2) hp
          rw [← h.1, ← h.2]
          simp only [List.length_cons]
          omega
      · simp only [Option.map_eq_some_iff, Prod.mk.injEq] at h
        obtain ⟨after, hd, ha, hb⟩ := h
        split at hd
        · have := length_dropCode? hd
          rw [← ha, ← hb]
          simp only [List.length_nil, List.length_cons] at this ⊢
          omega
        · simp at hd

theorem length_of_mem_pieces {n : Nesting} {rs p : List Run} (h : p ∈ n.pieces rs) :
    p.length ≤ rs.length := by
  induction rs generalizing n p with
  | nil => simp_all [pieces]
  | cons r rs ih =>
      simp only [pieces] at h
      split at h
      · simp only [List.mem_cons] at h
        rcases h with rfl | h
        · simp
        · exact Nat.le_succ_of_le (ih h)
      · split at h
        · simp_all
        · next q qs hq =>
            simp only [List.mem_cons] at h
            rcases h with rfl | h
            · have := ih (n := n.behind r) (p := q) (by simp [hq])
              simp only [List.length_cons]
              omega
            · exact Nat.le_succ_of_le (ih (n := n.behind r) (by simp [hq, h]))

end Nesting

namespace Run

theorem length_of_mem_splitAtCommas {rs p : List Run} (h : p ∈ splitAtCommas rs) :
    p.length ≤ rs.length := by
  simp only [splitAtCommas, List.mem_filter, List.mem_map] at h
  obtain ⟨⟨q, hq, rfl⟩, _⟩ := h
  exact Nat.le_trans (length_trim_le q) (Nesting.length_of_mem_pieces hq)

theorem length_cutAtChar {c : Char} {rs a b : List Run} (h : cutAtChar c rs = some (a, b)) :
    a.length + 1 + b.length = rs.length := by
  induction rs generalizing a b with
  | nil => simp [cutAtChar] at h
  | cons r rs ih =>
      simp only [cutAtChar] at h
      split at h
      · simp only [Option.some.injEq, Prod.mk.injEq] at h
        rw [← h.1, ← h.2]
        simp only [List.length_nil, List.length_cons]
        omega
      · simp only [Option.map_eq_some_iff, Prod.mk.injEq] at h
        obtain ⟨⟨a', b'⟩, hp, ha, hb⟩ := h
        have := ih hp
        rw [← ha, ← hb]
        simp only [List.length_cons]
        omega

theorem length_enclosedFrom {d : Nat} {e : Bool} {rs a b : List Run}
    (h : enclosedFrom d e rs = some (a, b)) : a.length + 1 + b.length = rs.length := by
  induction rs generalizing d e a b with
  | nil => simp [enclosedFrom] at h
  | cons r rs ih =>
      simp only [enclosedFrom] at h
      split at h
      · simp only [Option.some.injEq, Prod.mk.injEq] at h
        rw [← h.1, ← h.2]
        simp only [List.length_nil, List.length_cons]
        omega
      · simp only [Option.map_eq_some_iff, Prod.mk.injEq] at h
        obtain ⟨⟨a', b'⟩, hp, ha, hb⟩ := h
        have := ih hp
        rw [← ha, ← hb]
        simp only [List.length_cons]
        omega

theorem length_enclosed {rs a b : List Run} (h : enclosed rs = some (a, b)) :
    a.length + 1 + b.length = rs.length :=
  length_enclosedFrom h

end Run

end ScriptSurvey
