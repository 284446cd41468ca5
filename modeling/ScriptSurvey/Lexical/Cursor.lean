import ScriptSurvey.Lexical.Run
import ScriptSurvey.Text.Span

/-!
# Cursors

A cursor is a place in a text together with the mode a scan is in there.  It keeps the
characters it has passed, nearest first, so that a look behind is as cheap as a look ahead, and
its offset is the size of what it has passed.

A cursor moves by whole characters only.  It is in code wherever it stands, except at the end of
a text whose last comment or string is open.

`visit` walks over the code characters of a text and lets its caller decide at each of them
whether to go on, to go on further ahead, or to stop.  It never goes back, so it ends after at
most one visit to each character.
-/

namespace ScriptSurvey

/-- A place in a text, and the mode of the scan there. -/
structure Cursor where
  passed : Text
  rest : Text
  mode : Mode
deriving DecidableEq, Repr

namespace Cursor

/-- The cursor in front of a text. -/
def ofText (t : Text) : Cursor := ⟨[], t, .code⟩

/-- The whole text. -/
def text (c : Cursor) : Text := c.passed.reverse ++ c.rest

/-- The number of bytes in front of the cursor. -/
def offset (c : Cursor) : Nat := Text.size c.passed

/-- Whether nothing follows the cursor. -/
def atEnd (c : Cursor) : Bool := c.rest.isEmpty

@[simp] theorem text_ofText (t : Text) : (ofText t).text = t := rfl

@[simp] theorem offset_ofText (t : Text) : (ofText t).offset = 0 := rfl

/-! ## Moving -/

/-- The cursor `n` characters further on, in code. -/
def forward : Nat → Cursor → Cursor
  | 0, c => { c with mode := .code }
  | n + 1, c =>
    match c.rest with
    | [] => { c with mode := .code }
    | d :: t => forward n ⟨d :: c.passed, t, .code⟩

/-- The first boundary at or behind the cursor that is at least `n` bytes ahead, in code. -/
def forwardBytes (n : Nat) (passed : Text) : Text → Cursor
  | [] => ⟨passed, [], .code⟩
  | d :: t => if n = 0 then ⟨passed, d :: t, .code⟩ else forwardBytes (n - d.utf8Size) (d :: passed) t

/-- The cursor in code at the first boundary from byte `offset` on, or at the end. -/
def place (t : Text) (offset : Nat) : Cursor := forwardBytes offset [] t

/-- The cursor moved on to byte `offset`, if that lies ahead; in code either way. -/
def advanceTo (offset : Nat) (c : Cursor) : Cursor :=
  forwardBytes (offset - c.offset) c.passed c.rest

/-- The cursor in the same text, jumped to byte `offset`. -/
def jumpTo (offset : Nat) (c : Cursor) : Cursor := place c.text offset

/-- The cursor past the first run, given as the step that finds it. -/
def past (s : Step) (c : Cursor) : Cursor :=
  ⟨s.run.text.reverse ++ c.passed, s.rest, s.leaves⟩

theorem length_rest_forwardBytes (n : Nat) (p t : Text) :
    (forwardBytes n p t).rest.length ≤ t.length := by
  induction t generalizing n p with
  | nil => simp [forwardBytes]
  | cons d t ih =>
      unfold forwardBytes
      split
      · simp
      · exact Nat.le_succ_of_le (ih _ _)

/-! ## Scanning -/

/-- The next run and the cursor past it. -/
def step? (c : Cursor) : Option (Run × Cursor) :=
  match c.rest with
  | [] => none
  | d :: t => let s := Step.first d t; some (s.run, c.past s)

/-- The cursor at the next code character, or at the end. -/
def toCode (c : Cursor) : Cursor :=
  match _h : c.rest with
  | [] => c
  | d :: t => if (Step.first d t).run.mode.isCode then c else toCode (c.past (Step.first d t))
termination_by c.rest.length
decreasing_by
  have := Step.first_rest_length_le d t
  simp only [past, _h, List.length_cons]
  omega

/-- The cursor past white space and comments. -/
def skipTrivia (c : Cursor) : Cursor :=
  match _h : c.rest with
  | [] => c
  | d :: t => if (Step.first d t).run.isTrivia then skipTrivia (c.past (Step.first d t)) else c
termination_by c.rest.length
decreasing_by
  have := Step.first_rest_length_le d t
  simp only [past, _h, List.length_cons]
  omega

/-- The offset of the cursor, unless it is at the end. -/
def offset? (c : Cursor) : Option Nat :=
  if c.atEnd then none else some c.offset

/-- The offset of the next code character and the cursor past it. -/
def nextCode (c : Cursor) : Option Nat × Cursor :=
  let d := c.toCode
  (d.offset?, if d.atEnd then d else d.forward 1)

theorem length_rest_toCode (c : Cursor) : c.toCode.rest.length ≤ c.rest.length := by
  fun_induction toCode c with
  | case1 => simp
  | case2 => simp
  | case3 c d t h _ ih =>
      have := Step.first_rest_length_le d t
      simp only [past, h, List.length_cons] at ih ⊢
      omega

/-! ## Visiting the code of a text -/

/-- What to do after a visit. -/
inductive Next where
  /-- Go on behind the character visited. -/
  | onward
  /-- Go on at this offset, if it lies ahead, as in code. -/
  | resume (offset : Nat)
  | stop
deriving DecidableEq, Repr

/-- Visit the code characters from the cursor on, and collect what the visits bring. -/
def visit {α : Type} (look : Cursor → Option α × Next) (c : Cursor) : List α :=
  match _h : c.toCode.rest with
  | [] => []
  | d :: t =>
    let behind : Cursor := ⟨d :: c.toCode.passed, t, .code⟩
    let found := (look c.toCode).1.toList
    match (look c.toCode).2 with
    | .onward => found ++ visit look behind
    | .resume offset => found ++ visit look (behind.advanceTo offset)
    | .stop => found
termination_by c.rest.length
decreasing_by
  · have := length_rest_toCode c
    simp only [_h, List.length_cons] at this
    omega
  · have := length_rest_toCode c
    simp only [_h, List.length_cons] at this
    have := length_rest_forwardBytes (offset - behind.offset) behind.passed behind.rest
    simp only [behind] at this
    simp only [advanceTo]
    omega

/-- The span from the cursor up to where `rest`, an end of the text, begins. -/
def spanTo (rest : Text) (c : Cursor) : Span :=
  ⟨c.offset, c.offset + (Text.size c.rest - Text.size rest)⟩

end Cursor

/-- Visit the code characters of a text and collect what the visits bring. -/
def visitCode {α : Type} (look : Cursor → Option α × Cursor.Next) (t : Text) : List α :=
  (Cursor.ofText t).visit look

end ScriptSurvey
