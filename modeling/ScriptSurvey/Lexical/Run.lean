import ScriptSurvey.Text.Blank

/-!
# Runs

Source text falls into runs: single characters of code, comments and string literals, each with
its delimiters.  Nothing else of the languages read here is known at this level, and nothing
else is needed to look for declarations and brackets without being misled by what stands in
comments and strings.

* a line comment ends before the line feed, which is code again;
* a block comment ends after the first `*/` that follows its `/*`;
* a quoted string ends after the quote that opened it, or before a line feed;
* a template string ends after its back quote and may span lines;
* in strings, a backslash makes the next character inert.

A block comment or a string whose end is missing runs to the end of the text and is *open*.

The first run depends on what follows it only through the character after it, and not at all on
what came before: `runs` cuts off a run, and starts again on the rest.
-/

namespace ScriptSurvey

/-- The two kinds of comment. -/
inductive CommentKind where
  | line
  | block
deriving DecidableEq, Repr

/-- The three kinds of string literal. -/
inductive LiteralKind where
  | single
  | double
  | template
deriving DecidableEq, Repr

namespace LiteralKind

/-- The character that opens and closes a literal. -/
def delimiter : LiteralKind → Char
  | single => '\''
  | double => '"'
  | template => Char.ofNat 96

/-- Whether a line feed ends the literal. -/
def endsAtLineFeed : LiteralKind → Bool
  | single => true
  | double => true
  | template => false

/-- The literal that a character opens. -/
def ofDelimiter? (c : Char) : Option LiteralKind :=
  if c = single.delimiter then some single
  else if c = double.delimiter then some double
  else if c = template.delimiter then some template
  else none

end LiteralKind

/-- What a stretch of source text is. -/
inductive Mode where
  | code
  | comment (kind : CommentKind)
  | literal (kind : LiteralKind)
deriving DecidableEq, Repr

namespace Mode

/-- Whether this is code. -/
def isCode : Mode → Bool
  | code => true
  | _ => false

/-- Whether this is a comment of either kind. -/
def isComment : Mode → Bool
  | comment _ => true
  | _ => false

/-- Whether this is a string literal of any kind. -/
def isLiteral : Mode → Bool
  | literal _ => true
  | _ => false

end Mode

/-- A run of source text: one character of code, or a whole comment or literal. -/
inductive Run where
  | code (c : Char)
  | comment (kind : CommentKind) (text : Text)
  | literal (kind : LiteralKind) (text : Text)
deriving DecidableEq, Repr

namespace Run

/-- The characters of the run, delimiters included. -/
def text : Run → Text
  | code c => [c]
  | comment _ t => t
  | literal _ t => t

/-- What the run is. -/
def mode : Run → Mode
  | code _ => .code
  | comment k _ => .comment k
  | literal k _ => .literal k

/-- Whether the run only separates: a comment, or white space. -/
def isTrivia : Run → Bool
  | code c => Text.isWhiteSpace c
  | comment _ _ => true
  | literal _ _ => false

/-- The text that the runs make up. -/
def join (rs : List Run) : Text :=
  rs.flatMap text

@[simp] theorem join_nil : join [] = [] := rfl

@[simp] theorem join_cons (r : Run) (rs : List Run) : join (r :: rs) = r.text ++ join rs := rfl

@[simp] theorem join_append (rs ss : List Run) : join (rs ++ ss) = join rs ++ join ss := by
  simp [join]

end Run

/-! ## The first run of a text -/

/-- What is found behind an opening delimiter: the text up to and with the end of the construct,
the rest, and whether the end was found. -/
structure Body where
  text : Text
  rest : Text
  closed : Bool
deriving DecidableEq, Repr

namespace Body

/-- The body with one more character in front. -/
def push (c : Char) (b : Body) : Body :=
  { b with text := c :: b.text }

/-- The body of a block comment. -/
def ofBlock : Text → Body
  | [] => ⟨[], [], false⟩
  | '*' :: '/' :: t => ⟨['*', '/'], t, true⟩
  | c :: t => (ofBlock t).push c

/-- The body of a string literal. -/
def ofLiteral (kind : LiteralKind) : Text → Body
  | [] => ⟨[], [], false⟩
  | ['\\'] => ⟨['\\'], [], false⟩
  | '\\' :: c :: t => ((ofLiteral kind t).push c).push '\\'
  | c :: t =>
    if c = kind.delimiter then ⟨[c], t, true⟩
    else if c = '\n' ∧ kind.endsAtLineFeed then ⟨[], c :: t, true⟩
    else (ofLiteral kind t).push c

/-- Nothing of a block comment is lost. -/
theorem ofBlock_append (t : Text) : (ofBlock t).text ++ (ofBlock t).rest = t := by
  fun_induction ofBlock t <;> simp_all [push]

/-- Nothing of a string literal is lost. -/
theorem ofLiteral_append (kind : LiteralKind) (t : Text) :
    (ofLiteral kind t).text ++ (ofLiteral kind t).rest = t := by
  fun_induction ofLiteral kind t <;> simp_all [push]

end Body

/-- One step of a scan: the first run, what follows it, and whether the text ended before the
run did. -/
structure Step where
  run : Run
  rest : Text
  isOpen : Bool
deriving DecidableEq, Repr

namespace Step

/-- The step that a construct with a body makes. -/
def ofBody (run : Text → Run) (opener : Text) (b : Body) : Step :=
  ⟨run (opener ++ b.text), b.rest, !b.closed⟩

/-- The first step of the text `c :: t`. -/
def first (c : Char) (t : Text) : Step :=
  match c, t with
  | '/', '/' :: t =>
    ⟨.comment .line ('/' :: '/' :: t.takeWhile (· != '\n')), t.dropWhile (· != '\n'), false⟩
  | '/', '*' :: t => ofBody (.comment .block) ['/', '*'] (Body.ofBlock t)
  | c, t =>
    match LiteralKind.ofDelimiter? c with
    | some kind => ofBody (.literal kind) [c] (Body.ofLiteral kind t)
    | none => ⟨.code c, t, false⟩

/-- The mode that a scan is in after the step: that of the run when it is open. -/
def leaves (s : Step) : Mode :=
  if s.isOpen then s.run.mode else .code

/-- The run and the rest make up the text. -/
theorem first_append (c : Char) (t : Text) :
    (first c t).run.text ++ (first c t).rest = c :: t := by
  unfold first
  split
  · simp [Run.text, List.takeWhile_append_dropWhile]
  · simp [ofBody, Run.text, Body.ofBlock_append]
  · split <;> simp [ofBody, Run.text, Body.ofLiteral_append]

/-- A run is never empty. -/
theorem first_run_ne_nil (c : Char) (t : Text) : (first c t).run.text ≠ [] := by
  unfold first
  split
  · simp [Run.text]
  · simp [ofBody, Run.text]
  · split <;> simp [ofBody, Run.text]

/-- What follows the first run is shorter than the text. -/
theorem first_rest_length_le (c : Char) (t : Text) : (first c t).rest.length ≤ t.length := by
  have h := congrArg List.length (first_append c t)
  have hne := List.length_pos_iff.2 (first_run_ne_nil c t)
  simp only [List.length_append, List.length_cons] at h
  omega

end Step

/-! ## All runs of a text -/

/-- The runs of a text, in order. -/
def runs : Text → List Run
  | [] => []
  | c :: t => (Step.first c t).run :: runs (Step.first c t).rest
termination_by t => t.length
decreasing_by
  have := Step.first_rest_length_le c t
  simp only [List.length_cons]
  omega

/-- The runs of a text make up the text. -/
@[simp] theorem join_runs (t : Text) : Run.join (runs t) = t := by
  fun_induction runs t with
  | case1 => rfl
  | case2 c t ih => simp [ih, Step.first_append]

/-- The mode that a scan of the whole text ends in: code, unless the last run is open. -/
def finalMode : Text → Mode
  | [] => .code
  | c :: t =>
    let s := Step.first c t
    if s.rest.isEmpty then s.leaves else finalMode s.rest
termination_by t => t.length
decreasing_by
  have := Step.first_rest_length_le c t
  simp only [List.length_cons]
  omega

end ScriptSurvey
