import ScriptSurvey.Lexical.Cursor
import ScriptSurvey.Text.Identifier

/-!
# Keywords and quoted names

The two things that the readers of import declarations look for in code: a keyword that is a
word of its own, and a quoted string that is really closed.
-/

namespace ScriptSurvey

namespace Cursor

/-- Whether the keyword stands at the cursor, as a whole word.  A word behind `.` or `@` is a
member or a rule. -/
def atKeyword (word : Text) (c : Cursor) : Bool :=
  match List.isPrefixOf? word c.rest with
  | none => false
  | some after =>
    (match c.passed with
      | [] => true
      | d :: _ => !Text.isIdentifierPart d && d != '.' && d != '@') &&
    (match after with
      | [] => true
      | d :: _ => !Text.isIdentifierPart d)

end Cursor

/-- Whether the text ends in a single backslash. -/
def endsInLoneBackslash (t : Text) : Bool :=
  match t.reverse with
  | '\\' :: '\\' :: _ => false
  | '\\' :: _ => true
  | _ => false

/-- Whether a text begins with a quote. -/
def startsQuoted : Text → Bool
  | c :: _ => c == '\'' || c == '"'
  | [] => false

/-- The contents of the quoted string in front, and what follows it.  The string has to be closed
by its own quote on its own line. -/
def readQuoted? : Text → Option (Text × Text)
  | [] => none
  | c :: t =>
    let s := Step.first c t
    match s.run with
    | .literal kind (quote :: body) =>
      let contents := body.dropLast
      if kind.endsAtLineFeed && !s.isOpen && body.getLast? == some quote &&
          !endsInLoneBackslash contents then
        some (contents, s.rest)
      else none
    | _ => none

end ScriptSurvey
