import ScriptSurvey.Text.Basic
import ScriptSurvey.Text.IdentifierTable

/-!
# Identifiers

Names in source text: a start character followed by part characters.  `$` and `_` count as
letters, and beyond ASCII the Unicode identifier classes decide.
-/

namespace ScriptSurvey.Text

/-- Whether `c` is an ASCII character. -/
def isAscii (c : Char) : Bool :=
  c.toNat < 128

/-- Whether `c` can start an identifier. -/
def isIdentifierStart (c : Char) : Bool :=
  c == '$' || c == '_' || c.isAlpha || (!isAscii c && identifierStartSet.contains c)

/-- Whether `c` can stand in an identifier after its first character. -/
def isIdentifierPart (c : Char) : Bool :=
  isIdentifierStart c || c.isDigit || (!isAscii c && identifierExtendSet.contains c)

/-- What can start an identifier can also continue one. -/
theorem isIdentifierPart_of_start {c : Char} (h : isIdentifierStart c = true) :
    isIdentifierPart c = true := by
  simp [isIdentifierPart, h]

/-- Whether the whole text is one identifier. -/
def isIdentifier : Text → Bool
  | [] => false
  | c :: t => isIdentifierStart c && t.all isIdentifierPart

/-- The identifier at the front and what follows it.  The front runs as far as part characters
go, and has to be an identifier as a whole. -/
def takeIdentifier? (t : Text) : Option (Text × Text) :=
  let name := t.takeWhile isIdentifierPart
  if isIdentifier name then some (name, t.dropWhile isIdentifierPart) else none

/-- The rest of a dotted path after some identifier character: more part characters, or a dot
that an identifier follows. -/
def dottedTail : Text → Text
  | '.' :: c :: t => if isIdentifierStart c then '.' :: c :: dottedTail t else []
  | c :: t => if isIdentifierPart c then c :: dottedTail t else []
  | [] => []

/-- The longest dotted path of identifiers at the front, empty when there is none. -/
def dottedPath : Text → Text
  | [] => []
  | c :: t => if isIdentifierStart c then c :: dottedTail t else []

/-- Whether the whole text is a dotted path of identifiers. -/
def isDottedPath (t : Text) : Bool :=
  (t.splitOn '.').all isIdentifier

end ScriptSurvey.Text
