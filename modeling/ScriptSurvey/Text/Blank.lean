import ScriptSurvey.Text.Basic

/-!
# Blanks

Two notions of white space are in use.  *Blank* characters are those of Unicode's `White_Space`;
they are trimmed from names and paths.  *White space* in source text is wider by the byte order
mark, which may stand wherever a comment may.
-/

namespace ScriptSurvey.Text

/-- Whether `c` has the property `White_Space`. -/
def isBlank (c : Char) : Bool :=
  let n := c.toNat
  (9 ≤ n && n ≤ 13) || n == 0x20 || n == 0x85 || n == 0xA0 || n == 0x1680 ||
    (0x2000 ≤ n && n ≤ 0x200A) || n == 0x2028 || n == 0x2029 || n == 0x202F || n == 0x205F ||
    n == 0x3000

/-- Whether `c` is white space in source text: a blank or the byte order mark. -/
def isWhiteSpace (c : Char) : Bool :=
  isBlank c || c == '\uFEFF'

/-- Whether `c` ends a line in source text. -/
def isLineBreak (c : Char) : Bool :=
  c == '\n' || c == '\r' || c == '\u2028' || c == '\u2029'

/-- The text without leading blanks. -/
def trimStart (t : Text) : Text :=
  t.dropWhile isBlank

/-- The text without trailing blanks. -/
def trimEnd (t : Text) : Text :=
  dropWhileEnd isBlank t

/-- The text without leading and trailing blanks. -/
def trim (t : Text) : Text :=
  trimEnd (trimStart t)

/-- Whether the text holds blanks only. -/
def isAllBlank (t : Text) : Bool :=
  t.all isBlank

/-- The pieces between runs of blanks, none of them empty. -/
def words (t : Text) : List Text :=
  (t.splitOnP isBlank).filter fun w => !w.isEmpty

end ScriptSurvey.Text
