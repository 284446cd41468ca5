import ScriptSurvey.Text.Identifier
import ScriptSurvey.Text.WordTable

/-!
# Letters, digits and words

The classes behind word boundaries and behind names made of letters and digits, wherever the
identifier classes do not apply.
-/

namespace ScriptSurvey.Text

/-- Whether `c` has the property `Alphabetic`. -/
def isAlphabetic (c : Char) : Bool :=
  c.isAlpha || (!isAscii c && alphabeticSet.contains c)

/-- Whether `c` is alphabetic or a number of any kind. -/
def isAlphanumeric (c : Char) : Bool :=
  isAlphabetic c || c.isDigit || (!isAscii c && numberSet.contains c)

/-- Whether `c` belongs to a word: an alphabetic character, a mark, a decimal digit, a connector
or a joiner. -/
def isWordChar (c : Char) : Bool :=
  c.isAlphanum || c == '_' || (!isAscii c && wordSet.contains c)

/-- Whether the text is a name of letters, digits, `_` and `$` that starts with no digit. -/
def isPlainName : Text → Bool
  | [] => false
  | c :: t =>
    (isAlphabetic c || c == '_' || c == '$') &&
      t.all fun d => isAlphanumeric d || d == '_' || d == '$'

end ScriptSurvey.Text
