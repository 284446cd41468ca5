import ScriptSurvey.Text.Basic

/-!
# Locations

Lines and columns as a reader counts them: both from one, and columns in characters.  The
location of an offset depends only on the characters that begin before it: as many line feeds
as they hold lie above its line, and those after the last line feed stand before its column.
-/

namespace ScriptSurvey

/-- A line and a column, counted from one, as words of 32 bits. -/
structure Location where
  line : UInt32
  column : UInt32
deriving DecidableEq, Repr

/-- The number that a word stands for. -/
instance Location.coeWord : Coe UInt32 Nat := ⟨UInt32.toNat⟩

namespace Location

/-- The location that a reader has come to after the characters `t`.  What is counted is cut down to a
word before one is added, and the sum wraps around: behind `2 ^ 32 - 1` line feeds the line is zero. -/
def after (t : Text) : Location where
  line := UInt32.ofNat (t.count '\n') + 1
  column := UInt32.ofNat (t.reverse.takeWhile (· != '\n')).length + 1

/-- The location of a byte offset in `t`.  Offsets past the end are at the end. -/
def locate (t : Text) (offset : Nat) : Location :=
  after (Text.beginningBefore offset t)

/-- The usual `line:column`. -/
def render (l : Location) : Text :=
  Text.ofNat l.line ++ [':'] ++ Text.ofNat l.column

end Location

/-- The number of lines of `t`; what follows the last line feed is a line, even when empty. -/
def Text.lineCount (t : Text) : Nat :=
  t.count '\n' + 1

end ScriptSurvey
