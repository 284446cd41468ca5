import ScriptSurvey.Lexical.Run

/-!
# Trivia

White space and comments mean nothing around a piece of source text.  Here they are trimmed from
its ends and, for readers that know no comments, blanked out.
-/

namespace ScriptSurvey

namespace Run

/-- The runs without trivia at both ends. -/
def trim (rs : List Run) : List Run :=
  Text.dropWhileEnd isTrivia (rs.dropWhile isTrivia)

/-- The run, or one space in place of a comment. -/
def blankComment : Run → Run
  | comment _ _ => code ' '
  | r => r

end Run

/-- The text without leading and trailing white space and comments.  A piece of source text must
not end in a line comment: with something behind it on the line, that would be hidden. -/
def trimTrivia (t : Text) : Text :=
  Run.join (Run.trim (runs t))

/-- The text with one space in place of each comment. -/
def stripComments (t : Text) : Text :=
  Run.join ((runs t).map Run.blankComment)

namespace Run

theorem length_trim_le (rs : List Run) : (trim rs).length ≤ rs.length := by
  have h1 := (List.dropWhile_sublist isTrivia (l := rs)).length_le
  have h2 := (List.dropWhile_sublist isTrivia (l := (rs.dropWhile isTrivia).reverse)).length_le
  simp only [List.length_reverse] at h2
  simp only [trim, Text.dropWhileEnd, List.length_reverse]
  omega

end Run

end ScriptSurvey
