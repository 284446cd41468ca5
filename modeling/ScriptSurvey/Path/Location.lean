import ScriptSurvey.Path.Basic

/-!
# Where paths lie on a disk

Paths as a disk understands them: only `/` separates segments, a path may be joined to a
directory, and every path but a root and the empty path has a parent.
-/

namespace ScriptSurvey.Path

/-- The place of `path`, as seen from a directory. -/
def join (directory path : Text) : Text :=
  if List.isPrefixOf ['/'] path || directory.isEmpty then path
  else if Text.endsIn '/' directory then directory ++ path
  else directory ++ ['/'] ++ path

/-- A path written backwards, without separators and `.` segments in front; a root stays. -/
def dropEmptySegments : Text → Text
  | [] => []
  | '/' :: [] => ['/']
  | '/' :: c :: t => dropEmptySegments (c :: t)
  | '.' :: '/' :: t => dropEmptySegments ('/' :: t)
  | c :: t => c :: t
termination_by t => t.length

/-- The path without its last segment. -/
def parent? (path : Text) : Option Text :=
  match dropEmptySegments path.reverse with
  | [] => none
  | ['/'] => none
  | t => some (dropEmptySegments (t.dropWhile (· != '/'))).reverse

/-- The path, its parent, and so on up to a root or the empty path. -/
def ancestors (path : Text) : List Text :=
  match parent? path with
  | none => [path]
  | some p => if p.length < path.length then path :: ancestors p else [path]
termination_by path.length

end ScriptSurvey.Path
