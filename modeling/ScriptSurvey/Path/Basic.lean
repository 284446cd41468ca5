import ScriptSurvey.Text.Blank

/-!
# Paths

Paths and module specifiers: texts cut into segments by `/`.  They may name files of a disk or
entries of a tree that exists only in memory, so everything here is about their spelling.

A backslash separates segments too wherever a path is cut into a directory and a name, and
`normalize` turns it into `/`.
-/

namespace ScriptSurvey.Path

/-! ## Separators and roots -/

/-- Whether `c` separates segments. -/
def isSeparator (c : Char) : Bool :=
  c == '/' || c == '\\'

/-- The path with `/` for every backslash. -/
def unifySeparators (path : Text) : Text :=
  path.map fun c => if c = '\\' then '/' else c

/-- Whether the path starts at a root: at `/`, or at a drive letter with a separator. -/
def isRooted : Text → Bool
  | '/' :: _ => true
  | drive :: ':' :: c :: _ => drive.isAlpha && isSeparator c
  | _ => false

/-- Whether the last character is a separator. -/
def endsInSeparator (path : Text) : Bool :=
  match path.getLast? with
  | some c => isSeparator c
  | none => false

/-- The path with a separator at its end. -/
def withSeparator (path : Text) : Text :=
  if endsInSeparator path then path else path ++ ['/']

/-- The path without the separator at its end; a path of one character stays as it is. -/
def withoutSeparator (path : Text) : Text :=
  if 1 < path.length && endsInSeparator path then path.dropLast else path

/-! ## Segments -/

/-- The segments of a path, with the empty ones. -/
def segments (path : Text) : List Text :=
  path.splitOn '/'

/-- The stack of segments, innermost first, after one more segment.  A `..` goes up one level;
at the root it does nothing, and in front of any name it is kept. -/
def enter (rooted : Bool) (stack : List Text) (segment : Text) : List Text :=
  if segment = [] ∨ segment = ['.'] then stack
  else if segment = ['.', '.'] then
    match stack with
    | [] => if rooted then [] else [segment]
    | last :: outer => if last = ['.', '.'] then (if rooted then stack else segment :: stack) else outer
  else segment :: stack

/-- The segments that remain when `.` and `..` are carried out. -/
def resolvedSegments (rooted : Bool) (path : Text) : List Text :=
  ((segments path).foldl (enter rooted) []).reverse

/-- One spelling for paths that lead the same way: `/` for every separator, no empty segment, no
`.`, and `..` only in front.  A leading `./` stays, so that a relative specifier stays one. -/
def normalize (path : Text) : Text :=
  let path := unifySeparators path
  if path = [] then []
  else
    let rooted := path.head? == some '/'
    let joined := List.intercalate ['/'] (resolvedSegments rooted path)
    if rooted then '/' :: joined
    else if joined = [] then ['.']
    else if (List.isPrefixOf ['.', '/'] path || path == ['.']) && !List.isPrefixOf ['.', '.'] joined then
      ['.', '/'] ++ joined
    else joined

/-- The path `relative`, as seen from `base`. -/
def combine (base relative : Text) : Text :=
  if isRooted relative || base.isEmpty then relative else withSeparator base ++ relative

/-! ## Directory, name and extension -/

/-- The part in front of the last separator; `/` for what is directly below the root. -/
def directory (path : Text) : Text :=
  match Text.cutAtLast isSeparator path with
  | none => []
  | some ([], _) => path.take 1
  | some (front, _) => front

/-- The part behind the last separator. -/
def base (path : Text) : Text :=
  match Text.cutAtLast isSeparator path with
  | none => path
  | some (_, name) => name

/-- The extension of the name, with its dot.  A dot in front of the name begins none. -/
def extension? (path : Text) : Option Text :=
  match Text.cutAtLast (· == '.') (base path) with
  | some (_ :: _, ext) => some ('.' :: ext)
  | _ => none

/-- Whether the extension is one of `extensions`, in upper or lower case. -/
def hasExtension (extensions : List Text) (path : Text) : Bool :=
  match extension? path with
  | none => false
  | some ext => extensions.any fun e => Text.toLower e == Text.toLower ext

/-- The path without its extension. -/
def withoutExtension (path : Text) : Text :=
  match extension? path with
  | none => path
  | some ext => path.take (path.length - ext.length)

end ScriptSurvey.Path
