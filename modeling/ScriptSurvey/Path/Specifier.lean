import ScriptSurvey.Path.Basic

/-!
# Module specifiers

The path of a module, as an importing file spells it, is relative to that file when it begins
with a marker: `./`, `../` or `/`.  Any other specifier names a package, a network location or,
in a style sheet, a file whose marker is missing.
-/

namespace ScriptSurvey.Path

/-- Whether a specifier is relative to the importing file. -/
def isRelative (specifier : Text) : Bool :=
  specifier == ['.'] || specifier == ['.', '.'] || List.isPrefixOf ['.', '/'] specifier ||
    List.isPrefixOf ['.', '.', '/'] specifier || List.isPrefixOf ['/'] specifier

/-- Whether a specifier names a network location: `http://`, `https://`, in any case, or `//`. -/
def isNetwork (specifier : Text) : Bool :=
  let lower := Text.toLower (Text.trimStart specifier)
  List.isPrefixOf "http://".toList lower || List.isPrefixOf "https://".toList lower ||
    List.isPrefixOf ['/', '/'] lower

/-- The specifier with a marker in front. -/
def withMarker (specifier : Text) : Text :=
  if isRelative specifier then specifier else ['.', '/'] ++ specifier

/-- The path of the module that `specifier` names in the file `importer`. -/
def resolveFrom (importer specifier : Text) : Text :=
  normalize (combine (directory (unifySeparators importer)) specifier)

/-- The segments that tell two normalized paths apart. -/
def namedSegments (path : Text) : List Text :=
  (segments (normalize path)).filter fun s => !s.isEmpty && s != ['.']

/-- Two lists without their common front part. -/
def dropCommon : List Text → List Text → List Text × List Text
  | a :: as, b :: bs => if a = b then dropCommon as bs else (a :: as, b :: bs)
  | as, bs => (as, bs)

/-- The specifier that leads from the directory `start` to `target`: up to where the two paths
part, and down from there. -/
def relativeFrom (start target : Text) : Text :=
  let (up, down) := dropCommon (namedSegments start) (namedSegments target)
  let joined := List.intercalate ['/'] (up.map (fun _ => ['.', '.']) ++ down)
  if joined.isEmpty then ['.'] else withMarker joined

/-- A package name and the path inside the package.  The name of a scoped package, one that
begins with `@`, has two segments. -/
def splitPackage (specifier : Text) : Text × Text :=
  let isSlash := fun c : Char => c == '/'
  match Text.cutAtFirst isSlash specifier with
  | none => (specifier, [])
  | some (name, inner) =>
    if List.isPrefixOf ['@'] specifier then
      match Text.cutAtFirst isSlash inner with
      | none => (specifier, [])
      | some (second, inner) => (name ++ ['/'] ++ second, inner)
    else (name, inner)

end ScriptSurvey.Path
