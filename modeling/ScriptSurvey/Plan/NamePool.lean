import ScriptSurvey.Path.Specifier

/-!
# Name pools

Local names that must not meet.  A pool knows the names taken, and hands out a free one close to
the one wanted: the name itself, then the name with a suffix made from its module, then the name
with the first number that is free.  Among the first numbers, one more than there are names
taken, one is always free.
-/

namespace ScriptSurvey

/-- The names taken, each once. -/
structure NamePool where
  taken : List Text
deriving DecidableEq, Repr

namespace NamePool

/-- No names. -/
def empty : NamePool := ⟨[]⟩

/-- Whether a name is taken. -/
def isTaken (name : Text) (p : NamePool) : Bool :=
  p.taken.contains name

/-- The pool with a name taken. -/
def take (name : Text) (p : NamePool) : NamePool :=
  if p.isTaken name then p else ⟨p.taken ++ [name]⟩

/-- The pool in which the given names are taken. -/
def ofReserved (names : List Text) : NamePool :=
  names.foldl (fun p name => p.take name) empty

/-- The number of names taken. -/
def size (p : NamePool) : Nat := p.taken.length

/-- A name with a number behind it. -/
def numbered (base : Text) (k : Nat) : Text :=
  base ++ Text.ofNat k

/-- The least number from one on that makes a free name. -/
def leastFree (base : Text) (p : NamePool) : Nat :=
  ((List.range' 1 (p.size + 1)).find? fun k => !p.isTaken (numbered base k)).getD (p.size + 1)

/-- Take the first free name of `base1`, `base2` and so on. -/
def claimNumbered (base : Text) (p : NamePool) : Text × NamePool :=
  let name := numbered base (p.leastFree base)
  (name, p.take name)

/-- Take a name, or the first free one with a number. -/
def claim (name : Text) (p : NamePool) : Text × NamePool :=
  if p.isTaken name then p.claimNumbered name else (name, p.take name)

/-- Whether a name is `lib` and a number. -/
def isNumberedLibrary (name : Text) : Bool :=
  match List.isPrefixOf? "lib".toList name with
  | none => false
  | some digits => !digits.isEmpty && digits.all Char.isDigit

/-- The part of a module path that tells the module apart: the name of a file without its
extension, or the package. -/
def moduleName (module : Text) : Text :=
  let module := Path.withoutSeparator module
  if Path.isRelative module || Path.isRooted module || Path.isNetwork module then
    Path.withoutExtension (Path.base module)
  else (Path.splitPackage module).1

/-- The suffix that tells names of this module apart: letters and digits of the module's name, in
lower case, at most `limit` of them.  Numbered libraries have none. -/
def moduleSuffix? (limit : Nat) (module : Text) : Option Text :=
  let name := moduleName module
  if isNumberedLibrary name then none
  else
    let suffix := (Text.toLower (name.filter Char.isAlphanum)).take limit
    if suffix.isEmpty then none else some suffix

/-- A name with a suffix behind it. -/
def suffixed (name suffix : Text) : Text :=
  name ++ ['_'] ++ suffix

/-- Take a name, or that name with the suffix of its module, or the first free one with a
number. -/
def claimSuffixed (limit : Nat) (module name : Text) (p : NamePool) : Text × NamePool :=
  if p.isTaken name then
    match moduleSuffix? limit module with
    | none => p.claimNumbered name
    | some suffix =>
      if p.isTaken (suffixed name suffix) then p.claimNumbered name
      else (suffixed name suffix, p.take (suffixed name suffix))
  else (name, p.take name)

end NamePool

end ScriptSurvey
