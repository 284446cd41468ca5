import ScriptSurvey.Resolution.Listing

/-!
# Resolving modules to files

A specifier leaves out the extension of its file, or names a directory and means a file in it.
The candidates are tried in this order:

1. the specifier with each of the extensions;
2. the specifier as it stands;
3. the index file with each of the extensions, in the directory of that name.

A specifier that ends in `/`, or whose last segment is `.` or `..`, names a directory outright,
and only the third group is tried.

In one pass no directory is listed twice: listings are kept under one spelling of the directory.
-/

namespace ScriptSurvey

/-- The extensions to try, in order, and the name of index files without its extension. -/
structure ProbeOrder where
  extensions : List Text
  indexFile : Text
deriving DecidableEq, Repr

namespace ProbeOrder

/-- The order used when none is given. -/
def standard : ProbeOrder where
  extensions := [".ts".toList, ".tsx".toList, ".js".toList, ".jsx".toList]
  indexFile := "index".toList

/-- A name with each of the extensions. -/
def extend (order : ProbeOrder) (name : Text) : List Text :=
  order.extensions.map (name ++ ·)

/-- The names of index files. -/
def indexNames (order : ProbeOrder) : List Text :=
  order.extend order.indexFile

end ProbeOrder

/-- A module that is no file, with all paths that were tried. -/
structure Unresolved where
  specifier : Text
  candidates : List Text
deriving DecidableEq, Repr

/-- The words for a module that is no file. -/
def Unresolved.message (u : Unresolved) : Text :=
  "cannot resolve module '".toList ++ u.specifier ++ "' (tried ".toList ++
    Text.commaJoin u.candidates ++ [')']

/-! ## Listings of one pass -/

/-- The listings fetched so far, each under the key of its directory. -/
structure Listings where
  known : List (Text × Option (List Entry))
deriving DecidableEq, Repr

namespace Listings

/-- No listings. -/
def empty : Listings := ⟨[]⟩

/-- One spelling for each directory: the current directory is empty, and `./x` is `x`. -/
def key (directory : Text) : Text :=
  Path.withoutMarker (Path.normalize directory)

/-- The entries of a directory, listed when it comes up first.  One that cannot be listed has no
entries. -/
def entries {m : Type → Type} [Monad m] (lister : Lister m) (directory : Text) :
    StateT Listings m (List Entry) := do
  match (← get).known.lookup (key directory) with
  | some listing => pure (listing.getD [])
  | none =>
    let listing ← lister directory
    modify fun l => ⟨l.known ++ [(key directory, listing)]⟩
    pure (listing.getD [])

end Listings

/-! ## One specifier -/

/-- A specifier taken apart: the path it stands for, that path's directory and name, and whether
it names a directory outright. -/
structure Target where
  path : Text
  directory : Text
  name : Text
  isDirectory : Bool
deriving DecidableEq, Repr

namespace Target

/-- The parts of a specifier. -/
def ofSpecifier (specifier : Text) : Target :=
  let path := Path.withoutSeparator specifier
  let name := Path.base path
  { path
    directory := Path.directory path
    name
    isDirectory :=
      specifier.getLast? == some '/' || name.isEmpty || name == ['.'] || name == ['.', '.'] }

/-- A name in a directory. -/
def within (directory name : Text) : Text :=
  if directory.isEmpty then name else Path.combine directory name

/-- The paths of files that the specifier itself may stand for. -/
def fileCandidates (order : ProbeOrder) (t : Target) : List Text :=
  (order.extend t.name).map (within t.directory) ++ [t.path]

/-- The paths of index files in the directory that the specifier may stand for. -/
def indexCandidates (order : ProbeOrder) (t : Target) : List Text :=
  order.indexNames.map (within t.path)

/-- The file that the specifier itself stands for, given the entries of its directory. -/
def file? (order : ProbeOrder) (es : List Entry) (t : Target) : Option Text :=
  ((order.extend t.name ++ [t.name]).find? fun n => Entry.hasFile n es).map (within t.directory)

/-- The index file in the directory that the specifier stands for, given its entries. -/
def index? (order : ProbeOrder) (es : List Entry) (t : Target) : Option Text :=
  (order.indexNames.find? fun n => Entry.hasFile n es).map (within t.path)

end Target

section

variable {m : Type → Type} [Monad m]

/-- The index file of a directory, after `tried` were tried in vain. -/
def resolveIndex (order : ProbeOrder) (lister : Lister m) (specifier : Text) (t : Target)
    (tried : List Text) : StateT Listings m (Except Unresolved Text) := do
  let es ← Listings.entries lister t.path
  match t.index? order es with
  | some path => pure (.ok path)
  | none => pure (.error ⟨specifier, tried ++ t.indexCandidates order⟩)

/-- The file of a specifier, with the listings of the pass at hand. -/
def resolveIn (order : ProbeOrder) (lister : Lister m) (specifier : Text) :
    StateT Listings m (Except Unresolved Text) := do
  let t := Target.ofSpecifier specifier
  if t.isDirectory then resolveIndex order lister specifier t []
  else
    let es ← Listings.entries lister t.directory
    match t.file? order es with
    | some path => pure (.ok path)
    | none =>
      if Entry.hasDirectory t.name es then
        resolveIndex order lister specifier t (t.fileCandidates order)
      else pure (.error ⟨specifier, t.fileCandidates order⟩)

/-- The file of a single specifier. -/
def resolve (order : ProbeOrder) (lister : Lister m) (specifier : Text) :
    m (Except Unresolved Text) :=
  (resolveIn order lister specifier).run' Listings.empty

/-! ## Many specifiers -/

/-- What became of many specifiers: the file of each one that has a file, and the rest. -/
structure Resolution where
  resolved : List (Text × Text)
  unresolved : List Unresolved
deriving DecidableEq, Repr

namespace Resolution

/-- Nothing resolved yet. -/
def empty : Resolution := ⟨[], []⟩

/-- The file of a specifier. -/
def get? (specifier : Text) (r : Resolution) : Option Text :=
  r.resolved.lookup specifier

/-- The outcome with that of one more specifier. -/
def add (specifier : Text) (outcome : Except Unresolved Text) (r : Resolution) : Resolution :=
  match outcome with
  | .ok path => { r with resolved := r.resolved ++ [(specifier, path)] }
  | .error u => { r with unresolved := r.unresolved ++ [u] }

end Resolution

/-- The keys of the directories that the specifiers are in, each once. -/
def parentKeys (specifiers : List Text) : List Text :=
  (specifiers.map fun s => Listings.key (Path.directory (Path.withoutSeparator s))).eraseDups

/-- The files of many specifiers, each resolved once.  The directories they are in are listed
first, one after another; only the search for an index file lists more. -/
def resolveMany (order : ProbeOrder) (lister : Lister m) (specifiers : List Text) :
    m Resolution :=
  StateT.run'
    (do
      (parentKeys specifiers).forM fun directory => discard (Listings.entries lister directory)
      specifiers.eraseDups.foldlM
        (fun r specifier => return r.add specifier (← resolveIn order lister specifier))
        Resolution.empty)
    Listings.empty

end

end ScriptSurvey
