import ScriptSurvey.Path.Basic

/-!
# Directory listings

Modules are found by looking at the entries of directories, which a *lister* supplies.  A lister
may be any action: a look into a tree in memory, or at a disk.  A listing that fails is `none`.

A *file tree* is a lister made of paths: a directory exists when a file was added somewhere
below it.  Its directories are kept under one spelling each, and entries in the order in which
their names first came up.
-/

namespace ScriptSurvey

/-- A name in a directory.  It may stand for a file, a directory, both or neither. -/
structure Entry where
  name : Text
  isFile : Bool
  isDirectory : Bool
deriving DecidableEq, Repr

namespace Entry

/-- A file. -/
def file (name : Text) : Entry := ⟨name, true, false⟩

/-- A directory. -/
def directory (name : Text) : Entry := ⟨name, false, true⟩

/-- The entry, standing for all that either entry stands for. -/
def merge (e e' : Entry) : Entry :=
  ⟨e.name, e.isFile || e'.isFile, e.isDirectory || e'.isDirectory⟩

/-- Whether there is a file of that name. -/
def hasFile (name : Text) (es : List Entry) : Bool :=
  es.any fun e => e.isFile && e.name == name

/-- Whether there is a directory of that name. -/
def hasDirectory (name : Text) (es : List Entry) : Bool :=
  es.any fun e => e.isDirectory && e.name == name

/-- The entries with one more, merged with that of its name if there is one. -/
def insert (e : Entry) : List Entry → List Entry
  | [] => [e]
  | d :: ds => if d.name = e.name then d.merge e :: ds else d :: insert e ds

end Entry

/-- A source of directory listings.  The empty path is the current directory. -/
abbrev Lister (m : Type → Type) := Text → m (Option (List Entry))

namespace Path

/-- The directory of a path, the directory of that, and so on, as long as they get shorter. -/
def enclosing (path : Text) : List Text :=
  if (directory path).length < path.length then directory path :: enclosing (directory path)
  else []
termination_by path.length

/-- Whether a directory has a name of its own, and so is an entry of another. -/
def isNamed (path : Text) : Bool :=
  !path.isEmpty && path != ['/'] && path != ['.']

/-- The path without `./` in front; the current directory is the empty path. -/
def withoutMarker (path : Text) : Text :=
  match List.isPrefixOf? ['.', '/'] path with
  | some rest => rest
  | none => if path = ['.'] then [] else path

end Path

/-- A tree of files in memory: the entries of each directory, under its key. -/
structure FileTree where
  directories : List (Text × List Entry)
deriving DecidableEq, Repr

namespace FileTree

/-- The tree without files. -/
def empty : FileTree := ⟨[]⟩

/-- The key of a directory, given a normalized path. -/
def key (directory : Text) : Text :=
  Path.withoutMarker (Path.withoutSeparator directory)

/-- The directories with one more entry in the one of the given key. -/
def insertAt (k : Text) (e : Entry) : List (Text × List Entry) → List (Text × List Entry)
  | [] => [(k, [e])]
  | (k', es) :: rest =>
    if k' = k then (k', e.insert es) :: rest else (k', es) :: insertAt k e rest

/-- The tree with one more entry in a directory. -/
def insert (directory : Text) (e : Entry) (t : FileTree) : FileTree :=
  ⟨insertAt (key directory) e t.directories⟩

/-- The tree with one more file, and with the directories that it is in. -/
def add (path : Text) (t : FileTree) : FileTree :=
  let path := Path.normalize path
  let name := Path.base path
  if name.isEmpty || name == ['.'] then t
  else
    ((Path.enclosing path).takeWhile Path.isNamed).foldl
      (fun t d => t.insert (Path.directory d) (.directory (Path.base d)))
      (t.insert (Path.directory path) (.file name))

/-- The tree of some files, added in order. -/
def ofFiles (paths : List Text) : FileTree :=
  paths.foldl (fun t p => t.add p) empty

/-- The entries of a directory, however it is spelled. -/
def list? (directory : Text) (t : FileTree) : Option (List Entry) :=
  t.directories.lookup (key (Path.normalize directory))

/-- The words for a directory that cannot be listed. -/
def missingMessage (directory : Text) : Text :=
  "no such directory: ".toList ++ directory

end FileTree

/-- A tree that counts how many listings it has served. -/
structure CountedTree where
  tree : FileTree
  served : Nat
deriving DecidableEq, Repr

/-- A listing of a tree that counts it, whether it succeeds or not. -/
def CountedTree.list? (directory : Text) (c : CountedTree) : Option (List Entry) × CountedTree :=
  (c.tree.list? directory, { c with served := c.served + 1 })

end ScriptSurvey
