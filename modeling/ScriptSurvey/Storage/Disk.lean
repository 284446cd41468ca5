import ScriptSurvey.Storage.Host

/-!
# Disks in memory

A disk as a value: directories, files and symbolic links, each under the segments of its path
from the root.  A path is followed segment by segment: `..` leads to the directory that holds
the one reached, and a link leads to wherever its target does.  A path that runs through too many
links is a loop.
-/

namespace ScriptSurvey

/-- What a path leads to. -/
inductive DiskNode where
  /-- A file with its text; there is none when it is not UTF-8. -/
  | file (text : Option Text)
  | directory
  | link (target : Text)
deriving DecidableEq, Repr

/-- Why a path leads nowhere. -/
inductive DiskError where
  | missing
  | notDirectory
  | loop
deriving DecidableEq, Repr

/-- The nodes of a disk, each under the segments of its path.  The root has none. -/
structure Disk where
  nodes : List (List Text × DiskNode)
deriving DecidableEq, Repr

namespace Disk

/-- A disk with nothing but its root. -/
def empty : Disk := ⟨[([], .directory)]⟩

/-- The node under some segments. -/
def node? (segments : List Text) (d : Disk) : Option DiskNode :=
  d.nodes.lookup segments

/-- The disk with a node, unless there is one at its place. -/
def ensure (segments : List Text) (n : DiskNode) (d : Disk) : Disk :=
  if (d.node? segments).isSome then d else ⟨d.nodes ++ [(segments, n)]⟩

/-- The disk with the directories of all front parts of some segments. -/
def ensureDirectories (segments : List Text) (d : Disk) : Disk :=
  (List.range (segments.length + 1)).foldl (fun d n => d.ensure (segments.take n) .directory) d

/-- The disk with a node in place of what was there, and with the directories that it is in. -/
def put (path : Text) (n : DiskNode) (d : Disk) : Disk :=
  let segments := Path.resolvedSegments true path
  let d := d.ensureDirectories segments.dropLast
  ⟨d.nodes.filter (fun p => p.1 != segments) ++ [(segments, n)]⟩

/-- The disk with a directory, and with the directories that it is in. -/
def putDirectory (path : Text) (d : Disk) : Disk :=
  d.ensureDirectories (Path.resolvedSegments true path)

/-- The number of links that a path may run through. -/
def linkLimit : Nat := 40

/-- The segments of the node that a path leads to from a directory, through at most `links`
links. -/
def follow (d : Disk) (links : Nat) (here : List Text) : List Text → Except DiskError (List Text)
  | [] => .ok here
  | s :: rest =>
    if d.node? here = some .directory then
      if s = [] ∨ s = ['.'] then follow d links here rest
      else if s = ['.', '.'] then follow d links here.dropLast rest
      else
        match d.node? (here ++ [s]), links with
        | none, _ => .error .missing
        | some (.link _), 0 => .error .loop
        | some (.link target), links + 1 =>
          let start := if List.isPrefixOf ['/'] target then [] else here
          follow d links start (Path.segments target ++ rest)
        | some (.file _), links => follow d links (here ++ [s]) rest
        | some .directory, links => follow d links (here ++ [s]) rest
    else .error .notDirectory
termination_by segments => (links, segments.length)

/-- The segments of the node that an absolute path leads to. -/
def locate (d : Disk) (path : Text) : Except DiskError (List Text) :=
  d.follow linkLimit [] (Path.segments path)

/-- The node that an absolute path leads to. -/
def find (d : Disk) (path : Text) : Except DiskError DiskNode :=
  match d.locate path with
  | .error e => .error e
  | .ok segments =>
    match d.node? segments with
    | none => .error .missing
    | some n => .ok n

/-- The text of a file. -/
def read (d : Disk) (path : Text) : Option Text :=
  match d.find path with
  | .ok (.file text) => text
  | _ => none

/-- Whether a path leads to a file. -/
def isFile (d : Disk) (path : Text) : Bool :=
  match d.find path with
  | .ok (.file _) => true
  | _ => false

/-- The entry for a node in a directory.  A link is what it leads to; one that leads nowhere is
no entry. -/
def entry? (d : Disk) (here : List Text) (name : Text) : Option Entry :=
  match d.follow linkLimit here [name] with
  | .error _ => none
  | .ok segments =>
    match d.node? segments with
    | some (.file _) => some (.file name)
    | some .directory => some (.directory name)
    | _ => none

/-- The entries of a directory. -/
def list (d : Disk) (path : Text) : Except DiskError (List Entry) :=
  match d.locate path with
  | .error e => .error e
  | .ok here =>
    if d.node? here = some .directory then
      .ok (d.nodes.filterMap fun p =>
        match p.1.getLast? with
        | none => none
        | some name => if p.1.dropLast = here then d.entry? here name else none)
    else .error .notDirectory

/-- The disk as a host that was started in a directory. -/
def host (workingDirectory : Text) (d : Disk) : Host Id where
  workingDirectory
  read path := if path.isEmpty then none else d.read (Path.join workingDirectory path)
  isFile path := !path.isEmpty && d.isFile (Path.join workingDirectory path)
  list path := (d.list (Path.join workingDirectory path)).toOption

end Disk

end ScriptSurvey
