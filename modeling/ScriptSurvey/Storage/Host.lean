import ScriptSurvey.Path.Location
import ScriptSurvey.Survey

/-!
# Hosts

What a survey needs of the machine it runs on: to read files, to list directories, and to know
the directory it was started in.  A host may be a disk, or a value that stands for one.

The configuration of a project is the file of a fixed name in the nearest directory above it
that has one.
-/

namespace ScriptSurvey

/-- Access to files. -/
structure Host (m : Type → Type) where
  /-- The directory that relative paths start from, by its absolute path. -/
  workingDirectory : Text
  /-- The text of a file; there is none when it cannot be read or is not UTF-8. -/
  read : Text → m (Option Text)
  /-- Whether a path leads to a file. -/
  isFile : Text → m Bool
  /-- The entries of a directory. -/
  list : Lister m

/-- A file that cannot be read. -/
structure Unreadable where
  path : Text
deriving DecidableEq, Repr

/-- The words for a file that cannot be read. -/
def Unreadable.message (u : Unreadable) : Text :=
  (Settings.Error.unreadable u.path).message

namespace Host

variable {m : Type → Type} [Monad m]

/-- The name of configuration files. -/
def settingsName : Text := "srcweave.json".toList

/-- The settings in a file. -/
def loadSettings (host : Host m) (path : Text) : m (Except Settings.Error Settings) := do
  match ← host.read path with
  | none => return .error (.unreadable path)
  | some t => return Settings.parse t

/-- The settings in the first of some directories that has a configuration file. -/
def settingsAmong (host : Host m) : List Text → m (Except Settings.Error Settings)
  | [] => return .ok Settings.standard
  | directory :: rest => do
    let path := Path.join directory settingsName
    if ← host.isFile path then host.loadSettings path else host.settingsAmong rest

/-- The settings of the nearest configuration file in a directory or above it. -/
def findSettings (host : Host m) (directory : Text) : m (Except Settings.Error Settings) :=
  host.settingsAmong (Path.ancestors directory)

/-- The settings in a given file or, without one, those found from a directory. -/
def settings (host : Host m) (file? : Option Text) (directory : Text) :
    m (Except Settings.Error Settings) :=
  match file? with
  | some path => host.loadSettings path
  | none => host.findSettings directory

/-- The source files of the given paths, up to the first that cannot be read. -/
def loadSources (host : Host m) : List Text → m (List SourceFile × Option Unreadable)
  | [] => return ([], none)
  | path :: rest => do
    match ← host.read path with
    | none => return ([], some ⟨path⟩)
    | some text =>
      let (sources, unreadable) ← host.loadSources rest
      return (⟨path, text⟩ :: sources, unreadable)

end Host

end ScriptSurvey
