import ScriptSurvey.Command.Run

/-!
# The program

The command line, run on the disk of the machine.
-/

namespace ScriptSurvey

/-- What an action gives, or nothing when it fails. -/
def attempt {α : Type} (action : IO α) : IO (Option α) :=
  try some <$> action catch _ => pure none

/-- Whether a path leads to a file, and whether to a directory. -/
def kindOnDisk (path : String) : IO (Bool × Bool) := do
  match ← attempt (IO.FS.realPath path >>= (·.metadata)) with
  | some found => return (found.type == .file, found.type == .dir)
  | none => return (false, false)

/-- The entries of a directory.  A link is what it leads to; one that leads nowhere is no
entry. -/
def listOnDisk (path : String) : IO (List Entry) := do
  let place ← IO.FS.realPath path
  let found ← (← place.readDir).toList.mapM fun e => do
    let (isFile, isDirectory) ← kindOnDisk e.path.toString
    return (⟨e.fileName.toList, isFile, isDirectory⟩ : Entry)
  return found.filter fun e => e.isFile || e.isDirectory

/-- The machine as a host. -/
def machine (workingDirectory : Text) : Host IO where
  workingDirectory
  read path := return (← attempt (IO.FS.readFile (String.ofList path))).map String.toList
  isFile path := return (← kindOnDisk (String.ofList path)).1
  list path := attempt (listOnDisk (if path.isEmpty then "." else String.ofList path))

end ScriptSurvey

open ScriptSurvey in
/-- Run the command line, and exit with its status. -/
def main (words : List String) : IO UInt32 := do
  let directory ← IO.currentDir
  let outcome ← runCommandLine (machine directory.toString.toList) (words.map String.toList)
  IO.print (String.ofList outcome.output)
  for warning in outcome.warnings do
    IO.eprintln (String.ofList warning)
  return outcome.status.toUInt32
