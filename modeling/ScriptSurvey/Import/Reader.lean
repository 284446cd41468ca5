import ScriptSurvey.Import.Script
import ScriptSurvey.Import.Style

/-!
# Imports of any file

The extension of a file decides whether it is read as a style sheet or as a script.
-/

namespace ScriptSurvey

/-- The import records of a file. -/
def readImports (styleExtensions : List Text) (importer t : Text) : FileImports :=
  if Path.hasExtension styleExtensions importer then readStyleImports importer t
  else readScriptImports importer t

end ScriptSurvey
