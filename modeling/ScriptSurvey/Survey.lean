import ScriptSurvey.CallSite
import ScriptSurvey.Import.Reader
import ScriptSurvey.Plan.Render
import ScriptSurvey.Resolution.Resolve
import ScriptSurvey.Settings.Basic

/-!
# Surveys

A survey of a project: what each of its source files imports and calls, which files its relative
imports are, and one plan for the imports of all files.

In the plan a module goes by its file, or where it has none by the path that its importer means,
so that one module has one entry however it is spelled.
-/

namespace ScriptSurvey

/-- A source file. -/
structure SourceFile where
  path : Text
  text : Text
deriving DecidableEq, Repr

/-- What a source file imports and calls. -/
structure FileSurvey where
  path : Text
  imports : FileImports
  calls : List CallSite
deriving Repr

namespace FileSurvey

/-- The survey of one file. -/
def ofSource (settings : Settings) (f : SourceFile) : FileSurvey where
  path := f.path
  imports := readImports settings.styleExtensions f.path f.text
  calls := findCalls (Callees.ofList settings.callees) f.text

/-- The paths that the relative imports of a file mean. -/
def specifiers (f : FileSurvey) : List Text :=
  f.imports.relative.filterMap (·.absolute?)

/-- The survey with the file of each import attached. -/
def attach (resolution : Resolution) (f : FileSurvey) : FileSurvey :=
  let attachTo (r : ImportRecord) : ImportRecord :=
    match r.absolute?.bind fun s => resolution.get? s with
    | some path => r.attach path
    | none => r
  { f with imports := { f.imports with records := f.imports.records.map attachTo } }

end FileSurvey

/-- The record with its module under a name that does not depend on the importer. -/
def ImportRecord.located (r : ImportRecord) : ImportRecord :=
  { r with module := (r.resolved?.or r.absolute?).getD r.module }

/-- The survey of a project. -/
structure Survey where
  files : List FileSurvey
  resolution : Resolution
  plan : Plan
  provider : Text
deriving Repr

namespace Survey

/-- Where the modules of a project are looked for. -/
def probeOrder (settings : Settings) : ProbeOrder :=
  ⟨settings.extensions, settings.indexFile⟩

/-- How the imports of a project are named. -/
def namingRules (settings : Settings) : NamingRules :=
  ⟨settings.reservedNames, settings.suffixMaxLength⟩

/-- The survey, once it is known what the relative imports are. -/
def complete (settings : Settings) (files : List FileSurvey) (resolution : Resolution) : Survey :=
  let files := files.map (·.attach resolution)
  let plan :=
    consolidate (namingRules settings)
      (files.flatMap fun f => f.imports.records.map ImportRecord.located)
  { files, resolution, plan, provider := plan.provider settings.providerExportName }

/-- The survey of some source files, with modules looked for by `lister`. -/
def run {m : Type → Type} [Monad m] (settings : Settings) (lister : Lister m)
    (sources : List SourceFile) : m Survey :=
  let files := sources.map (FileSurvey.ofSource settings)
  return complete settings files
    (← resolveMany (probeOrder settings) lister (files.flatMap (·.specifiers)))

end Survey

end ScriptSurvey
