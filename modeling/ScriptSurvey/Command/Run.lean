import ScriptSurvey.Argument.Outline
import ScriptSurvey.Argument.Render
import ScriptSurvey.Command.Invocation
import ScriptSurvey.Storage.Host
import ScriptSurvey.Text.Location

/-!
# Running commands

What a command writes, what it warns of, and its exit status: 0 when all went well, 1 when a file
could not be read or a specifier not be resolved, 2 when the command line is not well formed.

The files of `imports` and `calls` are read one after another, and what was written before one
that cannot be read stays written.
-/

namespace ScriptSurvey

/-- What a command leaves behind. -/
structure Outcome where
  status : Nat
  output : Text
  warnings : List Text
deriving DecidableEq, Repr

namespace Outcome

/-- All went well. -/
def success (output : Text) : Outcome := ⟨0, output, []⟩

/-- Something could not be had. -/
def failure (output : Text) : Outcome := ⟨1, output, []⟩

end Outcome

namespace Command

/-- The text on a line of its own. -/
def line (t : Text) : Text :=
  t ++ ['\n']

/-! ## Reports -/

/-- A binding in a report. -/
def describeBinding (b : Binding) : Text :=
  b.kind.word ++ [' '] ++ b.name ++ (b.alias?.map (" as ".toList ++ ·)).getD [] ++
    if b.typeOnly then " (type)".toList else []

/-- A record in a report. -/
def describeRecord (r : ImportRecord) : Text :=
  ['\''] ++ r.module ++ ['\'', ' '] ++ (if r.isExternal then "external" else "relative").toList ++
    (if r.bindings.isEmpty then []
      else [' ', '['] ++ Text.commaJoin (r.bindings.map describeBinding) ++ [']']) ++
    (if r.sideEffect then " side-effect".toList else []) ++
    (r.absolute?.map (" -> ".toList ++ ·)).getD []

/-- The imports of a file, each with the place of its first declaration. -/
def importReport (settings : Settings) (path text : Text) : Text :=
  let imports := readImports settings.styleExtensions path text
  line path ++ imports.records.flatMap fun r =>
    let place := (r.spans.head?.map fun s => (Location.locate text s.start).render).getD []
    line ([' ', ' '] ++ place ++ [' '] ++ describeRecord r)

/-- The calls in a file, each with its place. -/
def callReport (callees : Callees) (file text : Text) : Text :=
  (findCalls callees text).flatMap fun site =>
    line (file ++ [':'] ++ (Location.locate text site.span.start).render ++ [':', ' '] ++
      site.callee ++ ['('] ++ renderArguments site.arguments ++ [')'])

/-! ## Commands -/

section

variable {m : Type → Type} [Monad m] (host : Host m)

/-- The one path of a file, whatever path the command line gives. -/
def locator (file : Text) : Text :=
  Path.normalize (Path.unifySeparators (Path.join host.workingDirectory file))

/-- A report on files, one after another, up to the first that cannot be read. -/
def reportEach (report : Text → Text → Text) : List Text → m Outcome
  | [] => return .success []
  | file :: rest => do
    match ← host.read file with
    | none => return .failure []
    | some text =>
      let more ← reportEach report rest
      return { more with output := report file text ++ more.output }

/-- The files of some specifiers, as seen from a directory. -/
def runResolve (settings : Settings) (specifiers : List Text) (start? : Option Text) :
    m Outcome := do
  let start := (start?.map (Path.join host.workingDirectory)).getD host.workingDirectory
  let located := fun s => Path.normalize (Path.combine (Path.unifySeparators start) s)
  let r ← resolveMany (Survey.probeOrder settings) host.list (specifiers.map located)
  let output := specifiers.flatMap fun s =>
    line (s ++ " -> ".toList ++ (r.get? (located s)).getD "(not found)".toList)
  return if r.unresolved.isEmpty then .success output else .failure output

/-- The provider of some files, with a warning for each module that is no file. -/
def runConsolidate (settings : Settings) (files : List Text) : m Outcome := do
  match ← host.loadSources (files.map (locator host)) with
  | (_, some _) => return .failure []
  | (sources, none) =>
    let survey ← Survey.run settings host.list sources
    return ⟨0, survey.provider,
      survey.resolution.unresolved.map fun u => "warning: ".toList ++ u.message⟩

/-- Run a command. -/
def run (settings : Settings) : Command → m Outcome
  | arguments text outline =>
    let es := parseArguments text
    return .success (line (if outline then outlineArguments es else renderArguments es))
  | imports files =>
    reportEach host (fun file text => importReport settings (locator host file) text) files
  | calls files callees =>
    reportEach host (callReport (Callees.ofList (settings.callees ++ callees))) files
  | resolve specifiers start? => runResolve host settings specifiers start?
  | consolidate files => runConsolidate host settings files

end

end Command

/-- The name and the version of the program. -/
def versionLine : Text := "srcweave 0.1.0".toList

/-- Run the command that the words of a command line name.  The configuration is read first, even
by a command that has no use for it. -/
def runCommandLine {m : Type → Type} [Monad m] (host : Host m) (words : List Text) :
    m Outcome := do
  match Invocation.read words with
  | .error .usage => return ⟨2, [], []⟩
  | .error .version => return .success (Command.line versionLine)
  | .ok invocation =>
    match ← host.settings invocation.config? host.workingDirectory with
    | .error _ => return .failure []
    | .ok settings => invocation.command.run host settings

end ScriptSurvey
