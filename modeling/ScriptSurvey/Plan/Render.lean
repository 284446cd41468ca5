import ScriptSurvey.Plan.Consolidate

/-!
# Plans as source text

A plan is written as import statements: for each module one with its default and its named
imports, and one for each namespace, or one without names when it is imported for its effects.

A *provider* is these statements and a table, exported as an object, from each module that has
names to what they hold.
-/

namespace ScriptSurvey

/-- A text as a literal in single quotes. -/
def quoteSingle (t : Text) : Text :=
  let escape : Char → Text := fun c =>
    if c = '\\' ∨ c = '\'' then ['\\', c] else if c = '\n' then ['\\', 'n'] else [c]
  ['\''] ++ t.flatMap escape ++ ['\'']

/-- Texts in braces. -/
def inBraces (ts : List Text) : Text :=
  ['\x7b', ' '] ++ Text.commaJoin ts ++ [' ', '\x7d']

namespace NamedImport

/-- The entry of a binding clause. -/
def entry (n : NamedImport) : Text :=
  if n.isRenamed then n.exported ++ " as ".toList ++ n.localName else n.localName

/-- The member of an object. -/
def member (n : NamedImport) : Text :=
  if n.isRenamed then n.exported ++ [':', ' '] ++ n.localName else n.localName

end NamedImport

namespace ModulePlan

/-- The default and the named imports, as a binding clause. -/
def clause (m : ModulePlan) : List Text :=
  m.default?.toList ++ if m.named.isEmpty then [] else [inBraces (m.named.map (·.entry))]

/-- The import statements of a module. -/
def statements (m : ModulePlan) : List Text :=
  let source := quoteSingle m.module ++ [';']
  if m.hasBindings then
    (if m.clause.isEmpty then []
      else ["import ".toList ++ Text.commaJoin m.clause ++ " from ".toList ++ source]) ++
      m.namespaces.map fun n => "import * as ".toList ++ n ++ " from ".toList ++ source
  else if m.sideEffect then ["import ".toList ++ source]
  else []

/-- The named imports that are the first of their export, given the exports seen before. -/
def firstOfExport (seen : List Text) : List NamedImport → List NamedImport
  | [] => []
  | n :: ns =>
    if seen.contains n.exported then firstOfExport seen ns
    else n :: firstOfExport (n.exported :: seen) ns

/-- The members of the object that a module's names make: a namespace spread first, then the
default import, then the named ones, each export once. -/
def members (m : ModulePlan) : List Text :=
  (m.namespaces.head?.map (['.', '.', '.'] ++ ·)).toList ++
    (m.default?.map ("default: ".toList ++ ·)).toList ++
    (firstOfExport (m.default?.map fun _ => "default".toList).toList m.named).map (·.member)

/-- The value of a module in the table; there is none without names. -/
def value? (m : ModulePlan) : Option Text :=
  if m.default?.isNone && m.named.isEmpty then m.namespaces.head? else some (inBraces m.members)

end ModulePlan

namespace Plan

/-- The import statements of a plan. -/
def statements (p : Plan) : List Text :=
  p.modules.flatMap (·.statements)

/-- The entries of the table, from module path to value. -/
def tableEntries (p : Plan) : List (Text × Text) :=
  p.modules.filterMap fun m => m.value?.map fun v => (m.module, v)

/-- The exported table. -/
def table (exportName : Text) (p : Plan) : Text :=
  let declaration := "export const ".toList ++ exportName ++ " = ".toList
  if p.tableEntries.isEmpty then declaration ++ "\x7b\x7d;\n".toList
  else
    declaration ++ "\x7b\n".toList ++
      (p.tableEntries.flatMap fun e =>
        "  ".toList ++ quoteSingle e.1 ++ [':', ' '] ++ e.2 ++ [',', '\n']) ++
      "\x7d;\n".toList

/-- The statements, a blank line if there are any, and the table. -/
def provider (exportName : Text) (p : Plan) : Text :=
  (p.statements.flatMap (· ++ ['\n'])) ++ (if p.statements.isEmpty then [] else ['\n']) ++
    p.table exportName

end Plan

end ScriptSurvey
