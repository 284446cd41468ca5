import ScriptSurvey.Path.Specifier
import ScriptSurvey.Text.Span

/-!
# Import records

What the import declarations of a file say, module by module.  All declarations of one module
path share a record, and the records stand in the order their modules first came up.

A module is *external* when its files lie outside the project: a package or a network location.
All others are relative, and are looked for from the directory of the importing file.
-/

namespace ScriptSurvey

/-- How a binding refers to the exports of its module. -/
inductive BindingKind where
  /-- The default export. -/
  | default
  /-- One export, by its name. -/
  | named
  /-- All exports, as one object. -/
  | namespace
deriving DecidableEq, Repr

/-- The word for a kind of binding. -/
def BindingKind.word : BindingKind → Text
  | .default => "default".toList
  | .named => "named".toList
  | .namespace => "namespace".toList

/-- A name that an import declaration brings in.  The name of a named binding is the exported
one, with the local name as its alias if they differ; that of any other is the local one. -/
structure Binding where
  name : Text
  kind : BindingKind
  alias? : Option Text
  typeOnly : Bool
deriving DecidableEq, Repr

namespace Binding

/-- The name that the binding has in the importing file. -/
def localName (b : Binding) : Text := b.alias?.getD b.name

end Binding

/-- The two languages with import declarations. -/
inductive Grammar where
  | script
  | style
deriving DecidableEq, Repr

/-- All that the declarations of one module path say. -/
structure ImportRecord where
  module : Text
  grammar : Grammar
  isExternal : Bool
  bindings : List Binding
  /-- From the keyword to the end of the module path, for each declaration. -/
  spans : List Span
  /-- Whether some declaration binds nothing and so is there for its effects. -/
  sideEffect : Bool
  /-- The path of a relative module, when the importing file is known. -/
  absolute? : Option Text
  /-- The file that the module turned out to be. -/
  resolved? : Option Text
deriving DecidableEq, Repr

namespace ImportRecord

/-- A record without declarations. -/
def empty (module : Text) (grammar : Grammar) (isExternal : Bool) : ImportRecord :=
  ⟨module, grammar, isExternal, [], [], false, none, none⟩

/-- The record of a script module with the given bindings. -/
def ofScript (module : Text) (bindings : List Binding) (sideEffect : Bool) : ImportRecord :=
  { empty module .script (!Path.isRelative module) with bindings, sideEffect }

/-- Whether the module is looked for from the importing file. -/
def isRelative (r : ImportRecord) : Bool := !r.isExternal

/-- The record with the file of its module; an external module has none. -/
def attach (path : Text) (r : ImportRecord) : ImportRecord :=
  if r.isRelative then { r with resolved? := some path } else r

/-- The bindings that exist when the program runs. -/
def runtimeBindings (r : ImportRecord) : List Binding :=
  r.bindings.filter fun b => !b.typeOnly

end ImportRecord

/-- An import declaration.  One without a clause has no bindings and is there for its effects. -/
structure Declaration where
  module : Text
  bindings : List Binding
  span : Span
  hasClause : Bool
deriving DecidableEq, Repr

namespace ImportRecord

/-- The record with one more declaration. -/
def add (d : Declaration) (r : ImportRecord) : ImportRecord :=
  { r with
    bindings := r.bindings ++ d.bindings
    spans := r.spans ++ [d.span]
    sideEffect := r.sideEffect || !d.hasClause }

end ImportRecord

/-- The records of one file. -/
structure FileImports where
  /-- The path of the file, empty when it is not known. -/
  importer : Text
  records : List ImportRecord
deriving DecidableEq, Repr

namespace FileImports

/-- No records. -/
def empty (importer : Text) : FileImports := ⟨importer, []⟩

/-- The record that the first declaration of a module starts. -/
def start (importer : Text) (grammar : Grammar) (isExternal : Bool) (module : Text) :
    ImportRecord :=
  { ImportRecord.empty module grammar isExternal with
    absolute? :=
      if isExternal || importer.isEmpty then none else some (Path.resolveFrom importer module) }

/-- The records with one more declaration. -/
def add (grammar : Grammar) (isExternal : Bool) (d : Declaration) (f : FileImports) :
    FileImports :=
  if f.records.any (·.module == d.module) then
    { f with records := f.records.map fun r => if r.module = d.module then r.add d else r }
  else
    { f with records := f.records ++ [(start f.importer grammar isExternal d.module).add d] }

/-- The record of a module. -/
def get? (module : Text) (f : FileImports) : Option ImportRecord :=
  f.records.find? (·.module == module)

/-- The records with the file of one module attached. -/
def attach (module path : Text) (f : FileImports) : FileImports :=
  { f with records := f.records.map fun r => if r.module = module then r.attach path else r }

/-- The records of modules that are looked for from the importing file. -/
def relative (f : FileImports) : List ImportRecord :=
  f.records.filter (·.isRelative)

/-- The records of packages and network locations. -/
def external (f : FileImports) : List ImportRecord :=
  f.records.filter (·.isExternal)

end FileImports

end ScriptSurvey
