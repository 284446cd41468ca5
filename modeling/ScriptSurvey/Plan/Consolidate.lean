import ScriptSurvey.Import.Record
import ScriptSurvey.Plan.NamePool

/-!
# Import plans

The imports of many files, merged into one list of modules in which no two local names are the
same.  Bindings for the type checker and those with blank names are left out, equal bindings of
a module are one, and every other binding gets a local name of its own: the one it had, if that
is free.

A module appears in a plan when it has bindings or is imported for its effects, and the second
counts only as long as it has none.
-/

namespace ScriptSurvey

/-- An export, imported under a local name. -/
structure NamedImport where
  exported : Text
  localName : Text
deriving DecidableEq, Repr

/-- Whether the local name differs from the exported one. -/
def NamedImport.isRenamed (n : NamedImport) : Bool :=
  n.exported != n.localName

/-- What a plan imports from one module. -/
structure ModulePlan where
  module : Text
  default? : Option Text
  named : List NamedImport
  namespaces : List Text
  sideEffect : Bool
deriving DecidableEq, Repr

namespace ModulePlan

/-- Nothing from a module. -/
def empty (module : Text) : ModulePlan := ⟨module, none, [], [], false⟩

/-- Whether some name is imported. -/
def hasBindings (m : ModulePlan) : Bool :=
  m.default?.isSome || !m.named.isEmpty || !m.namespaces.isEmpty

/-- The module with one more binding under the given local name.  A second default binding
imports the export `default` by its name. -/
def bind (b : Binding) (localName : Text) (m : ModulePlan) : ModulePlan :=
  match b.kind with
  | .default =>
    match m.default? with
    | none => { m with default? := some localName }
    | some _ => { m with named := m.named ++ [⟨"default".toList, localName⟩] }
  | .named => { m with named := m.named ++ [⟨b.name, localName⟩] }
  | .namespace => { m with namespaces := m.namespaces ++ [localName] }

/-- The module without its effects if it has bindings. -/
def settle (m : ModulePlan) : ModulePlan :=
  if m.hasBindings then { m with sideEffect := false } else m

end ModulePlan

/-- What makes two bindings equal. -/
structure BindingKey where
  module : Text
  kind : BindingKind
  name : Text
  alias? : Option Text
deriving DecidableEq, Repr

/-- The key of a binding of a module. -/
def Binding.key (module : Text) (b : Binding) : BindingKey :=
  ⟨module, b.kind, b.name, b.alias?⟩

/-- Whether a name of the binding is blank. -/
def Binding.isBlank (b : Binding) : Bool :=
  Text.isAllBlank b.name || b.alias?.any Text.isAllBlank

/-- The modules of a plan, and the local name of each binding. -/
structure Plan where
  modules : List ModulePlan
  names : List (BindingKey × Text)
deriving DecidableEq, Repr

namespace Plan

/-- Nothing imported. -/
def empty : Plan := ⟨[], []⟩

/-- The local name of a binding. -/
def localName? (module : Text) (b : Binding) (p : Plan) : Option Text :=
  p.names.lookup (b.key module)

/-- What is imported from a module. -/
def module? (module : Text) (p : Plan) : Option ModulePlan :=
  p.modules.find? (·.module == module)

/-- All local names, in the order they were given. -/
def localNames (p : Plan) : List Text :=
  p.names.map Prod.snd

/-- The modules with a change made to one, which comes last if it is new. -/
def updateModule (module : Text) (change : ModulePlan → ModulePlan) :
    List ModulePlan → List ModulePlan
  | [] => [change (ModulePlan.empty module)]
  | m :: ms => if m.module = module then change m :: ms else m :: updateModule module change ms

end Plan

/-- How names are given: those never to be given, and the greatest length of a suffix. -/
structure NamingRules where
  reserved : List Text
  suffixMaxLength : Nat
deriving DecidableEq, Repr

/-- The rules used when none are given. -/
def NamingRules.standard : NamingRules := ⟨[], 20⟩

namespace Consolidation

/-- A plan in the making, and the names that it can still give. -/
structure State where
  pool : NamePool
  plan : Plan
deriving DecidableEq, Repr

/-- The local name for a binding.  Only default bindings are told apart by their module. -/
def giveName (limit : Nat) (module : Text) (b : Binding) (p : NamePool) : Text × NamePool :=
  match b.kind with
  | .default => p.claimSuffixed limit module b.localName
  | .named => p.claim b.localName
  | .namespace => p.claim b.localName

/-- The plan with one more binding, unless it has a blank name or is there. -/
def addBinding (limit : Nat) (module : Text) (s : State) (b : Binding) : State :=
  if b.isBlank || (s.plan.localName? module b).isSome then s
  else
    let (name, pool) := giveName limit module b s.pool
    { pool
      plan :=
        { modules := Plan.updateModule module (ModulePlan.bind b name) s.plan.modules
          names := s.plan.names ++ [(b.key module, name)] } }

/-- The plan with the module imported for its effects. -/
def addSideEffect (module : Text) (s : State) : State :=
  { s with
    plan :=
      { s.plan with
        modules := Plan.updateModule module ({ · with sideEffect := true }) s.plan.modules } }

/-- The plan with one more record. -/
def addRecord (limit : Nat) (s : State) (r : ImportRecord) : State :=
  let s := r.runtimeBindings.foldl (addBinding limit r.module) s
  if r.sideEffect then addSideEffect r.module s else s

/-- The state before the first record. -/
def start (rules : NamingRules) : State :=
  ⟨NamePool.ofReserved rules.reserved, Plan.empty⟩

end Consolidation

/-- The plan for some records, taken in order. -/
def consolidate (rules : NamingRules) (records : List ImportRecord) : Plan :=
  let s := records.foldl (Consolidation.addRecord rules.suffixMaxLength) (Consolidation.start rules)
  { s.plan with modules := s.plan.modules.map ModulePlan.settle }

end ScriptSurvey
