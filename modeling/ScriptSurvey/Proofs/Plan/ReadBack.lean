import ScriptSurvey.Proofs.Import.Statements
import ScriptSurvey.Proofs.List.FirstSeen
import ScriptSurvey.Proofs.Plan.Quote

/-!
# The statements of a plan, read back

The statements of readable modules are read as declarations that say what the plan imports: of each
module first its default and its named imports, then its namespaces, or that it is there for its
effects. So there is one record for each module, in the order of the plan, and its path is the
module's own with its escapes.
-/

namespace ScriptSurvey

open ScriptImport

/-! ## What is read -/

/-- The binding that the entry of a named import is read as. -/
def NamedImport.binding (n : NamedImport) : Binding :=
  if n.isRenamed then
    if n.exported = "default".toList then ⟨n.localName, .default, none, false⟩
    else ⟨n.exported, .named, some n.localName, false⟩
  else ⟨n.localName, .named, none, false⟩

/-- The binding that a default import is read as. -/
def Binding.ofDefault (n : Text) : Binding := ⟨n, .default, none, false⟩

/-- The binding that a namespace is read as. -/
def Binding.ofNamespace (n : Text) : Binding := ⟨n, .namespace, none, false⟩

namespace ModulePlan

/-- The bindings of the clause with the default and the named imports. -/
def clauseBindings (m : ModulePlan) : List Binding :=
  m.default?.toList.map .ofDefault ++ m.named.map (·.binding)

/-- The bindings of all statements. -/
def bindings (m : ModulePlan) : List Binding :=
  m.clauseBindings ++ m.namespaces.map .ofNamespace

/-- What the statements of a module say. -/
def declarations (m : ModulePlan) : List Declaration :=
  if m.hasBindings then
    (if m.clause.isEmpty then [] else [⟨m.module, m.clauseBindings, ⟨0, 0⟩, true⟩]) ++
      m.namespaces.map fun n => ⟨m.module, [.ofNamespace n], ⟨0, 0⟩, true⟩
  else if m.sideEffect then [⟨m.module, [], ⟨0, 0⟩, false⟩]
  else []

/-- The record that the statements of a module make. -/
def record (m : ModulePlan) : ImportRecord :=
  .ofScript m.module m.bindings m.sideEffect

/-- The module under the path that its statements are read with. -/
def escaped (m : ModulePlan) : ModulePlan :=
  { m with module := m.module.escaped }

end ModulePlan

/-! ## Entries -/

/-- A name that can be bound. -/
def Text.IsBindable.toLocalName {t : Text} (h : t.IsBindable) : LocalName :=
  ⟨⟨t, h.1⟩, h.2⟩

/-- Whether a character of an entry keeps the entry and its block in one piece. -/
def IsEntryChar (c : Char) : Prop := c ≠ ',' ∧ isPassed c = true

namespace NamedImport

variable {n : NamedImport}

theorem uncommented_identifier {t : Text} (h : Text.isIdentifier t = true) :
    t.Uncommented IsEntryChar :=
  Name.uncommented ⟨t, h⟩ fun _ hc =>
    ⟨Text.ne_of_isIdentifierPart hc rfl, isPassed_of_isIdentifierPart hc⟩

/-- An entry is in one piece. -/
theorem uncommented_entry (hlocal : n.localName.IsBindable)
    (hexported : Text.isIdentifier n.exported = true ∨ n.exported.IsClosedQuote) :
    n.entry.Uncommented IsEntryChar := by
  have hname := uncommented_identifier hlocal.1
  unfold entry
  split
  · have has : Text.Uncommented IsEntryChar " as ".toList :=
      .of_forall (by unfold IsEntryChar; decide)
    rcases hexported with hid | hquote
    · exact ((uncommented_identifier hid).append has).append hname
    · exact ((hquote.uncommented _).append has).append hname
  · exact hname

/-- An entry is read as what it binds. -/
theorem readEntry_entry (hlocal : n.localName.IsBindable)
    (hexported : Text.isIdentifier n.exported = true ∨ n.exported.IsClosedQuote) :
    readEntry false n.entry = some n.binding := by
  unfold entry binding
  cases n.isRenamed with
  | false => exact readEntry_name false ⟨n.localName, hlocal.1⟩
  | true =>
      rcases hexported with hid | hquote
      · exact readEntry_alias false ⟨n.exported, hid⟩ ⟨n.localName, hlocal.1⟩
      · have hne : n.exported ≠ "default".toList := by
          intro he
          rw [he] at hquote
          exact absurd hquote.startsQuoted (by decide)
        rw [if_pos rfl, if_pos rfl, if_neg hne]
        exact readEntry_quoted false hquote ⟨n.localName, hlocal.1⟩

end NamedImport

namespace ModulePlan

variable {m : ModulePlan}

theorem IsReadable.named (h : m.IsReadable) {n : NamedImport} (hn : n ∈ m.named) :
    n.localName.IsBindable :=
  h.names (.named n) (by simp [slots, hn])

/-! ## The clause -/

/-- What stands between the braces of a clause. -/
def block (m : ModulePlan) : Text :=
  [' '] ++ (Text.commaJoin (m.named.map (·.entry)) ++ [' '])

theorem IsReadable.block_uncommented (h : m.IsReadable) :
    m.block.Uncommented (isPassed · = true) := by
  have hspace : Text.Uncommented (isPassed · = true) [' '] := .code (by decide) (by decide) .nil
  refine hspace.append (.append (.commaJoin (by decide) (by decide) fun e he => ?_) hspace)
  obtain ⟨n, hn, rfl⟩ := List.mem_map.mp he
  exact (NamedImport.uncommented_entry (h.named hn) (h.exported n hn)).mono fun _ hc => hc.2

theorem IsReadable.readBlock_block (h : m.IsReadable) :
    readBlock false m.block = m.named.map (·.binding) := by
  have hcomma : ∀ e ∈ m.named.map (·.entry), Text.Uncommented (· ≠ ',') e := by
    intro e he
    obtain ⟨n, hn, rfl⟩ := List.mem_map.mp he
    exact (NamedImport.uncommented_entry (h.named hn) (h.exported n hn)).mono fun _ hc => hc.1
  have hread : ∀ n ∈ m.named, readEntry false n.entry = some n.binding := fun n hn =>
    NamedImport.readEntry_entry (h.named hn) (h.exported n hn)
  rw [block, readBlock_commaJoin false hcomma Text.isBlanks_space Text.isBlanks_space,
    List.filterMap_map]
  refine (List.filterMap_congr hread).trans ?_
  exact congrFun List.filterMap_eq_map m.named

/-- The clause of a module stands for its default and its named imports. -/
theorem IsReadable.isClause (h : m.IsReadable) (hne : m.clause ≠ []) :
    IsClause (Text.commaJoin m.clause) m.clauseBindings := by
  have hbraces : inBraces (m.named.map (·.entry)) = braced m.block := by
    simp [inBraces, braced, block]
  have hbindings : m.clauseBindings =
      m.default?.toList.map .ofDefault ++ readBlock false m.block := by
    rw [h.readBlock_block, clauseBindings]
  -- a clause is a default import, a block, or the one behind the other
  cases hd : m.default? with
  | none =>
      cases hn : m.named with
      | nil => exact absurd (by rw [clause, hd, hn]; rfl) hne
      | cons n ns =>
          have hclause : m.clause = [braced m.block] := by
            rw [clause, hbraces, hd, hn]
            rfl
          rw [hclause, Text.commaJoin, List.intercalate_singleton, hbindings, hd]
          exact isClause_braced h.block_uncommented
  | some d =>
      have hname : d.IsBindable := h.names (.default d) (by simp [slots, hd])
      cases hn : m.named with
      | nil =>
          have hclause : m.clause = [d] := by
            rw [clause, hd, hn]
            rfl
          rw [hclause, Text.commaJoin, List.intercalate_singleton, clauseBindings, hd, hn]
          exact isClause_default hname.toLocalName
      | cons n ns =>
          have hclause : m.clause = [d, braced m.block] := by
            rw [clause, hbraces, hd, hn]
            rfl
          rw [hclause, Text.commaJoin, List.intercalate_cons_cons, List.intercalate_singleton,
            hbindings, hd, List.append_assoc]
          exact isClause_defaultAnd hname.toLocalName h.block_uncommented

/-! ## The statements -/

/-- **Each statement of a module stands for a declaration.** -/
theorem IsReadable.forall₂_isStatement (h : m.IsReadable) :
    List.Forall₂ IsStatement m.statements m.escaped.declarations := by
  have hsource := Text.quotes_quoteSingle m.module
  have hclause (hne : m.clause ≠ []) :
      IsStatement ("import ".toList ++ Text.commaJoin m.clause ++ " from ".toList ++
        (quoteSingle m.module ++ [';'])) ⟨m.module.escaped, m.clauseBindings, ⟨0, 0⟩, true⟩ :=
    isStatement_clause (h.isClause hne) hsource
  have hnamespace : ∀ n ∈ m.namespaces, IsStatement
      ("import * as ".toList ++ n ++ " from ".toList ++ (quoteSingle m.module ++ [';']))
      ⟨m.module.escaped, [.ofNamespace n], ⟨0, 0⟩, true⟩ := by
    intro n hn
    have hname : n.IsBindable := h.names (.namespace n) (by simp [slots, hn])
    exact isStatement_clause (isClause_namespace hname.toLocalName) hsource
  -- the declarations of the module under the other path
  have hdeclarations : m.escaped.declarations =
      if m.hasBindings then
        (if m.clause.isEmpty then [] else
          [⟨m.module.escaped, m.clauseBindings, ⟨0, 0⟩, true⟩]) ++
          m.namespaces.map fun n => ⟨m.module.escaped, [.ofNamespace n], ⟨0, 0⟩, true⟩
      else if m.sideEffect then [⟨m.module.escaped, [], ⟨0, 0⟩, false⟩]
      else [] := rfl
  rw [hdeclarations]
  unfold statements
  split
  · refine List.rel_append ?_ ?_
    · cases hc : m.clause with
      | nil => exact .nil
      | cons e es =>
          have := hclause (by rw [hc]; exact List.cons_ne_nil e es)
          rw [hc] at this
          exact .cons this .nil
    · rw [List.forall₂_map_left_iff, List.forall₂_map_right_iff, List.forall₂_same]
      exact hnamespace
  · split
    · exact .cons (isStatement_bare hsource) .nil
    · exact .nil

/-! ## What the statements of a module say -/

theorem IsReadable.declarations_ne_nil (h : m.IsReadable) : m.declarations ≠ [] := by
  obtain ⟨module, default?, named, namespaces, sideEffect⟩ := m
  have heffect := h.effect
  unfold declarations
  cases default? <;> cases named <;> cases namespaces <;>
    simp_all [hasBindings, clause]

theorem module_of_mem_declarations {d : Declaration} (hd : d ∈ m.declarations) :
    d.module = m.module := by
  unfold declarations at hd
  split at hd
  · rcases List.mem_append.mp hd with hd | hd
    · split at hd
      · exact absurd hd List.not_mem_nil
      · rw [List.mem_singleton.mp hd]
    · obtain ⟨n, -, rfl⟩ := List.mem_map.mp hd
      rfl
  · split at hd
    · rw [List.mem_singleton.mp hd]
    · exact absurd hd List.not_mem_nil

/-- The statements of a module say what the plan imports from it. -/
theorem bindings_declarations (m : ModulePlan) :
    m.declarations.flatMap (·.bindings) = m.bindings := by
  obtain ⟨module, default?, named, namespaces, sideEffect⟩ := m
  unfold declarations bindings clauseBindings
  cases default? <;> cases named <;> cases namespaces <;> cases sideEffect <;>
    simp [hasBindings, clause, List.flatMap_map, ← List.map_eq_flatMap]

theorem IsReadable.hasClause_declarations (h : m.IsReadable) :
    m.declarations.any (!·.hasClause) = m.sideEffect := by
  obtain ⟨module, default?, named, namespaces, sideEffect⟩ := m
  have heffect := h.effect
  unfold declarations
  cases default? <;> cases named <;> cases namespaces <;>
    simp_all [hasBindings, clause]

end ModulePlan

/-! ## The records of a plan -/

/-- The modules of the declarations, in the order in which they first come up. -/
theorem eraseDups_modules {ms : List ModulePlan} (h : ∀ m ∈ ms, m.IsReadable)
    (honce : (ms.map (·.module)).Nodup) :
    ((ms.flatMap (·.declarations)).map (·.module)).eraseDups = ms.map (·.module) := by
  induction ms with
  | nil => rfl
  | cons m ms ih =>
      rw [List.map_cons, List.nodup_cons] at honce
      have hrest := ih (fun x hx => h x (List.mem_cons_of_mem m hx)) honce.2
      obtain ⟨n, hn⟩ : ∃ n, m.declarations.length = n + 1 :=
        Nat.exists_eq_succ_of_ne_zero fun h0 =>
          (h m List.mem_cons_self).declarations_ne_nil (List.length_eq_zero_iff.mp h0)
      -- all declarations of one module stand side by side, and no later module has its path
      have hsame : m.declarations.map (·.module) = List.replicate (n + 1) m.module := by
        rw [List.eq_replicate_iff, List.length_map]
        refine ⟨hn, fun x hx => ?_⟩
        obtain ⟨d, hd, rfl⟩ := List.mem_map.mp hx
        exact ModulePlan.module_of_mem_declarations hd
      have hnew : m.module ∉ (ms.flatMap (·.declarations)).map (·.module) := by
        intro hmem
        obtain ⟨d, hd, hmodule⟩ := List.mem_map.mp hmem
        obtain ⟨y, hy, hd⟩ := List.mem_flatMap.mp hd
        rw [ModulePlan.module_of_mem_declarations hd] at hmodule
        exact honce.1 (List.mem_map.mpr ⟨y, hy, hmodule⟩)
      rw [List.flatMap_cons, List.map_append, hsame, eraseDups_replicate_append n hnew, hrest,
        List.map_cons]

theorem filter_declarations (ms : List ModulePlan) (module : Text) :
    (ms.flatMap (·.declarations)).filter (·.module == module) =
      (ms.filter (·.module == module)).flatMap (·.declarations) := by
  induction ms with
  | nil => rfl
  | cons m ms ih =>
      rw [List.flatMap_cons, List.filter_append, ih, List.filter_cons]
      by_cases hm : m.module = module
      · have hall : m.declarations.filter (·.module == module) = m.declarations := by
          rw [List.filter_eq_self]
          intro d hd
          rw [ModulePlan.module_of_mem_declarations hd, hm, beq_self_eq_true]
        rw [hall, if_pos (by rw [hm, beq_self_eq_true]), List.flatMap_cons]
      · have hnone : m.declarations.filter (·.module == module) = [] := by
          rw [List.filter_eq_nil_iff]
          intro d hd
          rw [ModulePlan.module_of_mem_declarations hd, beq_iff_eq]
          exact hm
        rw [hnone, if_neg (by rw [beq_iff_eq]; exact hm), List.nil_append]

theorem forall₂_isStatement {ms : List ModulePlan} (h : ∀ m ∈ ms, m.IsReadable) :
    List.Forall₂ IsStatement (ms.flatMap (·.statements))
      ((ms.map ModulePlan.escaped).flatMap (·.declarations)) := by
  induction ms with
  | nil => exact .nil
  | cons m ms ih =>
      rw [List.flatMap_cons, List.map_cons, List.flatMap_cons]
      exact List.rel_append (h m List.mem_cons_self).forall₂_isStatement
        (ih fun x hx => h x (List.mem_cons_of_mem m hx))

theorem ModulePlan.IsReadable.escaped {m : ModulePlan} (h : m.IsReadable) : m.escaped.IsReadable :=
  ⟨h.names, h.exported, h.effect⟩

/-- **The statements of a plan are read as its records**, one for each module, in their order and
under the paths with their escapes. -/
theorem content_statements {p : Plan} (h : ∀ m ∈ p.modules, m.IsReadable)
    (honce : (p.modules.map (·.module)).Nodup) (importer : Text) :
    (readScriptImports importer (List.intercalate ['\n'] p.statements)).records.map
      ImportRecord.content = (p.modules.map ModulePlan.escaped).map (·.record) := by
  have hescaped : ∀ m ∈ p.modules.map ModulePlan.escaped, m.IsReadable := by
    intro m hm
    obtain ⟨x, hx, rfl⟩ := List.mem_map.mp hm
    exact (h x hx).escaped
  -- paths that are different are different with their escapes
  have honce' : ((p.modules.map ModulePlan.escaped).map (·.module)).Nodup := by
    have hmap := List.Nodup.map Text.escaped_injective honce
    rwa [List.map_map] at hmap ⊢
  rw [Plan.statements, content_readScriptImports (forall₂_isStatement h),
    eraseDups_modules hescaped honce', List.map_map]
  refine List.map_congr_left fun m hm => ?_
  rw [Function.comp_apply, Declaration.contentOf, filter_declarations, filter_module_eq honce' hm,
    List.flatMap_singleton, ModulePlan.bindings_declarations,
    (hescaped m hm).hasClause_declarations]
  rfl

/-- In a writable plan no path needs an escape. -/
theorem Plan.IsWritable.content_statements {p : Plan} (h : p.IsWritable) (importer : Text) :
    (readScriptImports importer (List.intercalate ['\n'] p.statements)).records.map
      ImportRecord.content = p.modules.map (·.record) := by
  have hsame : p.modules.map ModulePlan.escaped = p.modules := by
    refine (List.map_congr_left fun m hm => ?_).trans (List.map_id _)
    show { m with module := m.module.escaped } = m
    rw [Text.escaped_eq_self_iff.mpr (h.modules m hm).path]
  rw [ScriptSurvey.content_statements (fun m hm => (h.modules m hm).isReadable) h.once importer,
    hsame]

end ScriptSurvey
