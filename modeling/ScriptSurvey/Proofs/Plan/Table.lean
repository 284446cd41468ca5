import ScriptSurvey.Proofs.List.FirstSeen
import ScriptSurvey.Proofs.Plan.Modules
import ScriptSurvey.Proofs.Plan.Quote

/-!
# The table of a provider

A provider writes a plan twice: its statements bind local names, and its table says which of them
hold what a module exports. Both are texts, but each is the text of something that can be told apart:
a statement with its slots (`ImportStatement`), and an entry whose value is a name or an object with
members (`TableValue`). The names that the table uses are those that the statements bind for the same
module, and no export that is imported is left out of it (`ProvidesAll`).
-/

namespace ScriptSurvey

/-! ## Statements -/

/-- The export that a slot holds; a namespace holds all of them. -/
def Slot.exported? : Slot → Option Text
  | .default _ => some "default".toList
  | .named entry => some entry.exported
  | .namespace _ => none

/-- The export that a binding refers to; a namespace refers to all of them. -/
def Binding.exported? (b : Binding) : Option Text :=
  match b.kind with
  | .default => some "default".toList
  | .named => some b.name
  | .namespace => none

theorem Slot.IsFor.exported?_eq {slot : Slot} {b : Binding} (h : slot.IsFor b.name b.kind) :
    slot.exported? = b.exported? := by
  unfold Binding.exported?
  generalize b.kind = kind at h ⊢
  cases h <;> rfl

/-- An import statement. -/
inductive ImportStatement where
  /-- A module for its effects. -/
  | effect (module : Text)
  /-- The default export, or others by their names. -/
  | clause (module : Text) (default? : Option Text) (named : List NamedImport)
  /-- All exports in one object. -/
  | namespace (module name : Text)

namespace ImportStatement

/-- The module of a statement. -/
def module : ImportStatement → Text
  | effect module => module
  | clause module _ _ => module
  | .namespace module _ => module

/-- The slots that a statement fills. -/
def slots : ImportStatement → List Slot
  | effect _ => []
  | clause _ default? named => default?.toList.map .default ++ named.map .named
  | .namespace _ name => [.namespace name]

/-- The text of a statement. -/
def text : ImportStatement → Text
  | effect module => "import ".toList ++ (quoteSingle module ++ [';'])
  | clause module default? named =>
    "import ".toList ++
      Text.commaJoin
        (default?.toList ++ if named.isEmpty then [] else [inBraces (named.map (·.entry))]) ++
      " from ".toList ++ (quoteSingle module ++ [';'])
  | .namespace module name =>
    "import * as ".toList ++ name ++ " from ".toList ++ (quoteSingle module ++ [';'])

end ImportStatement

/-! ## Values -/

/-- A member of an object in the table. -/
inductive TableMember where
  | keyed (key localName : Text)
  /-- A local name that is also the key. -/
  | shorthand (name : Text)

namespace TableMember

/-- The key of a member, as it is spelled. -/
def key : TableMember → Text
  | keyed key _ => key
  | shorthand name => name

/-- The local name that a member holds. -/
def localName : TableMember → Text
  | keyed _ localName => localName
  | shorthand name => name

/-- The text of a member. -/
def text : TableMember → Text
  | keyed key localName => key ++ [':', ' '] ++ localName
  | shorthand name => name

end TableMember

/-- The value of a module in the table. -/
inductive TableValue where
  /-- A local name alone. -/
  | name (localName : Text)
  /-- An object, into which another may be spread first. -/
  | object (spread? : Option Text) (members : List TableMember)

namespace TableValue

/-- The members of a value. -/
def members : TableValue → List TableMember
  | name _ => []
  | object _ members => members

/-- All local names that a value uses. -/
def localNames : TableValue → List Text
  | name localName => [localName]
  | object spread? members => spread?.toList ++ members.map (·.localName)

/-- The text of a value. -/
def text : TableValue → Text
  | name localName => localName
  | object spread? members =>
    inBraces (spread?.toList.map (['.', '.', '.'] ++ ·) ++ members.map (·.text))

end TableValue

/-- The text of a provider. -/
def providerText (exportName : Text) (imports : List ImportStatement)
    (entries : List (Text × TableValue)) : Text :=
  let declaration := "export const ".toList ++ exportName ++ " = ".toList
  (imports.flatMap (·.text ++ ['\n'])) ++ (if imports.isEmpty then [] else ['\n']) ++
    if entries.isEmpty then declaration ++ "\x7b\x7d;\n".toList
    else
      declaration ++ "\x7b\n".toList ++
        (entries.flatMap fun e =>
          "  ".toList ++ quoteSingle e.1 ++ [':', ' '] ++ e.2.text ++ [',', '\n']) ++
        "\x7d;\n".toList

/-! ## One module -/

/-- The member that holds a named import. -/
def NamedImport.tableMember (n : NamedImport) : TableMember :=
  if n.isRenamed then .keyed n.exported n.localName else .shorthand n.localName

namespace NamedImport

variable (n : NamedImport)

theorem text_tableMember : n.tableMember.text = n.member := by
  unfold tableMember member
  split <;> rfl

theorem key_tableMember : n.tableMember.key = n.exported := by
  unfold tableMember
  split
  · rfl
  · next h =>
      -- it has one name for both
      rw [isRenamed, bne_iff_ne, not_not] at h
      exact h.symm

theorem localName_tableMember : n.tableMember.localName = n.localName := by
  unfold tableMember
  split <;> rfl

end NamedImport

namespace ModulePlan

/-- The statements of a module. -/
def imports (m : ModulePlan) : List ImportStatement :=
  if m.hasBindings then
    (if m.default?.isNone && m.named.isEmpty then [] else [.clause m.module m.default? m.named]) ++
      m.namespaces.map (.namespace m.module)
  else if m.sideEffect then [.effect m.module]
  else []

/-- The members that a module has in the table. -/
def tableMembers (m : ModulePlan) : List TableMember :=
  m.default?.toList.map (.keyed "default".toList) ++
    (firstOfExport (m.default?.map fun _ => "default".toList).toList m.named).map (·.tableMember)

/-- The value of a module in the table. -/
def tableValue? (m : ModulePlan) : Option TableValue :=
  if m.default?.isNone && m.named.isEmpty then m.namespaces.head?.map .name
  else some (.object m.namespaces.head? m.tableMembers)

variable {m : ModulePlan}

theorem statements_eq_map_text (m : ModulePlan) : m.statements = m.imports.map (·.text) := by
  have hclause : m.clause.isEmpty = (m.default?.isNone && m.named.isEmpty) := by
    unfold clause
    cases m.default? <;> cases m.named <;> rfl
  unfold statements imports
  rw [hclause]
  split
  · rw [List.map_append, List.map_map]
    split
    · rfl
    · rfl
  · split
    · rfl
    · rfl

theorem value?_eq_map_text (m : ModulePlan) : m.value? = m.tableValue?.map (·.text) := by
  unfold value? tableValue?
  split
  · rw [Option.map_map]
    exact Option.map_id'.symm
  · rw [Option.map_some, TableValue.text, members, tableMembers, List.map_append, List.map_map,
      List.map_map, ← List.append_assoc]
    congr 3
    · cases m.namespaces.head? <;> cases m.default? <;> rfl
    · exact List.map_congr_left fun n _ => n.text_tableMember.symm

theorem module_of_mem_imports {i : ImportStatement} (hi : i ∈ m.imports) : i.module = m.module := by
  unfold imports at hi
  split at hi
  · rcases List.mem_append.mp hi with hi | hi
    · split at hi
      · exact absurd hi List.not_mem_nil
      · rw [List.mem_singleton.mp hi]
        rfl
    · obtain ⟨n, -, rfl⟩ := List.mem_map.mp hi
      rfl
  · split at hi
    · rw [List.mem_singleton.mp hi]
      rfl
    · exact absurd hi List.not_mem_nil

/-- **The statements of a module fill its slots**, and no others. -/
theorem slots_imports (m : ModulePlan) : m.imports.flatMap (·.slots) = m.slots := by
  have hnamespaces (ns : List Text) :
      (ns.map (ImportStatement.namespace m.module)).flatMap (·.slots) = ns.map Slot.namespace := by
    rw [List.flatMap_map, List.map_eq_flatMap]
    rfl
  unfold imports
  split
  · rw [List.flatMap_append, hnamespaces, slots, ← List.append_assoc]
    congr 1
    split
    · next hnone =>
        rw [Bool.and_eq_true, Option.isNone_iff_eq_none, List.isEmpty_iff] at hnone
        rw [hnone.1, hnone.2]
        rfl
    · exact List.append_nil _
  · next hnone =>
      have hslots : m.slots = [] := by
        by_contra hne
        exact hnone (hasBindings_iff.mpr hne)
      rw [hslots]
      split <;> rfl

/-- The first named imports of their exports are one for each export that was not seen before. -/
theorem map_exported_firstOfExport (seen : List Text) (ns : List NamedImport) :
    (firstOfExport seen ns).map (·.exported) =
      ((ns.map (·.exported)).filter fun x => !seen.contains x).eraseDups := by
  induction ns generalizing seen with
  | nil => rfl
  | cons n ns ih =>
      rw [firstOfExport, List.map_cons, List.filter_cons]
      cases hseen : seen.contains n.exported with
      | true =>
          rw [if_pos rfl, ih, if_neg (by simp)]
      | false =>
          rw [if_neg Bool.false_ne_true, List.map_cons, ih, Bool.not_false, if_pos rfl,
            List.eraseDups_cons, List.filter_filter]
          congr 2
          refine List.filter_congr fun x _ => ?_
          rw [List.contains_cons, Bool.not_or]

theorem firstOfExport_subset (seen : List Text) (ns : List NamedImport) :
    firstOfExport seen ns ⊆ ns := by
  induction ns generalizing seen with
  | nil => exact List.Subset.refl _
  | cons n ns ih =>
      rw [firstOfExport]
      split
      · exact List.subset_cons_of_subset n (ih seen)
      · exact List.cons_subset_cons n (ih _)

/-- **The keys of a module's members** are the exports that its slots hold, each once. -/
theorem map_key_tableMembers (m : ModulePlan) :
    m.tableMembers.map (·.key) = (m.slots.filterMap Slot.exported?).eraseDups := by
  have hnamespaces : m.namespaces.filterMap (Slot.exported? ∘ .namespace) = [] :=
    List.filterMap_eq_nil_iff.mpr fun _ _ => rfl
  have hslots : m.slots.filterMap Slot.exported? =
      m.default?.toList.map (fun _ => "default".toList) ++ m.named.map (·.exported) := by
    rw [slots, List.filterMap_append, List.filterMap_append, List.filterMap_map,
      List.filterMap_map, List.filterMap_map, hnamespaces, List.append_nil,
      ← List.filterMap_eq_map, ← List.filterMap_eq_map]
    rfl
  -- behind a default import, what is imported again as `default` is left out
  have hnamed : (firstOfExport (m.default?.map fun _ => "default".toList).toList m.named).map
      (TableMember.key ∘ NamedImport.tableMember) =
        ((m.named.map (·.exported)).removeAll
          (m.default?.toList.map fun _ => "default".toList)).eraseDups := by
    rw [List.map_congr_left fun n _ => n.key_tableMember, map_exported_firstOfExport]
    cases m.default? <;> rfl
  rw [hslots, tableMembers, List.map_append, List.map_map, List.map_map, hnamed,
    List.eraseDups_append]
  cases m.default? <;> rfl

/-- Each member holds the name of a slot for its key. -/
theorem exists_slot_of_mem_tableMembers {member : TableMember} (h : member ∈ m.tableMembers) :
    ∃ slot ∈ m.slots, slot.exported? = some member.key ∧ slot.localName = member.localName := by
  unfold tableMembers at h
  rcases List.mem_append.mp h with h | h
  · obtain ⟨n, hn, rfl⟩ := List.mem_map.mp h
    exact ⟨.default n, List.mem_append_left _ (List.mem_map_of_mem hn), rfl, rfl⟩
  · obtain ⟨n, hn, rfl⟩ := List.mem_map.mp h
    refine ⟨.named n, List.mem_append_right _ (List.mem_append_left _
      (List.mem_map_of_mem (firstOfExport_subset _ _ hn))), ?_, n.localName_tableMember.symm⟩
    rw [n.key_tableMember]
    rfl

/-- A module has a value if it has names. -/
theorem isSome_tableValue? (m : ModulePlan) : m.tableValue?.isSome = m.hasBindings := by
  rw [← isSome_value?, value?_eq_map_text, Option.isSome_map]

/-- What a module's value is: an object if it has a default or named imports, else the first
namespace. -/
theorem tableValue?_cases {v : TableValue} (h : m.tableValue? = some v) :
    (∃ n, m.namespaces.head? = some n ∧ m.default? = none ∧ m.named = [] ∧ v = .name n) ∨
      v = .object m.namespaces.head? m.tableMembers := by
  unfold tableValue? at h
  split at h
  · next hnone =>
      rw [Bool.and_eq_true, Option.isNone_iff_eq_none, List.isEmpty_iff] at hnone
      obtain ⟨n, hn, rfl⟩ := Option.map_eq_some_iff.mp h
      exact .inl ⟨n, hn, hnone.1, hnone.2, rfl⟩
  · exact .inr (Option.some.inj h).symm

/-- The keys of a module's value are the exports that its slots hold, each once. -/
theorem map_key_members {v : TableValue} (h : m.tableValue? = some v) :
    v.members.map (·.key) = (m.slots.filterMap Slot.exported?).eraseDups := by
  rcases tableValue?_cases h with ⟨n, -, hdefault, hnamed, rfl⟩ | rfl
  · -- no slot of a namespace holds an export
    have hmembers : m.tableMembers = [] := by
      unfold tableMembers
      rw [hdefault, hnamed]
      rfl
    rw [← map_key_tableMembers, hmembers]
    rfl
  · exact map_key_tableMembers m

/-- An export that a slot holds is a member of the module's value. -/
theorem exists_member {v : TableValue} (h : m.tableValue? = some v) {slot : Slot}
    (hslot : slot ∈ m.slots) {exported : Text} (hexported : slot.exported? = some exported) :
    ∃ member ∈ v.members, member.key = exported := by
  rw [← List.mem_map, map_key_members h, List.mem_eraseDups]
  exact List.mem_filterMap.mpr ⟨slot, hslot, hexported⟩

/-- **Every name that a module's value uses stands in a slot** of the module. -/
theorem exists_slot_of_mem_localNames {v : TableValue} (h : m.tableValue? = some v) {n : Text}
    (hn : n ∈ v.localNames) : ∃ slot ∈ m.slots, slot.localName = n := by
  have hnamespace {n : Text} (hn : m.namespaces.head? = some n) :
      ∃ slot ∈ m.slots, slot.localName = n :=
    ⟨.namespace n, List.mem_append_right _ (List.mem_append_right _
      (List.mem_map_of_mem (List.mem_of_mem_head? hn))), rfl⟩
  rcases tableValue?_cases h with ⟨x, hx, -, -, rfl⟩ | rfl
  · rw [List.mem_singleton.mp hn]
    exact hnamespace hx
  · rcases List.mem_append.mp hn with hn | hn
    · exact hnamespace (Option.mem_toList.mp hn)
    · obtain ⟨member, hmember, rfl⟩ := List.mem_map.mp hn
      obtain ⟨slot, hslot, -, hname⟩ := exists_slot_of_mem_tableMembers hmember
      exact ⟨slot, hslot, hname⟩

theorem exists_slot_of_mem_members {v : TableValue} (h : m.tableValue? = some v)
    {member : TableMember} (hmember : member ∈ v.members) :
    ∃ slot ∈ m.slots, slot.exported? = some member.key ∧ slot.localName = member.localName := by
  rcases tableValue?_cases h with ⟨n, -, -, -, rfl⟩ | rfl
  · exact absurd hmember List.not_mem_nil
  · exact exists_slot_of_mem_tableMembers hmember

end ModulePlan

/-! ## The plan -/

namespace Plan

/-- The statements of a plan. -/
def imports (p : Plan) : List ImportStatement :=
  p.modules.flatMap (·.imports)

/-- The entries of the table, from module path to value. -/
def entries (p : Plan) : List (Text × TableValue) :=
  p.modules.filterMap fun m => m.tableValue?.map fun v => (m.module, v)

/-- Whether a statement of a plan binds a name to an export of a module, or to all of them. -/
def Binds (p : Plan) (module : Text) (exported? : Option Text) (name : Text) : Prop :=
  ∃ i ∈ p.imports, i.module = module ∧
    ∃ slot ∈ i.slots, slot.exported? = exported? ∧ slot.localName = name

/-- What the table of a plan provides, given the records that the plan is made of. -/
structure ProvidesAll (records : List ImportRecord) (p : Plan) : Prop where
  /-- There is one entry for each module that has names, and none for any other. -/
  modules : p.entries.map Prod.fst = (p.modules.filter (·.hasBindings)).map (·.module)
  /-- No two entries have the same key. -/
  keys : (p.entries.map fun e => quoteSingle e.1).Nodup
  /-- A name in an entry is bound by a statement of its module. -/
  closed : ∀ e ∈ p.entries, ∀ n ∈ e.2.localNames, ∃ exported?, p.Binds e.1 exported? n
  /-- No key of a member comes twice in an entry. -/
  once : ∀ e ∈ p.entries, (e.2.members.map (·.key)).Nodup
  /-- A member holds a name that is bound to the export of its key. -/
  holds : ∀ e ∈ p.entries, ∀ member ∈ e.2.members,
    p.Binds e.1 (some member.key) member.localName
  /-- Every export that is imported by a name or by default is a member. -/
  complete : ∀ e ∈ p.entries, ∀ exported n, p.Binds e.1 (some exported) n →
    ∃ member ∈ e.2.members, member.key = exported
  /-- A binding that exists when the program runs has an entry, and its export is a member. -/
  offered : ∀ r ∈ records, ∀ b ∈ r.runtimeBindings, b.isBlank = false →
    ∃ v, (r.module, v) ∈ p.entries ∧
      ∀ exported, b.exported? = some exported → ∃ member ∈ v.members, member.key = exported
  /-- A module with namespaces only has the first of them as its value. -/
  namespaces : ∀ m ∈ p.modules, ∀ n, m.default? = none → m.named = [] →
    m.namespaces.head? = some n → (m.module, .name n) ∈ p.entries
  /-- A module with others has an object, into which its first namespace is spread, if there is
  one. -/
  spread : ∀ m ∈ p.modules, m.default? ≠ none ∨ m.named ≠ [] →
    ∃ members, (m.module, .object m.namespaces.head? members) ∈ p.entries

/-- **The text of a provider** is that of its statements and its entries. -/
theorem provider_eq (exportName : Text) (p : Plan) :
    p.provider exportName = providerText exportName p.imports p.entries := by
  have hstatements : p.statements = p.imports.map (·.text) := by
    unfold statements imports
    rw [List.map_flatMap]
    exact List.flatMap_congr fun m _ => m.statements_eq_map_text
  have hentries : p.tableEntries = p.entries.map fun e => (e.1, e.2.text) := by
    unfold tableEntries entries
    rw [List.map_filterMap]
    refine List.filterMap_congr fun m _ => ?_
    rw [m.value?_eq_map_text, Option.map_map, Option.map_map]
    rfl
  unfold provider table providerText
  rw [hstatements, hentries, List.flatMap_map, List.flatMap_map, List.isEmpty_map, List.isEmpty_map]

variable {p : Plan}

theorem mem_entries {module : Text} {v : TableValue} :
    (module, v) ∈ p.entries ↔ ∃ m ∈ p.modules, m.module = module ∧ m.tableValue? = some v := by
  simp only [entries, List.mem_filterMap, Option.map_eq_some_iff, Prod.mk.injEq]
  constructor
  · rintro ⟨m, hm, v, hv, hmodule, rfl⟩
    exact ⟨m, hm, hmodule, hv⟩
  · rintro ⟨m, hm, hmodule, hv⟩
    exact ⟨m, hm, v, hv, hmodule, rfl⟩

/-- The statements of a module are those that fill its slots. -/
theorem binds_iff (h : (p.modules.map (·.module)).Nodup) {m : ModulePlan} (hm : m ∈ p.modules)
    {exported? : Option Text} {n : Text} :
    p.Binds m.module exported? n ↔
      ∃ slot ∈ m.slots, slot.exported? = exported? ∧ slot.localName = n := by
  unfold Binds imports
  rw [← m.slots_imports]
  constructor
  · rintro ⟨i, hi, hmodule, slot, hslot, hfor⟩
    obtain ⟨m', hm', hi⟩ := List.mem_flatMap.mp hi
    -- the statement is of no other module
    rw [ModulePlan.module_of_mem_imports hi] at hmodule
    obtain rfl := List.inj_on_of_nodup_map h hm' hm hmodule
    exact ⟨slot, List.mem_flatMap.mpr ⟨i, hi, hslot⟩, hfor⟩
  · rintro ⟨slot, hslot, hfor⟩
    obtain ⟨i, hi, hslot⟩ := List.mem_flatMap.mp hslot
    exact ⟨i, List.mem_flatMap.mpr ⟨m, hm, hi⟩, ModulePlan.module_of_mem_imports hi, slot, hslot,
      hfor⟩

theorem map_fst_entries (p : Plan) :
    p.entries.map Prod.fst = (p.modules.filter (·.hasBindings)).map (·.module) := by
  unfold entries
  rw [List.map_filterMap, ← List.filterMap_eq_map, List.filterMap_filter]
  refine List.filterMap_congr fun m _ => ?_
  rw [Option.map_map, ← m.isSome_tableValue?]
  cases m.tableValue? <;> rfl

/-- The keys of the table are different, since the paths of the modules are. -/
theorem nodup_keys (h : (p.modules.map (·.module)).Nodup) :
    (p.entries.map fun e => quoteSingle e.1).Nodup := by
  have hquote : Function.Injective quoteSingle := fun s t hst =>
    Text.escaped_injective (List.append_cancel_left (List.append_cancel_right hst))
  have hfst : (p.entries.map Prod.fst).Nodup := by
    rw [map_fst_entries]
    exact h.sublist (List.filter_sublist.map _)
  rw [← Function.comp_def quoteSingle Prod.fst, ← List.map_map]
  exact hfst.map hquote

end Plan

open Consolidation in
/-- A binding of a plan's records has a slot for it in its module. -/
theorem exists_slot_consolidate (rules : NamingRules) {records : List ImportRecord}
    {r : ImportRecord} (hr : r ∈ records) {b : Binding} (hb : b ∈ r.runtimeBindings)
    (hblank : b.isBlank = false) :
    ∃ m ∈ (consolidate rules records).modules, m.module = r.module ∧
      ∃ slot ∈ m.slots, slot.IsFor b.name b.kind := by
  obtain ⟨slot, hslot, hfor, -⟩ :=
    (sound_foldl rules records).exists_slot (mem_offers.mpr ⟨r, hr, rfl, hb⟩) hblank
  rw [← locatedSlots_settle] at hslot
  obtain ⟨m, hm, hmodule, hslot⟩ := mem_locatedSlots.mp hslot
  exact ⟨m, hm, hmodule, slot, hslot, hfor⟩

/-- **The table is closed and complete**: whatever the records import, the text of a provider is
that of statements and entries where each entry uses names that the statements bind for its module,
and leaves out no export that they import. -/
theorem providesAll_consolidate (rules : NamingRules) (records : List ImportRecord)
    (exportName : Text) :
    (consolidate rules records).provider exportName =
        providerText exportName (consolidate rules records).imports
          (consolidate rules records).entries ∧
      (consolidate rules records).ProvidesAll records := by
  have honce : ((consolidate rules records).modules.map (·.module)).Nodup :=
    nodup_modules_consolidate rules
  have hoffered {r : ImportRecord} (hr : r ∈ records) {b : Binding} (hb : b ∈ r.runtimeBindings)
      (hblank : b.isBlank = false) :=
    exists_slot_consolidate rules hr hb hblank
  refine ⟨Plan.provider_eq exportName _, ?_⟩
  -- of the plan, only that its modules come once and that every binding has a slot counts
  generalize consolidate rules records = p at honce hoffered ⊢
  refine
    { modules := p.map_fst_entries
      keys := Plan.nodup_keys honce
      closed := ?_
      once := ?_
      holds := ?_
      complete := ?_
      offered := ?_
      namespaces := ?_
      spread := ?_ }
  · rintro ⟨_, v⟩ he n hn
    obtain ⟨m, hm, rfl, hv⟩ := Plan.mem_entries.mp he
    obtain ⟨slot, hslot, hname⟩ := ModulePlan.exists_slot_of_mem_localNames hv hn
    exact ⟨slot.exported?, (Plan.binds_iff honce hm).mpr ⟨slot, hslot, rfl, hname⟩⟩
  · rintro ⟨_, v⟩ he
    obtain ⟨m, hm, rfl, hv⟩ := Plan.mem_entries.mp he
    rw [ModulePlan.map_key_members hv]
    exact nodup_eraseDups _
  · rintro ⟨_, v⟩ he member hmember
    obtain ⟨m, hm, rfl, hv⟩ := Plan.mem_entries.mp he
    exact (Plan.binds_iff honce hm).mpr (ModulePlan.exists_slot_of_mem_members hv hmember)
  · rintro ⟨_, v⟩ he exported n hbinds
    obtain ⟨m, hm, rfl, hv⟩ := Plan.mem_entries.mp he
    obtain ⟨slot, hslot, hexported, -⟩ := (Plan.binds_iff honce hm).mp hbinds
    exact ModulePlan.exists_member hv hslot hexported
  · intro r hr b hb hblank
    obtain ⟨m, hm, hmodule, slot, hslot, hfor⟩ := hoffered hr hb hblank
    have hvalue : m.tableValue?.isSome = true := by
      rw [m.isSome_tableValue?, ModulePlan.hasBindings_iff]
      exact List.ne_nil_of_mem hslot
    obtain ⟨v, hv⟩ := Option.isSome_iff_exists.mp hvalue
    exact ⟨v, Plan.mem_entries.mpr ⟨m, hm, hmodule, hv⟩, fun exported hexported =>
      ModulePlan.exists_member hv hslot (hfor.exported?_eq.trans hexported)⟩
  · intro m hm n hdefault hnamed hn
    refine Plan.mem_entries.mpr ⟨m, hm, rfl, ?_⟩
    rw [ModulePlan.tableValue?, hdefault, hnamed, hn]
    rfl
  · intro m hm hclause
    refine ⟨m.tableMembers, Plan.mem_entries.mpr ⟨m, hm, rfl, ?_⟩⟩
    rw [ModulePlan.tableValue?, if_neg]
    rw [Bool.and_eq_true, Option.isNone_iff_eq_none, List.isEmpty_iff, not_and_or]
    exact hclause

/-- A module for its effects has no entry, and one with imports of all kinds has its namespace in
front. -/
example :
    (consolidate ⟨[], 20⟩
      [.ofScript "./polyfill".toList [] true,
      .ofScript "lodash".toList [⟨"_".toList, .default, none, false⟩,
        ⟨"debounce".toList, .named, none, false⟩, ⟨"all".toList, .namespace, none, false⟩] false,
      .ofScript "./icons".toList [⟨"icons".toList, .namespace, none, false⟩] false]).tableEntries =
      [("lodash".toList, "\x7b ...all, default: _, debounce \x7d".toList),
        ("./icons".toList, "icons".toList)] := by decide +kernel

end ScriptSurvey
