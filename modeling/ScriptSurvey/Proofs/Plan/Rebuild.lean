import ScriptSurvey.Proofs.Import.Records
import ScriptSurvey.Proofs.Plan.ReadBack

/-!
# A plan made again

The records that the statements of a plan are read as make the same plan again. Each of their
bindings wants the name that it was given, and no two of them the same, so every name is free when it
is asked for and is given as it is. What one record brings in is then the module it was written for,
with its names in their order.
-/

namespace ScriptSurvey

/-- A quote is not blank. -/
theorem Text.IsClosedQuote.isAllBlank {q : Text} (h : q.IsClosedQuote) : isAllBlank q = false := by
  obtain ⟨kind, body, -, rfl, -⟩ := h
  exact isAllBlank_cons (by cases kind <;> decide) body

/-! ## Names that are free -/

namespace Consolidation

/-- What holds of a plan in the making as long as every binding is given the name it wants. -/
structure AsWanted (reserved : List Text) (s : State) : Prop where
  /-- The names taken are those reserved and those given. -/
  taken : ∀ n, n ∈ s.pool.taken ↔ n ∈ reserved ∨ n ∈ s.plan.localNames
  /-- Each name is the binding's own. -/
  own : ∀ k n, (k, n) ∈ s.plan.names → n = k.alias?.getD k.name

variable {reserved : List Text} {s : State}

theorem asWanted_start (rules : NamingRules) : AsWanted rules.reserved (start rules) where
  taken := (sound_start rules).taken
  own _ _ hk := absurd hk List.not_mem_nil

/-- A binding whose name is free is given it. -/
theorem addBinding_of_free (h : AsWanted reserved s) (limit : Nat) (module : Text) {b : Binding}
    (hblank : b.isBlank = false) (hreserved : b.localName ∉ reserved)
    (hfree : b.localName ∉ s.plan.localNames) :
    AsWanted reserved (addBinding limit module s b) ∧
      (addBinding limit module s b).plan.modules =
        Plan.updateModule module (ModulePlan.bind b b.localName) s.plan.modules ∧
      (addBinding limit module s b).plan.localNames = s.plan.localNames ++ [b.localName] := by
  rcases addBinding_cases limit module s b with ⟨hleft, -⟩ | ⟨-, -, n, pool, -, hgives, hadd⟩
  · exfalso
    rcases hleft with hb | ⟨n, hn⟩
    · exact Bool.false_ne_true (hblank.symm.trans hb)
    · -- a binding that is there has its own name
      have hmem := mem_of_lookup hn
      have hn : n = b.localName := h.own _ n hmem
      exact hfree (List.mem_map.mpr ⟨_, hmem, hn⟩)
  · have hn : n = b.localName := by
      refine hgives.kept fun hmem => ?_
      rcases (h.taken _).mp hmem with hr | hl
      · exact hreserved hr
      · exact hfree hl
    have hnames := s.plan.localNames_concat
      (Plan.updateModule module (ModulePlan.bind b n) s.plan.modules) (b.key module) n
    rw [hadd]
    refine ⟨⟨?_, ?_⟩, by rw [hn], by rw [hnames, hn]⟩
    · rw [hnames]
      exact hgives.mem_taken_iff h.taken
    · intro k x hk
      rcases List.mem_append.mp hk with hk | hk
      · exact h.own k x hk
      · rw [List.mem_singleton, Prod.mk.injEq] at hk
        obtain ⟨rfl, rfl⟩ := hk
        exact hn

/-- Bindings that are given their names, in a row. -/
theorem foldl_addBinding_of_free (h : AsWanted reserved s) (limit : Nat) (module : Text)
    {bs : List Binding} (hblank : ∀ b ∈ bs, b.isBlank = false)
    (hreserved : ∀ b ∈ bs, b.localName ∉ reserved)
    (hfree : (s.plan.localNames ++ bs.map (·.localName)).Nodup) :
    AsWanted reserved (bs.foldl (addBinding limit module) s) ∧
      (bs.foldl (addBinding limit module) s).plan.modules =
        bs.foldl (fun ms b => Plan.updateModule module (ModulePlan.bind b b.localName) ms)
          s.plan.modules ∧
      (bs.foldl (addBinding limit module) s).plan.localNames =
        s.plan.localNames ++ bs.map (·.localName) := by
  -- each name is free when its turn comes: it is none of those given before
  induction bs generalizing s with
  | nil => exact ⟨h, rfl, (List.append_nil _).symm⟩
  | cons b bs ih =>
      have hb : b.localName ∉ s.plan.localNames := by
        intro hmem
        rw [List.map_cons, List.nodup_append] at hfree
        exact hfree.2.2 _ hmem _ List.mem_cons_self rfl
      obtain ⟨hwanted, hmodules, hnames⟩ := addBinding_of_free h limit module
        (hblank b List.mem_cons_self) (hreserved b List.mem_cons_self) hb
      have hrest : ((addBinding limit module s b).plan.localNames ++
          bs.map (·.localName)).Nodup := by
        rw [hnames, List.append_assoc]
        exact hfree
      obtain ⟨hwanted', hmodules', hnames'⟩ := ih hwanted
        (fun x hx => hblank x (List.mem_cons_of_mem b hx))
        (fun x hx => hreserved x (List.mem_cons_of_mem b hx)) hrest
      refine ⟨hwanted', ?_, ?_⟩
      · rw [List.foldl_cons, hmodules', hmodules, List.foldl_cons]
      · rw [List.foldl_cons, hnames', hnames, List.append_assoc]
        rfl

end Consolidation

/-! ## A module made again -/

namespace Plan

variable {module : Text} {change : ModulePlan → ModulePlan} {ms : List ModulePlan}

/-- Modules with other paths are passed. -/
theorem updateModule_append (h : ∀ m ∈ ms, m.module ≠ module) (ns : List ModulePlan) :
    updateModule module change (ms ++ ns) = ms ++ updateModule module change ns := by
  induction ms with
  | nil => rfl
  | cons m ms ih =>
      rw [List.cons_append, updateModule, if_neg (h m List.mem_cons_self),
        ih fun x hx => h x (List.mem_cons_of_mem m hx), List.cons_append]

theorem updateModule_new (h : ∀ m ∈ ms, m.module ≠ module) :
    updateModule module change ms = ms ++ [change (.empty module)] := by
  have hnew : updateModule module change (ms ++ []) = ms ++ updateModule module change [] :=
    updateModule_append h []
  rwa [List.append_nil] at hnew

end Plan

namespace ModulePlan

/-- A module with more bindings, each under its own name. -/
def bindAll (bs : List Binding) (m : ModulePlan) : ModulePlan :=
  bs.foldl (fun m b => m.bind b b.localName) m

theorem bindAll_append (bs cs : List Binding) (m : ModulePlan) :
    m.bindAll (bs ++ cs) = (m.bindAll bs).bindAll cs :=
  List.foldl_append

theorem bindAll_default (module : Text) (d : Option Text) :
    (empty module).bindAll (d.toList.map .ofDefault) = { empty module with default? := d } := by
  cases d <;> rfl

/-- The binding of a named import makes it, with a default import in front if it is called
`default`. -/
theorem bind_binding {n : NamedImport} {m : ModulePlan}
    (h : n.exported = "default".toList → m.default?.isSome = true) :
    m.bind n.binding n.binding.localName = { m with named := m.named ++ [n] } := by
  obtain ⟨exported, localName⟩ := n
  unfold NamedImport.binding
  split
  · split
    · next hname =>
        obtain ⟨d, hd⟩ := Option.isSome_iff_exists.mp (h hname)
        obtain rfl : exported = "default".toList := hname
        simp only [bind, hd]
        rfl
    · rfl
  · next hsame =>
      obtain rfl : exported = localName := by simpa [NamedImport.isRenamed] using hsame
      rfl

theorem bindAll_named {ns : List NamedImport} {m : ModulePlan}
    (h : ∀ n ∈ ns, n.exported = "default".toList → m.default?.isSome = true) :
    m.bindAll (ns.map (·.binding)) = { m with named := m.named ++ ns } := by
  induction ns generalizing m with
  | nil => simp [bindAll]
  | cons n ns ih =>
      have hrest := ih (m := { m with named := m.named ++ [n] }) fun x hx =>
        h x (List.mem_cons_of_mem n hx)
      rw [bindAll] at hrest
      rw [List.map_cons, bindAll, List.foldl_cons, bind_binding (h n List.mem_cons_self), hrest,
        List.append_assoc]
      rfl

theorem bindAll_namespaces (ns : List Text) (m : ModulePlan) :
    m.bindAll (ns.map .ofNamespace) = { m with namespaces := m.namespaces ++ ns } := by
  induction ns generalizing m with
  | nil => simp [bindAll]
  | cons n ns ih =>
      have hrest := ih { m with namespaces := m.namespaces ++ [n] }
      rw [bindAll] at hrest
      rw [List.map_cons, bindAll, List.foldl_cons]
      refine hrest.trans ?_
      rw [List.append_assoc]
      rfl

/-- **The bindings of a module make it again**, without its effects. -/
theorem IsArranged.bindAll_bindings {m : ModulePlan} (h : m.IsArranged) :
    (empty m.module).bindAll m.bindings = { m with sideEffect := false } := by
  rw [bindings, clauseBindings, bindAll_append, bindAll_append, bindAll_default,
    bindAll_named (m := { empty m.module with default? := m.default? }) h, bindAll_namespaces]
  rfl

/-- The bindings of a module have the names of its slots. -/
theorem localName_bindings (m : ModulePlan) :
    m.bindings.map (·.localName) = m.slots.map (·.localName) := by
  have hnamed (n : NamedImport) : n.binding.localName = n.localName := by
    unfold NamedImport.binding
    split
    · split <;> rfl
    · rfl
  unfold bindings clauseBindings slots
  simp only [List.map_append, List.map_map, List.append_assoc, Function.comp_def, hnamed]
  rfl

variable {m : ModulePlan}

/-- What a writable module imports is not blank, and exists when the program runs. -/
theorem IsWritable.of_mem_bindings (h : m.IsWritable) {b : Binding} (hb : b ∈ m.bindings) :
    b.isBlank = false ∧ b.typeOnly = false := by
  have hname {t : Text} (ht : t.IsBindable) : Text.isAllBlank t = false :=
    Text.isAllBlank_of_isIdentifier ht.1
  rw [bindings, clauseBindings, List.append_assoc, List.mem_append, List.mem_append, List.mem_map,
    List.mem_map, List.mem_map] at hb
  rcases hb with ⟨d, hd, rfl⟩ | ⟨n, hn, rfl⟩ | ⟨n, hn, rfl⟩
  · have hd : Text.isAllBlank d = false := hname (h.names (.default d) (by simp_all [slots]))
    exact ⟨by simp [Binding.isBlank, Binding.ofDefault, hd], rfl⟩
  · have hlocal := hname (h.isReadable.named hn)
    have hexported : Text.isAllBlank n.exported = false := by
      rcases h.exported n hn with hid | hquote
      · exact Text.isAllBlank_of_isIdentifier hid
      · exact hquote.isAllBlank
    unfold NamedImport.binding
    split
    · split
      · exact ⟨by simp [Binding.isBlank, hlocal], rfl⟩
      · exact ⟨by simp [Binding.isBlank, hlocal, hexported], rfl⟩
    · exact ⟨by simp [Binding.isBlank, hlocal], rfl⟩
  · have hn : Text.isAllBlank n = false := hname (h.names (.namespace n) (by simp [slots, hn]))
    exact ⟨by simp [Binding.isBlank, Binding.ofNamespace, hn], rfl⟩

theorem IsWritable.settle (h : m.IsWritable) : m.settle = m := by
  obtain ⟨module, default?, named, namespaces, sideEffect⟩ := m
  have heffect := h.effect
  unfold ModulePlan.settle
  split
  · next hb =>
      rw [hb] at heffect
      obtain rfl : sideEffect = false := heffect
      rfl
  · rfl

end ModulePlan

namespace Consolidation

variable {reserved : List Text} {s : State} {m : ModulePlan}

/-- The bindings of a new module, added one after another, come behind all other modules. -/
theorem foldl_updateModule {ms : List ModulePlan} {module : Text}
    (h : ∀ x ∈ ms, x.module ≠ module) {bs : List Binding} (hne : bs ≠ []) :
    bs.foldl (fun ms b => Plan.updateModule module (ModulePlan.bind b b.localName) ms) ms =
      ms ++ [(ModulePlan.empty module).bindAll bs] := by
  -- the first binding makes the module, at the end; the others find it there
  have hlast : ∀ (bs : List Binding) (x : ModulePlan), x.module = module →
      bs.foldl (fun ms b => Plan.updateModule module (ModulePlan.bind b b.localName) ms)
        (ms ++ [x]) = ms ++ [x.bindAll bs] := by
    intro bs
    induction bs with
    | nil =>
        intro x _
        rfl
    | cons b bs ih =>
        intro x hx
        rw [List.foldl_cons, Plan.updateModule_append h, Plan.updateModule, if_pos hx,
          ih _ ((ModulePlan.module_bind b _ x).trans hx)]
        rfl
  cases bs with
  | nil => exact absurd rfl hne
  | cons b bs =>
      rw [List.foldl_cons, Plan.updateModule_new h,
        hlast bs _ (ModulePlan.module_bind b _ (.empty module))]
      rfl

/-- **The record of a new module brings it in as it was**, when its names are free. -/
theorem addRecord_record (h : AsWanted reserved s) (limit : Nat) (hm : m.IsWritable)
    (hnew : ∀ x ∈ s.plan.modules, x.module ≠ m.module)
    (hreserved : ∀ slot ∈ m.slots, slot.localName ∉ reserved)
    (hfree : (s.plan.localNames ++ m.slots.map (·.localName)).Nodup) :
    AsWanted reserved (addRecord limit s m.record) ∧
      (addRecord limit s m.record).plan.modules = s.plan.modules ++ [m] ∧
      (addRecord limit s m.record).plan.localNames =
        s.plan.localNames ++ m.slots.map (·.localName) := by
  have hruntime : m.record.runtimeBindings = m.bindings := by
    refine List.filter_eq_self.mpr fun b hb => ?_
    rw [(hm.of_mem_bindings hb).2]
    rfl
  have hunreserved : ∀ b ∈ m.bindings, b.localName ∉ reserved := by
    intro b hb
    have hmem : b.localName ∈ m.slots.map (·.localName) := by
      rw [← m.localName_bindings]
      exact List.mem_map_of_mem hb
    obtain ⟨slot, hslot, hname⟩ := List.mem_map.mp hmem
    exact hname ▸ hreserved slot hslot
  rw [← m.localName_bindings] at hfree ⊢
  obtain ⟨hwanted, hmodules, hnames⟩ := foldl_addBinding_of_free h limit m.module
    (fun b hb => (hm.of_mem_bindings hb).1) hunreserved hfree
  have hmade := hm.arranged.bindAll_bindings
  have heffect := hm.effect
  have hslots : m.bindings = [] ↔ m.slots = [] := by
    rw [← List.map_eq_nil_iff (f := (·.localName)), m.localName_bindings, List.map_eq_nil_iff]
  unfold addRecord
  rw [hruntime, show m.record.sideEffect = m.sideEffect from rfl,
    show m.record.module = m.module from rfl]
  by_cases hb : m.hasBindings = true
  · rw [hb, Bool.not_true] at heffect
    have hne : m.bindings ≠ [] := fun he => ModulePlan.hasBindings_iff.mp hb (hslots.mp he)
    have hsame : ({ m with sideEffect := false } : ModulePlan) = m := by rw [← heffect]
    rw [heffect, if_neg Bool.false_ne_true]
    refine ⟨hwanted, ?_, hnames⟩
    rw [hmodules, foldl_updateModule hnew hne, hmade, hsame]
  · -- nothing is bound, so the module is there for its effects
    rw [Bool.not_eq_true] at hb
    rw [hb, Bool.not_false] at heffect
    have hnil : m.bindings = [] := by
      refine hslots.mpr (Classical.byContradiction fun hne => ?_)
      exact Bool.false_ne_true (hb.symm.trans (ModulePlan.hasBindings_iff.mpr hne))
    have hsame : ({ ModulePlan.empty m.module with sideEffect := true } : ModulePlan) = m := by
      rw [hnil] at hmade
      rw [show ModulePlan.empty m.module = { m with sideEffect := false } from hmade, ← heffect]
    rw [heffect, if_pos rfl, hnil, List.map_nil, List.append_nil]
    refine ⟨⟨h.taken, h.own⟩, ?_, rfl⟩
    exact (Plan.updateModule_new hnew).trans (by rw [hsame])

/-- **The records of a plan make its modules again**, one after another. -/
theorem foldl_addRecord_record (h : AsWanted reserved s) (limit : Nat) {ms : List ModulePlan}
    (hms : ∀ m ∈ ms, m.IsWritable)
    (honce : (s.plan.modules.map (·.module) ++ ms.map (·.module)).Nodup)
    (hreserved : ∀ m ∈ ms, ∀ slot ∈ m.slots, slot.localName ∉ reserved)
    (hfree : (s.plan.localNames ++ ms.flatMap fun m => m.slots.map (·.localName)).Nodup) :
    ((ms.map ModulePlan.record).foldl (addRecord limit) s).plan.modules =
      s.plan.modules ++ ms := by
  -- each module is new when its turn comes, and so are its names
  induction ms generalizing s with
  | nil => exact (List.append_nil _).symm
  | cons m ms ih =>
      have hnew : ∀ x ∈ s.plan.modules, x.module ≠ m.module := by
        intro x hx he
        rw [List.map_cons, List.nodup_append] at honce
        exact honce.2.2 _ (List.mem_map_of_mem hx) _ List.mem_cons_self he
      rw [List.flatMap_cons, ← List.append_assoc] at hfree
      obtain ⟨hwanted, hmodules, hnames⟩ := addRecord_record h limit (hms m List.mem_cons_self)
        hnew (hreserved m List.mem_cons_self) (List.Nodup.of_append_left hfree)
      have hrest := ih hwanted (fun x hx => hms x (List.mem_cons_of_mem m hx))
        (by
          rw [hmodules, List.map_append, List.append_assoc]
          exact honce)
        (fun x hx => hreserved x (List.mem_cons_of_mem m hx)) (by rwa [hnames])
      rw [List.map_cons, List.foldl_cons, hrest, hmodules, List.append_assoc]
      rfl

/-- A record brings in what its content does. -/
theorem foldl_addRecord_content (limit : Nat) (records : List ImportRecord) (s : State) :
    (records.map ImportRecord.content).foldl (addRecord limit) s =
      records.foldl (addRecord limit) s := by
  rw [List.foldl_map]
  rfl

end Consolidation

/-! ## A plan made again -/

open Consolidation in
/-- **Records with the content of a plan make its modules again**, under all rules that reserve none
of its names. -/
theorem Plan.IsWritable.modules_consolidate {p : Plan} (h : p.IsWritable) (rules : NamingRules)
    (hreserved : ∀ n ∈ p.slotNames, n ∉ rules.reserved) {records : List ImportRecord}
    (hrecords : records.map ImportRecord.content = p.modules.map ModulePlan.record) :
    (consolidate rules records).modules = p.modules := by
  have hnames : p.slotNames = p.modules.flatMap fun m => m.slots.map (·.localName) := by
    simp only [slotNames, locatedSlots, List.map_flatMap, List.map_map]
    rfl
  have hmodules := foldl_addRecord_record (asWanted_start rules) rules.suffixMaxLength h.modules
    h.once
    (fun m hm slot hs => hreserved _ (by
      rw [hnames]
      exact List.mem_flatMap.mpr ⟨m, hm, List.mem_map_of_mem hs⟩))
    (hnames ▸ h.distinct)
  have hsettle : p.modules.map ModulePlan.settle = p.modules := by
    refine (List.map_congr_left fun m hm => (h.modules m hm).settle).trans ?_
    exact List.map_id _
  unfold consolidate
  rw [← foldl_addRecord_content, hrecords]
  show List.map ModulePlan.settle _ = _
  rw [hmodules]
  exact hsettle

/-- **Statements are a fixpoint.** When the statements of a plan of writable records are read again,
and the records found are made into a plan with no names reserved, it has the same modules, with the
same names in the same order, and the same statements. -/
theorem consolidate_readScriptImports_statements (rules : NamingRules) {records : List ImportRecord}
    (h : ∀ r ∈ records, r.IsWritable) (importer : Text) :
    (consolidate .standard (readScriptImports importer
        (List.intercalate ['\n'] (consolidate rules records).statements)).records).modules =
      (consolidate rules records).modules ∧
    (consolidate .standard (readScriptImports importer
        (List.intercalate ['\n'] (consolidate rules records).statements)).records).statements =
      (consolidate rules records).statements := by
  have hwritable := isWritable_consolidate rules h
  have hmodules := hwritable.modules_consolidate .standard
    (fun n _ hn => absurd hn List.not_mem_nil) (hwritable.content_statements importer)
  exact ⟨hmodules, congrArg (List.flatMap ModulePlan.statements) hmodules⟩

/-- Two default exports, a quoted name and names that are words of the grammar, of a module that is
there for its effects too, and a name that is reserved. -/
theorem consolidate_readScriptImports_type_from :
    ∃ records : List ImportRecord, (∀ r ∈ records, r.IsWritable) ∧
      (consolidate ⟨["a".toList], 20⟩ records).statements =
        ["import type, \x7b default as from, 'x, y' as as, a as a1 \x7d from './m';".toList,
          "import * as all from './m';".toList, "import 'b';".toList] ∧
      (consolidate .standard (readScriptImports [] (List.intercalate ['\n']
          (consolidate ⟨["a".toList], 20⟩ records).statements)).records).modules =
        (consolidate ⟨["a".toList], 20⟩ records).modules ∧
      (consolidate .standard (readScriptImports [] (List.intercalate ['\n']
          (consolidate ⟨["a".toList], 20⟩ records).statements)).records).statements =
        (consolidate ⟨["a".toList], 20⟩ records).statements := by
  let bindings : List Binding :=
    [⟨"type".toList, .default, none, false⟩, ⟨"from".toList, .default, none, false⟩,
      ⟨"'x, y'".toList, .named, some "as".toList, false⟩, ⟨"a".toList, .named, none, false⟩,
      ⟨"all".toList, .namespace, none, false⟩]
  have hquote : Text.IsClosedQuote "'x, y'".toList :=
    ⟨.single, "x, y'".toList, rfl, rfl, by decide⟩
  have hbindings : ∀ b ∈ bindings, b.IsWritable := by
    intro b hb
    refine ⟨?_, ?_⟩
    · have hall : ∀ b ∈ bindings, b.localName.IsBindable := by
        unfold Text.IsBindable
        decide
      exact hall b hb
    · have hall : ∀ b ∈ bindings, b.kind = .named →
          Text.isIdentifier b.name = true ∧ b.name ≠ "default".toList ∨ b.name = "'x, y'".toList := by
        decide
      intro hkind
      rcases hall b hb hkind with hid | he
      · exact .inl hid
      · exact .inr (he ▸ hquote)
  have hrecords : ∀ r ∈ [ImportRecord.ofScript "./m".toList bindings true,
      .ofScript "b".toList [] true], r.IsWritable := by
    intro r hr
    rcases List.mem_cons.mp hr with rfl | hr
    · refine ⟨by unfold Text.IsCleanPath; decide, fun b hb => hbindings b ?_⟩
      exact List.mem_of_mem_filter hb
    · rw [List.mem_singleton.mp hr]
      exact ⟨by unfold Text.IsCleanPath; decide, fun b hb => absurd hb List.not_mem_nil⟩
  exact ⟨_, hrecords, by decide +kernel,
    consolidate_readScriptImports_statements ⟨["a".toList], 20⟩ hrecords []⟩

end ScriptSurvey
