import ScriptSurvey.Plan.Render
import ScriptSurvey.Proofs.Plan.Slots

/-!
# The modules of a plan

A plan has a module for each record that is imported for its effects or brings in a name that is not
blank, and no others; each comes once. The table has an entry for those of them that have names.
-/

namespace ScriptSurvey

/-! ## Modules with names -/

namespace ModulePlan

theorem hasBindings_iff {m : ModulePlan} : m.hasBindings = true ↔ m.slots ≠ [] := by
  unfold hasBindings slots
  cases m.default? <;> cases m.named <;> cases m.namespaces <;> simp

theorem hasBindings_settle (m : ModulePlan) : m.settle.hasBindings = m.hasBindings := by
  unfold settle
  split <;> rfl

/-- With one more binding a module has names. -/
theorem hasBindings_bind (b : Binding) (n : Text) (m : ModulePlan) :
    (m.bind b n).hasBindings = true := by
  obtain ⟨slot, -, -, hperm⟩ := exists_slot_bind b n m
  rw [hasBindings_iff]
  intro hnil
  rw [hnil] at hperm
  exact absurd hperm.length_eq (by simp)

/-- A module has a value in the table exactly when it has names. -/
theorem isSome_value? (m : ModulePlan) : m.value?.isSome = m.hasBindings := by
  unfold value? hasBindings
  cases m.default? <;> cases m.named <;> cases m.namespaces <;> rfl

end ModulePlan

/-- Whether a record leaves something in a plan: it is there for its effects, or it has a name that is
not blank and exists when the program runs. -/
def ImportRecord.IsKept (r : ImportRecord) : Prop :=
  r.sideEffect = true ∨ ∃ b ∈ r.runtimeBindings, b.isBlank = false

/-- No name of the record is blank. -/
def ImportRecord.IsNamed (r : ImportRecord) : Prop :=
  ∀ b ∈ r.bindings, b.isBlank = false

theorem ImportRecord.IsNamed.runtime {r : ImportRecord} (h : r.IsNamed) {b : Binding}
    (hb : b ∈ r.runtimeBindings) : b.isBlank = false :=
  h b (List.mem_of_mem_filter hb)

theorem ImportRecord.IsNamed.isKept {r : ImportRecord} (h : r.IsNamed)
    (hr : r.runtimeBindings ≠ [] ∨ r.sideEffect = true) : r.IsKept := by
  rcases hr with hr | hr
  · obtain ⟨b, bs, hbs⟩ := List.exists_cons_of_ne_nil hr
    have hb : b ∈ r.runtimeBindings := by
      rw [hbs]
      exact List.mem_cons_self
    exact .inr ⟨b, hb, h.runtime hb⟩
  · exact .inl hr

/-! ## Which modules there are -/

namespace Plan

/-- A change to a module brings in its path and no other. -/
theorem mem_paths_updateModule {module x : Text} (change : ModulePlan → ModulePlan)
    (hchange : ∀ m, (change m).module = m.module) (ms : List ModulePlan) :
    x ∈ (updateModule module change ms).map (·.module) ↔ x ∈ ms.map (·.module) ∨ x = module := by
  obtain ⟨front, m, back, hupdate, rfl, -, rfl | ⟨hm, rfl, rfl⟩⟩ :=
    exists_updateModule module change ms
  · rw [hupdate]
    simp only [List.map_append, List.map_cons, hchange, List.mem_append, List.mem_cons]
    constructor
    · exact .inl
    · rintro (h | rfl)
      · exact h
      · exact .inr (.inl rfl)
  · rw [hupdate]
    simp only [List.map_append, List.map_cons, List.map_nil, hchange, List.mem_append,
      List.mem_singleton]

/-- What holds of each module holds of each after a change that is made to one, or to an empty one. -/
theorem forall_mem_updateModule {P Q : ModulePlan → Prop} {module : Text}
    {change : ModulePlan → ModulePlan} (hempty : Q (.empty module)) (hweak : ∀ m, P m → Q m)
    (hchange : ∀ m, Q m → P (change m)) {ms : List ModulePlan} (h : ∀ m ∈ ms, P m) :
    ∀ m ∈ updateModule module change ms, P m := by
  obtain ⟨front, m, back, hupdate, -, -, hms⟩ := exists_updateModule module change ms
  have hm : Q m := by
    rcases hms with rfl | ⟨rfl, -, -⟩
    · exact hweak m (h m (by simp))
    · exact hempty
  intro x hx
  rw [hupdate] at hx
  rcases List.mem_append.mp hx with hx | hx
  · rcases hms with rfl | ⟨-, -, rfl⟩
    · exact h x (List.mem_append_left _ hx)
    · exact h x hx
  · rcases List.mem_cons.mp hx with rfl | hx
    · exact hchange m hm
    · rcases hms with rfl | ⟨-, rfl, -⟩
      · exact h x (List.mem_append_right _ (List.mem_cons_of_mem m hx))
      · exact absurd hx List.not_mem_nil

end Plan

namespace Consolidation

variable {reserved : List Text} {off : List (Text × Binding)} {s : State}

/-- The paths of the modules of a plan in the making. -/
def State.paths (s : State) : List Text :=
  s.plan.modules.map (·.module)

theorem mem_paths_addBinding (h : Sound reserved off s) {limit : Nat} {module x : Text}
    {b : Binding} :
    x ∈ (addBinding limit module s b).paths ↔ x ∈ s.paths ∨ (x = module ∧ b.isBlank = false) := by
  rcases addBinding_cases limit module s b with ⟨hleft, hsame⟩ | ⟨hb, -, n, pool, -, -, hadd⟩
  · rw [hsame]
    refine ⟨.inl, fun hx => hx.elim id ?_⟩
    rintro ⟨rfl, hb⟩
    rcases hleft with hblank | ⟨n, hn⟩
    · exact absurd hblank (by rw [hb]; exact Bool.false_ne_true)
    · -- it has a slot, so its module is there
      obtain ⟨slot, hslot, -⟩ := h.filled _ n (mem_of_lookup hn)
      obtain ⟨m, hm, hmodule, -⟩ := mem_locatedSlots.mp hslot
      exact List.mem_map.mpr ⟨m, hm, hmodule⟩
  · rw [hadd]
    refine (Plan.mem_paths_updateModule _ (ModulePlan.module_bind b n) _).trans ?_
    simp only [hb, and_true]
    rfl

theorem mem_paths_addSideEffect {module x : Text} :
    x ∈ (addSideEffect module s).paths ↔ x ∈ s.paths ∨ x = module :=
  Plan.mem_paths_updateModule (fun m => { m with sideEffect := true }) (fun _ => rfl) _

/-- **One more record** brings in its module, if it leaves something in the plan. -/
theorem mem_paths_addRecord (h : Sound reserved off s) {limit : Nat} {r : ImportRecord} {x : Text} :
    x ∈ (addRecord limit s r).paths ↔ x ∈ s.paths ∨ (x = r.module ∧ r.IsKept) := by
  have hbindings : ∀ (bs : List Binding) (off : List (Text × Binding)) (s : State),
      Sound reserved off s →
      (x ∈ (bs.foldl (addBinding limit r.module) s).paths ↔
        x ∈ s.paths ∨ (x = r.module ∧ ∃ b ∈ bs, b.isBlank = false)) := by
    intro bs
    induction bs with
    | nil =>
        intro off s _
        simp
    | cons b bs ih =>
        intro off s h
        rw [List.foldl_cons, ih _ _ (sound_addBinding h limit r.module b), mem_paths_addBinding h,
          List.exists_mem_cons_iff, and_or_left, or_assoc]
  unfold addRecord ImportRecord.IsKept
  by_cases heffect : r.sideEffect = true
  · simp only [heffect, if_true, true_or, and_true]
    rw [mem_paths_addSideEffect, hbindings _ _ _ h, or_assoc]
    refine or_congr_right ⟨?_, .inr⟩
    rintro (⟨hx, -⟩ | hx) <;> exact hx
  · rw [if_neg heffect, hbindings _ _ _ h, or_iff_right heffect]

/-- The modules of all records. -/
theorem mem_paths_foldl (rules : NamingRules) {records : List ImportRecord} {x : Text} :
    x ∈ (records.foldl (addRecord rules.suffixMaxLength) (start rules)).paths ↔
      ∃ r ∈ records, x = r.module ∧ r.IsKept := by
  have hall : ∀ (rs : List ImportRecord) (off : List (Text × Binding)) (s : State),
      Sound rules.reserved off s →
      (x ∈ (rs.foldl (addRecord rules.suffixMaxLength) s).paths ↔
        x ∈ s.paths ∨ ∃ r ∈ rs, x = r.module ∧ r.IsKept) := by
    intro rs
    induction rs with
    | nil =>
        intro off s _
        simp
    | cons r rs ih =>
        intro off s h
        rw [List.foldl_cons, ih _ _ (sound_addRecord h rules.suffixMaxLength r),
          mem_paths_addRecord h, List.exists_mem_cons_iff, or_assoc]
  rw [hall records [] (start rules) (sound_start rules)]
  exact ⟨fun h => h.resolve_left List.not_mem_nil, .inr⟩

/-! ## What every record keeps -/

/-- What every binding and every import for its effects preserves holds of the plan of all records. -/
theorem foldl_invariant {I : State → Prop} {limit : Nat} {records : List ImportRecord}
    (hbinding : ∀ r ∈ records, ∀ b ∈ r.runtimeBindings, ∀ s, I s →
      I (addBinding limit r.module s b))
    (heffect : ∀ r ∈ records, r.sideEffect = true → ∀ s, I s → I (addSideEffect r.module s))
    {s : State} (h : I s) : I (records.foldl (addRecord limit) s) :=
  @foldl_offers (fun _ => I) limit records (fun r hr b hb _ => hbinding r hr b hb)
    (fun r hr hside _ => heffect r hr hside) [] s h

/-- A module is there for its names or for its effects. -/
theorem kept_foldl (rules : NamingRules) (records : List ImportRecord) :
    ∀ m ∈ (records.foldl (addRecord rules.suffixMaxLength) (start rules)).plan.modules,
      m.hasBindings = true ∨ m.sideEffect = true := by
  refine foldl_invariant
    (I := fun s => ∀ m ∈ s.plan.modules, m.hasBindings = true ∨ m.sideEffect = true)
    (fun r _ b _ s hs => ?_) (fun r _ _ s hs => ?_) fun m hm => absurd hm List.not_mem_nil
  · rcases addBinding_cases rules.suffixMaxLength r.module s b with
      ⟨-, hsame⟩ | ⟨-, -, n, pool, -, -, hadd⟩
    · rw [hsame]
      exact hs
    · rw [hadd]
      exact Plan.forall_mem_updateModule (Q := fun _ => True) trivial (fun _ _ => trivial)
        (fun m _ => .inl (ModulePlan.hasBindings_bind b n m)) hs
  · exact Plan.forall_mem_updateModule (Q := fun _ => True) trivial (fun _ _ => trivial)
      (fun m _ => .inr rfl) hs

end Consolidation

/-! ## The plan of all records -/

section

variable (rules : NamingRules) {records : List ImportRecord} {r : ImportRecord}

open Consolidation in
/-- **The modules of a plan** are those of the records that leave something in it. -/
theorem mem_modules_consolidate {path : Text} :
    (∃ m ∈ (consolidate rules records).modules, m.module = path) ↔
      ∃ r ∈ records, path = r.module ∧ r.IsKept := by
  have hpaths : (consolidate rules records).modules.map (·.module) =
      (records.foldl (addRecord rules.suffixMaxLength) (start rules)).paths := by
    unfold consolidate State.paths
    simp only [List.map_map, Function.comp_def, ModulePlan.module_settle]
  rw [← mem_paths_foldl rules, ← hpaths, List.mem_map]

open Consolidation in
/-- A module of a plan has names or is there for its effects. -/
theorem kept_consolidate :
    ∀ m ∈ (consolidate rules records).modules, m.hasBindings = true ∨ m.sideEffect = true := by
  intro m hm
  obtain ⟨x, hx, rfl⟩ := List.mem_map.mp hm
  rw [ModulePlan.hasBindings_settle]
  by_cases hb : x.hasBindings = true
  · exact .inl hb
  · rw [ModulePlan.settle, if_neg hb]
    exact kept_foldl rules records x hx

open Consolidation in
/-- A binding of a plan's records has a local name, and its module has names. -/
theorem exists_localName?_consolidate (hr : r ∈ records) {b : Binding}
    (hb : b ∈ r.runtimeBindings) (hblank : b.isBlank = false) :
    (∃ n, (consolidate rules records).localName? r.module b = some n) ∧
      ∃ m ∈ (consolidate rules records).modules, m.module = r.module ∧ m.hasBindings = true := by
  obtain ⟨slot, hslot, -, hname, -⟩ :=
    (sound_foldl rules records).exists_slot (mem_offers.mpr ⟨r, hr, rfl, hb⟩) hblank
  refine ⟨⟨_, hname⟩, ?_⟩
  obtain ⟨m, hm, hmodule, hmem⟩ := mem_locatedSlots.mp hslot
  refine ⟨m.settle, List.mem_map_of_mem hm, by rw [ModulePlan.module_settle, hmodule], ?_⟩
  rw [ModulePlan.hasBindings_settle, ModulePlan.hasBindings_iff]
  exact List.ne_nil_of_mem hmem

theorem exists_module_of_isKept (hr : r ∈ records) (hkept : r.IsKept) :
    ∃ m ∈ (consolidate rules records).modules, m.module = r.module :=
  (mem_modules_consolidate rules).mpr ⟨r, hr, rfl, hkept⟩

/-- A record with a name that exists when the program runs gives names to its module. -/
theorem hasBindings_of_runtimeBindings (hr : r ∈ records) (hnamed : r.IsNamed)
    (hbindings : r.runtimeBindings ≠ []) {m : ModulePlan}
    (hm : m ∈ (consolidate rules records).modules) (hmodule : m.module = r.module) :
    m.hasBindings = true := by
  obtain ⟨b, bs, hbs⟩ := List.exists_cons_of_ne_nil hbindings
  have hb : b ∈ r.runtimeBindings := by
    rw [hbs]
    exact List.mem_cons_self
  obtain ⟨-, m', hm', hmodule', hhas⟩ := exists_localName?_consolidate rules hr hb (hnamed.runtime hb)
  -- a module comes once
  rwa [List.inj_on_of_nodup_map (nodup_modules_consolidate rules) hm hm' (hmodule.trans hmodule'.symm)]

open Consolidation in
/-- The names of a module come from a record of that module. -/
theorem exists_runtimeBindings_of_hasBindings {m : ModulePlan}
    (hm : m ∈ (consolidate rules records).modules) (h : m.hasBindings = true) :
    ∃ r ∈ records, r.module = m.module ∧ r.runtimeBindings ≠ [] := by
  obtain ⟨x, hx, rfl⟩ := List.mem_map.mp hm
  rw [ModulePlan.hasBindings_settle, ModulePlan.hasBindings_iff] at h
  obtain ⟨slot, hslot⟩ := List.exists_mem_of_ne_nil _ h
  obtain ⟨b, hb, -⟩ := (sound_foldl rules records).exists_binding
    (mem_locatedSlots.mpr ⟨x, hx, rfl, hslot⟩)
  obtain ⟨r, hr, hmodule, hb⟩ := mem_offers.mp hb
  exact ⟨r, hr, hmodule.trans x.module_settle.symm, List.ne_nil_of_mem hb⟩

end

/-- In a list of modules that each come once, only one has the path of a module. -/
theorem filter_module_eq {ms : List ModulePlan} (h : (ms.map (·.module)).Nodup) {m : ModulePlan}
    (hm : m ∈ ms) : ms.filter (·.module == m.module) = [m] := by
  induction ms with
  | nil => exact absurd hm List.not_mem_nil
  | cons x ms ih =>
      rw [List.map_cons, List.nodup_cons] at h
      rcases List.mem_cons.mp hm with rfl | hm
      · have hnone : ms.filter (·.module == m.module) = [] := by
          refine List.filter_eq_nil_iff.mpr fun y hy he => h.1 ?_
          exact List.mem_map.mpr ⟨y, hy, beq_iff_eq.mp he⟩
        rw [List.filter_cons, if_pos (beq_self_eq_true _), hnone]
      · have hne : ¬((x.module == m.module) = true) := by
          rw [beq_iff_eq]
          intro he
          exact h.1 (List.mem_map.mpr ⟨m, hm, he.symm⟩)
        rw [List.filter_cons, if_neg hne, ih h.2 hm]

/-- **A module of a plan has one entry in the table** if it has names, and else none. -/
theorem length_tableEntries {p : Plan} (h : (p.modules.map (·.module)).Nodup) {m : ModulePlan}
    (hm : m ∈ p.modules) :
    (p.tableEntries.filter (·.1 == m.module)).length = if m.hasBindings then 1 else 0 := by
  have hentries : p.tableEntries.filter (·.1 == m.module) =
      (p.modules.filter (·.module == m.module)).filterMap fun x => x.value?.map fun v => (x.module, v) := by
    unfold Plan.tableEntries
    rw [List.filter_filterMap, List.filterMap_filter]
    refine List.filterMap_congr fun x _ => ?_
    cases x.value? with
    | none => simp
    | some v => simp [Option.filter]
  rw [hentries, filter_module_eq h hm, List.filterMap_cons, List.filterMap_nil, ← m.isSome_value?]
  cases m.value? <;> rfl

end ScriptSurvey
