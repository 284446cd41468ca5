import ScriptSurvey.Proofs.Plan.Modules

/-!
# Plans grow

More records only add to a plan. What they find there stays: each local name, each module in its
place, and in each module the names in their places (`Plan.GrowsInto`). The one gap that they may
fill is a default import that a module does not have yet.

Records that say nothing new add nothing. A binding with a key that has a name is left out, and the
effects of a module that is there already are lost on it, since it either has names, which take the
place of its effects, or is there for its effects anyway.
-/

namespace ScriptSurvey

/-! ## Growth -/

namespace ModulePlan

/-- What may become of a module when more is imported from it. -/
structure GrowsInto (m m' : ModulePlan) : Prop where
  /-- It is the same module. -/
  module : m'.module = m.module
  /-- A default import stays, and keeps its name. -/
  default? : ∀ n, m.default? = some n → m'.default? = some n
  /-- New named imports come last. -/
  named : m.named <+: m'.named
  /-- New namespaces come last. -/
  namespaces : m.namespaces <+: m'.namespaces

variable {m₁ m₂ m₃ : ModulePlan}

theorem GrowsInto.refl (m : ModulePlan) : m.GrowsInto m :=
  ⟨rfl, fun _ h => h, List.prefix_rfl, List.prefix_rfl⟩

theorem GrowsInto.trans (h : m₁.GrowsInto m₂) (h' : m₂.GrowsInto m₃) : m₁.GrowsInto m₃ where
  module := h'.module.trans h.module
  default? n hn := h'.default? n (h.default? n hn)
  named := h.named.trans h'.named
  namespaces := h.namespaces.trans h'.namespaces

/-- One more binding fills the default import or comes last in its list. -/
theorem growsInto_bind (b : Binding) (n : Text) (m : ModulePlan) : m.GrowsInto (m.bind b n) := by
  unfold bind
  cases b.kind with
  | «default» =>
      cases hd : m.default? with
      | none =>
          refine ⟨rfl, ?_, List.prefix_rfl, List.prefix_rfl⟩
          intro x hx
          rw [hd] at hx
          exact absurd hx (Option.some_ne_none x).symm
      | some d => exact ⟨rfl, fun _ h => hd.symm.trans h, List.prefix_append _ _, List.prefix_rfl⟩
  | named => exact ⟨rfl, fun _ h => h, List.prefix_append _ _, List.prefix_rfl⟩
  | «namespace» => exact ⟨rfl, fun _ h => h, List.prefix_rfl, List.prefix_append _ _⟩

/-- Whether the effects of a module are left out says nothing about its names. -/
theorem GrowsInto.settle (h : m₁.GrowsInto m₂) : m₁.settle.GrowsInto m₂.settle := by
  have hsettle : ∀ m : ModulePlan, m.GrowsInto m.settle ∧ m.settle.GrowsInto m := by
    intro m
    unfold ModulePlan.settle
    split
    · exact ⟨⟨rfl, fun _ h => h, List.prefix_rfl, List.prefix_rfl⟩,
        ⟨rfl, fun _ h => h, List.prefix_rfl, List.prefix_rfl⟩⟩
    · exact ⟨.refl m, .refl m⟩
  exact ((hsettle m₁).2.trans h).trans (hsettle m₂).1

end ModulePlan

namespace Plan

/-- What may become of the modules of a plan: those that are there come first, in their order and
each grown, and after them come any others. -/
inductive ModulesGrow : List ModulePlan → List ModulePlan → Prop
  | nil (new : List ModulePlan) : ModulesGrow [] new
  | cons {m m' : ModulePlan} {ms ms' : List ModulePlan} (head : m.GrowsInto m')
      (tail : ModulesGrow ms ms') : ModulesGrow (m :: ms) (m' :: ms')

namespace ModulesGrow

variable {ms₁ ms₂ ms₃ : List ModulePlan}

theorem refl (ms : List ModulePlan) : ModulesGrow ms ms := by
  induction ms with
  | nil => exact .nil []
  | cons m ms ih => exact .cons (.refl m) ih

theorem trans (h : ModulesGrow ms₁ ms₂) (h' : ModulesGrow ms₂ ms₃) : ModulesGrow ms₁ ms₃ := by
  induction h generalizing ms₃ with
  | nil new => exact .nil ms₃
  | cons head _ ih =>
      cases h' with
      | cons head' tail' => exact .cons (head.trans head') (ih tail')

theorem settle (h : ModulesGrow ms₁ ms₂) :
    ModulesGrow (ms₁.map ModulePlan.settle) (ms₂.map ModulePlan.settle) := by
  induction h with
  | nil new => exact .nil _
  | cons head _ ih => exact .cons head.settle ih

end ModulesGrow

/-- A change under which every module grows is growth of the plan's modules. -/
theorem modulesGrow_updateModule {module : Text} {change : ModulePlan → ModulePlan}
    (hchange : ∀ m : ModulePlan, m.GrowsInto (change m)) (ms : List ModulePlan) :
    ModulesGrow ms (updateModule module change ms) := by
  induction ms with
  | nil => exact .nil _
  | cons m ms ih =>
      unfold updateModule
      split
      · exact .cons (hchange m) (.refl ms)
      · exact .cons (.refl m) ih

/-- What may become of a plan when there are more records. -/
structure GrowsInto (p p' : Plan) : Prop where
  /-- Its modules come first. -/
  modules : ModulesGrow p.modules p'.modules
  /-- A binding that has a local name keeps it. -/
  names : ∀ module b n, p.localName? module b = some n → p'.localName? module b = some n

theorem GrowsInto.refl (p : Plan) : p.GrowsInto p :=
  ⟨.refl p.modules, fun _ _ _ h => h⟩

theorem GrowsInto.trans {p₁ p₂ p₃ : Plan} (h : p₁.GrowsInto p₂) (h' : p₂.GrowsInto p₃) :
    p₁.GrowsInto p₃ where
  modules := h.modules.trans h'.modules
  names module b n hn := h'.names module b n (h.names module b n hn)

end Plan

namespace Consolidation

variable {limit : Nat} {s : State}

/-- **Every binding that comes next only adds to a plan.** -/
theorem growsInto_addBinding (limit : Nat) (module : Text) (s : State) (b : Binding) :
    s.plan.GrowsInto (addBinding limit module s b).plan := by
  rcases addBinding_cases limit module s b with ⟨-, hsame⟩ | ⟨-, -, n, pool, -, -, hadd⟩
  · rw [hsame]
    exact .refl s.plan
  · rw [hadd]
    refine ⟨Plan.modulesGrow_updateModule (ModulePlan.growsInto_bind b n) _, ?_⟩
    intro module' b' n' hn
    rw [Plan.localName?] at hn ⊢
    rw [List.lookup_append, hn, Option.some_or]

/-- An import for its effects leaves all names where they are. -/
theorem growsInto_addSideEffect (module : Text) (s : State) :
    s.plan.GrowsInto (addSideEffect module s).plan := by
  refine ⟨Plan.modulesGrow_updateModule (fun m => ?_) s.plan.modules, fun _ _ _ h => h⟩
  exact ⟨rfl, fun _ h => h, List.prefix_rfl, List.prefix_rfl⟩

/-- Records only add to a plan. -/
theorem growsInto_foldl (limit : Nat) (s : State) (records : List ImportRecord) :
    s.plan.GrowsInto (records.foldl (addRecord limit) s).plan :=
  foldl_invariant (I := fun s' => s.plan.GrowsInto s'.plan)
    (fun r _ b _ s' hs => hs.trans (growsInto_addBinding limit r.module s' b))
    (fun r _ _ s' hs => hs.trans (growsInto_addSideEffect r.module s')) (.refl s.plan)

end Consolidation

/-! ## Nothing new -/

/-- Whether a plan of some records has all that a record says: each of its bindings that exists when
the program runs has a blank name or the key of one that is there, and if it is there for its
effects, the plan has its module. -/
structure ImportRecord.IsSaidBy (rules : NamingRules) (records : List ImportRecord)
    (r : ImportRecord) : Prop where
  bindings : ∀ b ∈ r.runtimeBindings, b.isBlank = false →
    ∃ r' ∈ records, ∃ b' ∈ r'.runtimeBindings, b'.key r'.module = b.key r.module
  effect : r.sideEffect = true → ∃ m ∈ (consolidate rules records).modules, m.module = r.module

/-- The effects of a module that is there already are lost or known. -/
theorem ModulePlan.settle_effect {m : ModulePlan}
    (h : m.settle.hasBindings = true ∨ m.settle.sideEffect = true) :
    settle { m with sideEffect := true } = m.settle := by
  have hsame : ModulePlan.hasBindings { m with sideEffect := true } = m.hasBindings := rfl
  rw [hasBindings_settle] at h
  by_cases hb : m.hasBindings = true
  · rw [settle, settle, hsame, if_pos hb, if_pos hb]
  · have heffect := h.resolve_left hb
    rw [settle, if_neg hb] at heffect
    rw [settle, settle, hsame, if_neg hb, if_neg hb, ← heffect]

/-- An import for its effects does not show in the modules if its module is one of them. -/
theorem Plan.map_settle_updateModule {module : Text} {ms : List ModulePlan}
    (hmem : module ∈ ms.map (·.module))
    (hkept : ∀ m ∈ ms.map ModulePlan.settle, m.hasBindings = true ∨ m.sideEffect = true) :
    (updateModule module ({ · with sideEffect := true }) ms).map ModulePlan.settle =
      ms.map ModulePlan.settle := by
  induction ms with
  | nil => exact absurd hmem List.not_mem_nil
  | cons m ms ih =>
      rw [List.map_cons, List.forall_mem_cons] at hkept
      by_cases hm : m.module = module
      · rw [updateModule, if_pos hm, List.map_cons, List.map_cons, ModulePlan.settle_effect hkept.1]
      · rw [updateModule, if_neg hm, List.map_cons, List.map_cons,
          ih ((List.mem_cons.mp hmem).resolve_left (Ne.symm hm)) hkept.2]

/-- A key tells whether a name of its binding is blank. -/
theorem Binding.isBlank_of_key {module module' : Text} {b b' : Binding}
    (h : b'.key module' = b.key module) : b'.isBlank = b.isBlank := by
  have hname : b'.name = b.name := congrArg BindingKey.name h
  have halias : b'.alias? = b.alias? := congrArg BindingKey.alias? h
  rw [Binding.isBlank, Binding.isBlank, hname, halias]

section

variable (rules : NamingRules) {records more : List ImportRecord}

open Consolidation in
/-- **Records that say nothing new add nothing.** -/
theorem consolidate_append_of_isSaidBy (h : ∀ r ∈ more, r.IsSaidBy rules records) :
    consolidate rules (records ++ more) = consolidate rules records := by
  have hsound := sound_foldl rules records
  have hkept := @kept_consolidate rules records
  have heffect := fun r hr => (h r hr).effect
  unfold consolidate at hkept heffect ⊢
  dsimp only at hkept heffect ⊢
  rw [List.foldl_append]
  generalize records.foldl (addRecord rules.suffixMaxLength) (start rules) = s
    at hsound hkept heffect ⊢
  -- the plan does not change, apart from effects that are left out in the end
  have hrun : (more.foldl (addRecord rules.suffixMaxLength) s).plan.names = s.plan.names ∧
      (more.foldl (addRecord rules.suffixMaxLength) s).plan.modules.map ModulePlan.settle =
        s.plan.modules.map ModulePlan.settle := by
    refine foldl_invariant (I := fun s' => s'.plan.names = s.plan.names ∧
      s'.plan.modules.map ModulePlan.settle = s.plan.modules.map ModulePlan.settle) ?_ ?_ ⟨rfl, rfl⟩
    · intro r hr b hb s' hs'
      rcases addBinding_cases rules.suffixMaxLength r.module s' b with
        ⟨-, hsame⟩ | ⟨hblank, hnone, -⟩
      · rwa [hsame]
      · -- a binding with its key has a name
        obtain ⟨r', hr', b', hb', hkey⟩ := (h r hr).bindings b hb hblank
        obtain ⟨n, hn⟩ := hsound.named (r'.module, b') (mem_offers.mpr ⟨r', hr', rfl, hb'⟩)
          ((Binding.isBlank_of_key hkey).trans hblank)
        have hsome := hsound.unique _ n hn
        rw [hkey] at hsome
        rw [Plan.localName?, hs'.1, hsome] at hnone
        exact absurd hnone (Option.some_ne_none n)
    · intro r hr hside s' hs'
      refine ⟨hs'.1, Eq.trans (Plan.map_settle_updateModule ?_ ?_) hs'.2⟩
      · obtain ⟨m, hm, hmodule⟩ := heffect r hr hside
        rw [← hs'.2] at hm
        obtain ⟨m', hm', rfl⟩ := List.mem_map.mp hm
        exact List.mem_map.mpr ⟨m', hm', by rw [← hmodule, ModulePlan.module_settle]⟩
      · rw [hs'.2]
        exact hkept
  rw [hrun.1, hrun.2]

/-- A plan has all that its records say. -/
theorem ImportRecord.isSaidBy_of_mem {r : ImportRecord} (hr : r ∈ records) :
    r.IsSaidBy rules records where
  bindings b hb _ := ⟨r, hr, b, hb, rfl⟩
  effect h := (mem_modules_consolidate rules).mpr ⟨r, hr, rfl, .inl h⟩

end

open Consolidation in
/-- **More records only add to a plan**, whatever they are: what is there stays in its place and
under its names. If the plan has all that they say, they add nothing; so it is with the records that
it is made of. -/
theorem consolidate_append (rules : NamingRules) (records more : List ImportRecord) :
    (consolidate rules records).GrowsInto (consolidate rules (records ++ more)) ∧
      ((∀ r ∈ more, r.IsSaidBy rules records) →
        consolidate rules (records ++ more) = consolidate rules records) ∧
      consolidate rules (records ++ records) = consolidate rules records := by
  refine ⟨?_, consolidate_append_of_isSaidBy rules, ?_⟩
  · have hgrows := growsInto_foldl rules.suffixMaxLength
      (records.foldl (addRecord rules.suffixMaxLength) (start rules)) more
    unfold consolidate
    rw [List.foldl_append]
    exact ⟨hgrows.modules.settle, hgrows.names⟩
  · exact consolidate_append_of_isSaidBy rules fun r hr => ImportRecord.isSaidBy_of_mem rules hr

/-- A default import that comes again, with effects and a binding for the type checker, and effects
that come again. -/
theorem consolidate_append_again :
    let icon : Binding := ⟨"icon".toList, .default, none, false⟩
    let props : Binding := ⟨"Props".toList, .named, none, true⟩
    let records : List ImportRecord :=
      [.ofScript "./icon".toList [icon] false, .ofScript "./reset".toList [] true]
    let more : List ImportRecord :=
      [.ofScript "./reset".toList [] true, .ofScript "./icon".toList [icon, props] true]
    (∀ r ∈ more, r.IsSaidBy .standard records) ∧
      consolidate .standard (records ++ more) = consolidate .standard records := by
  intro icon props records more
  have h : ∀ r ∈ more, r.IsSaidBy .standard records := by
    intro r hr
    rcases List.mem_pair.mp hr with rfl | rfl
    · exact ⟨by decide +kernel, by decide +kernel⟩
    · exact ⟨by decide +kernel, by decide +kernel⟩
  exact ⟨h, (consolidate_append .standard records more).2.1 h⟩

end ScriptSurvey
