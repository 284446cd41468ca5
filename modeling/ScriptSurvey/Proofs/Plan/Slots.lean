import Mathlib.Data.List.Nodup
import Mathlib.Data.List.Perm.Basic
import ScriptSurvey.Proofs.Plan.NamePool

/-!
# The slots of a plan

A plan holds its local names twice: each stands in a **slot** of its module, which is the default
import, an entry of the named imports or a namespace, and it is the name of a binding. The two belong
together. Each binding that is kept has a slot of its kind in its module, each slot is there for such
a binding, and no name is in two slots.

The binding that comes next is either left out, or it is given a name that is free and gets one more
slot under that name (`addBinding_cases`); `Sound` says what that preserves.
-/

namespace ScriptSurvey

/-! ## Slots -/

/-- A place for a local name in what a plan imports from a module. -/
inductive Slot where
  | default (name : Text)
  | named (entry : NamedImport)
  | namespace (name : Text)

namespace Slot

/-- The name that stands in a slot. -/
def localName : Slot → Text
  | default n => n
  | named e => e.localName
  | .namespace n => n

/-- Whether a slot is one for bindings of a kind, under the name of what they import. The default
export has a slot of its own, and is an export called `default` where that is filled. -/
inductive IsFor (name : Text) : BindingKind → Slot → Prop
  | default (n : Text) : IsFor name .default (.default n)
  | defaultAgain (n : Text) : IsFor name .default (.named ⟨"default".toList, n⟩)
  | named (n : Text) : IsFor name .named (.named ⟨name, n⟩)
  | namespace (n : Text) : IsFor name .namespace (.namespace n)

end Slot

/-- The slots of a module. -/
def ModulePlan.slots (m : ModulePlan) : List Slot :=
  m.default?.toList.map .default ++ (m.named.map .named ++ m.namespaces.map .namespace)

/-- The slots of modules, each with the path of its module. -/
def locatedSlots (ms : List ModulePlan) : List (Text × Slot) :=
  ms.flatMap fun m => m.slots.map (m.module, ·)

/-- The names in all slots of a plan. -/
def Plan.slotNames (p : Plan) : List Text :=
  (locatedSlots p.modules).map (·.2.localName)

theorem mem_locatedSlots {ms : List ModulePlan} {module : Text} {s : Slot} :
    (module, s) ∈ locatedSlots ms ↔ ∃ m ∈ ms, m.module = module ∧ s ∈ m.slots := by
  simp only [locatedSlots, List.mem_flatMap, List.mem_map, Prod.mk.injEq]
  constructor
  · rintro ⟨m, hm, s', hs, hmodule, rfl⟩
    exact ⟨m, hm, hmodule, hs⟩
  · rintro ⟨m, hm, hmodule, hs⟩
    exact ⟨m, hm, s, hs, hmodule, rfl⟩

namespace ModulePlan

@[simp] theorem module_bind (b : Binding) (n : Text) (m : ModulePlan) :
    (m.bind b n).module = m.module := by
  unfold bind
  cases b.kind with
  | «default» => cases m.default? <;> rfl
  | named => rfl
  | «namespace» => rfl

@[simp] theorem module_settle (m : ModulePlan) : m.settle.module = m.module := by
  unfold settle
  split <;> rfl

@[simp] theorem slots_settle (m : ModulePlan) : m.settle.slots = m.slots := by
  unfold settle
  split <;> rfl

/-- **One more binding is one more slot**, for its kind and under the name that it is given. -/
theorem exists_slot_bind (b : Binding) (n : Text) (m : ModulePlan) :
    ∃ s : Slot, s.localName = n ∧ s.IsFor b.name b.kind ∧
      (m.bind b n).slots.Perm (s :: m.slots) := by
  unfold bind
  cases b.kind with
  | «default» =>
      cases hd : m.default? with
      | none =>
          refine ⟨.default n, rfl, .default n, ?_⟩
          simp only [slots, hd]
          exact .refl _
      | some d =>
          refine ⟨.named ⟨"default".toList, n⟩, rfl, .defaultAgain n, ?_⟩
          simp only [slots, hd, List.map_append, List.append_assoc]
          exact (List.perm_middle.append_left _).trans List.perm_middle
  | named =>
      refine ⟨.named ⟨b.name, n⟩, rfl, .named n, ?_⟩
      simp only [slots, List.map_append, List.append_assoc]
      exact (List.perm_middle.append_left _).trans List.perm_middle
  | «namespace» =>
      refine ⟨.namespace n, rfl, .namespace n, ?_⟩
      simp only [slots, List.map_append, ← List.append_assoc]
      exact List.perm_append_singleton _ _

end ModulePlan

/-! ## A change to one module -/

namespace Plan

/-- A change is made to the module of that path; if there is none, to an empty one at the end. -/
theorem exists_updateModule (module : Text) (change : ModulePlan → ModulePlan)
    (ms : List ModulePlan) :
    ∃ front m back, updateModule module change ms = front ++ change m :: back ∧
      m.module = module ∧ (∀ x ∈ front, x.module ≠ module) ∧
      (ms = front ++ m :: back ∨ m = ModulePlan.empty module ∧ back = [] ∧ ms = front) := by
  induction ms with
  | nil => exact ⟨[], .empty module, [], rfl, rfl, by simp, .inr ⟨rfl, rfl, rfl⟩⟩
  | cons m ms ih =>
      by_cases hm : m.module = module
      · exact ⟨[], m, ms, by simp [updateModule, hm], hm, by simp, .inl rfl⟩
      · obtain ⟨front, x, back, hupdate, hx, hfront, hms⟩ := ih
        refine ⟨m :: front, x, back, ?_, hx, ?_, ?_⟩
        · rw [updateModule, if_neg hm, hupdate]
          rfl
        · intro y hy
          rcases List.mem_cons.mp hy with rfl | hy
          · exact hm
          · exact hfront y hy
        · rcases hms with rfl | ⟨rfl, rfl, rfl⟩
          · exact .inl rfl
          · exact .inr ⟨rfl, rfl, rfl⟩

variable {module : Text} {change : ModulePlan → ModulePlan} {ms : List ModulePlan}

/-- A change that keeps the paths of modules brings in at most the one path. -/
theorem nodup_updateModule (hchange : ∀ m, (change m).module = m.module)
    (h : (ms.map (·.module)).Nodup) : ((updateModule module change ms).map (·.module)).Nodup := by
  obtain ⟨front, m, back, hupdate, hm, hfront, rfl | ⟨rfl, rfl, rfl⟩⟩ :=
    exists_updateModule module change ms
  · rw [hupdate]
    simpa [hchange] using h
  · rw [hupdate, List.map_append, List.map_singleton, hchange]
    refine h.append (List.nodup_singleton _) ?_
    intro x hx hx'
    obtain ⟨y, hy, rfl⟩ := List.mem_map.mp hx
    exact hfront y hy (by rw [List.mem_singleton.mp hx']; rfl)

/-- The slots after a change, which are those that were there and those that the change brings into
the module. -/
theorem exists_changed (module : Text) (change : ModulePlan → ModulePlan) (ms : List ModulePlan)
    (hchange : ∀ m, (change m).module = m.module) :
    ∃ m : ModulePlan, ∀ new, (change m).slots.Perm (new ++ m.slots) →
      (locatedSlots (updateModule module change ms)).Perm
        (new.map (module, ·) ++ locatedSlots ms) := by
  obtain ⟨front, m, back, hupdate, rfl, -, hms⟩ := exists_updateModule module change ms
  have hold : locatedSlots ms = locatedSlots (front ++ m :: back) := by
    rcases hms with rfl | ⟨hm, rfl, rfl⟩
    · rfl
    · -- an empty module has no slots
      rw [hm]
      simp [locatedSlots, ModulePlan.empty, ModulePlan.slots]
  refine ⟨m, fun new hnew => ?_⟩
  have hslots := hnew.map (m.module, ·)
  rw [List.map_append] at hslots
  rw [hupdate, hold]
  simp only [locatedSlots, List.flatMap_append, List.flatMap_cons, hchange]
  refine ((hslots.append_right _).append_left _).trans ?_
  simp only [List.append_assoc]
  rw [← List.append_assoc, ← List.append_assoc (new.map _)]
  exact List.perm_append_comm.append_right _

/-- A binding that is given a name brings in one slot of its kind, in its module. -/
theorem exists_slot_updateModule (module : Text) (b : Binding) (n : Text) (ms : List ModulePlan) :
    ∃ slot : Slot, slot.localName = n ∧ slot.IsFor b.name b.kind ∧
      (locatedSlots (updateModule module (ModulePlan.bind b n) ms)).Perm
        ((module, slot) :: locatedSlots ms) := by
  obtain ⟨m, hm⟩ := exists_changed module (ModulePlan.bind b n) ms (ModulePlan.module_bind b n)
  obtain ⟨slot, hslot, hfor, hperm⟩ := ModulePlan.exists_slot_bind b n m
  exact ⟨slot, hslot, hfor, hm [slot] hperm⟩

theorem localNames_concat (p : Plan) (ms : List ModulePlan) (k : BindingKey) (n : Text) :
    localNames ⟨ms, p.names ++ [(k, n)]⟩ = p.localNames ++ [n] := by
  simp [localNames]

end Plan

namespace Consolidation

/-! ## One step -/

/-- **What becomes of the next binding**: it is left out when a name of it is blank or it is there
already; otherwise it is given a name that is free, and put under it. -/
theorem addBinding_cases (limit : Nat) (module : Text) (s : State) (b : Binding) :
    (b.isBlank = true ∨ ∃ n, s.plan.localName? module b = some n) ∧
        addBinding limit module s b = s ∨
      b.isBlank = false ∧ s.plan.localName? module b = none ∧
        ∃ n pool, giveName limit module b s.pool = (n, pool) ∧
          s.pool.Gives b.localName (n, pool) ∧
          addBinding limit module s b =
            ⟨pool, Plan.updateModule module (ModulePlan.bind b n) s.plan.modules,
              s.plan.names ++ [(b.key module, n)]⟩ := by
  by_cases hb : b.isBlank = true
  · left
    exact ⟨.inl hb, by simp [addBinding, hb]⟩
  · rw [Bool.not_eq_true] at hb
    cases hn : s.plan.localName? module b with
    | some n =>
        left
        exact ⟨.inr ⟨n, rfl⟩, by simp [addBinding, hn]⟩
    | none =>
        right
        refine ⟨hb, rfl, _, _, rfl, gives_giveName limit module b s.pool, ?_⟩
        rw [addBinding, hb, hn]
        rfl

/-- What holds of a plan in the making, given the names that are reserved and the bindings that were
offered to it, each with the path of its module. -/
structure Sound (reserved : List Text) (input : List (Text × Binding)) (s : State) : Prop where
  /-- The names taken are those reserved and those given. -/
  taken : ∀ n, n ∈ s.pool.taken ↔ n ∈ reserved ∨ n ∈ s.plan.localNames
  /-- No name is given twice. -/
  distinct : s.plan.localNames.Nodup
  /-- No name is given that is reserved. -/
  unreserved : ∀ n ∈ s.plan.localNames, n ∉ reserved
  /-- A module comes once. -/
  modules : (s.plan.modules.map (·.module)).Nodup
  /-- The names in the slots are the names given. -/
  slots : ((locatedSlots s.plan.modules).map (·.2.localName)).Perm s.plan.localNames
  /-- A binding has a slot of its kind, in its module. -/
  filled : ∀ k n, (k, n) ∈ s.plan.names →
    ∃ slot : Slot, (k.module, slot) ∈ locatedSlots s.plan.modules ∧ slot.localName = n ∧
      slot.IsFor k.name k.kind
  /-- A binding has one name. -/
  unique : ∀ k n, (k, n) ∈ s.plan.names → s.plan.names.lookup k = some n
  /-- A binding that has a name was offered, and the name is near its own. -/
  offered : ∀ k n, (k, n) ∈ s.plan.names →
    ∃ x ∈ input, x.2.isBlank = false ∧ x.2.key x.1 = k ∧ NamePool.Near x.2.localName n
  /-- What was offered has a name, unless it is blank. -/
  named : ∀ x ∈ input, x.2.isBlank = false → ∃ n, (x.2.key x.1, n) ∈ s.plan.names

variable {reserved : List Text} {off : List (Text × Binding)} {s : State}

theorem mem_of_lookup {α β : Type} [BEq α] [LawfulBEq α] {k : α} {v : β} {l : List (α × β)}
    (h : l.lookup k = some v) : (k, v) ∈ l := by
  obtain ⟨l₁, l₂, rfl, -⟩ := List.lookup_eq_some_iff.mp h
  exact List.mem_append_right _ List.mem_cons_self

theorem sound_start (rules : NamingRules) : Sound rules.reserved [] (start rules) where
  taken n := by
    rw [start, NamePool.mem_taken_ofReserved]
    simp [Plan.empty, Plan.localNames]
  distinct := List.nodup_nil
  unreserved n hn := absurd hn List.not_mem_nil
  modules := List.nodup_nil
  slots := .refl _
  filled k n hk := absurd hk List.not_mem_nil
  unique k n hk := absurd hk List.not_mem_nil
  offered k n hk := absurd hk List.not_mem_nil
  named x hx := absurd hx List.not_mem_nil

/-- A binding that is given a name. -/
theorem sound_give (h : Sound reserved off s) {module : Text} {b : Binding} {n : Text}
    {pool : NamePool} (hb : b.isBlank = false) (hnone : s.plan.localName? module b = none)
    (hgives : s.pool.Gives b.localName (n, pool)) :
    Sound reserved (off ++ [(module, b)])
      ⟨pool, Plan.updateModule module (ModulePlan.bind b n) s.plan.modules,
        s.plan.names ++ [(b.key module, n)]⟩ := by
  have hnew : n ∉ s.plan.localNames := fun hn => hgives.free ((h.taken n).mpr (.inr hn))
  have hnames := s.plan.localNames_concat
    (Plan.updateModule module (ModulePlan.bind b n) s.plan.modules) (b.key module) n
  obtain ⟨slot, hslot, hfor, hperm⟩ :=
    Plan.exists_slot_updateModule module b n s.plan.modules
  exact
    { taken := by
        rw [hnames]
        exact hgives.mem_taken_iff h.taken
      distinct := by
        rw [hnames]
        exact h.distinct.append (List.nodup_singleton n)
          fun x hx hx' => hnew (List.mem_singleton.mp hx' ▸ hx)
      unreserved := by
        intro x hx hr
        rw [hnames, List.mem_append, List.mem_singleton] at hx
        rcases hx with hx | rfl
        · exact h.unreserved x hx hr
        · exact hgives.free ((h.taken x).mpr (.inl hr))
      modules := Plan.nodup_updateModule (ModulePlan.module_bind b n) h.modules
      slots := by
        rw [hnames]
        refine (hperm.map _).trans ?_
        rw [List.map_cons, hslot]
        exact (h.slots.cons n).trans (List.perm_append_singleton n _).symm
      filled := by
        intro k x hk
        rcases List.mem_append.mp hk with hk | hk
        · obtain ⟨slot', hmem, hx, hfor'⟩ := h.filled k x hk
          exact ⟨slot', hperm.mem_iff.mpr (List.mem_cons_of_mem _ hmem), hx, hfor'⟩
        · rw [List.mem_singleton, Prod.mk.injEq] at hk
          obtain ⟨rfl, rfl⟩ := hk
          exact ⟨slot, hperm.mem_iff.mpr List.mem_cons_self, hslot, hfor⟩
      unique := by
        intro k x hk
        rw [List.lookup_append]
        rcases List.mem_append.mp hk with hk | hk
        · rw [h.unique k x hk, Option.some_or]
        · rw [List.mem_singleton, Prod.mk.injEq] at hk
          obtain ⟨rfl, rfl⟩ := hk
          rw [show s.plan.names.lookup (b.key module) = none from hnone]
          simp
      offered := by
        intro k x hk
        rcases List.mem_append.mp hk with hk | hk
        · obtain ⟨y, hy, hrest⟩ := h.offered k x hk
          exact ⟨y, List.mem_append_left _ hy, hrest⟩
        · rw [List.mem_singleton, Prod.mk.injEq] at hk
          obtain ⟨rfl, rfl⟩ := hk
          exact ⟨(module, b), List.mem_append_right _ List.mem_cons_self, hb, rfl, hgives.near⟩
      named := by
        intro x hx hblank
        rcases List.mem_append.mp hx with hx | hx
        · obtain ⟨y, hy⟩ := h.named x hx hblank
          exact ⟨y, List.mem_append_left _ hy⟩
        · rw [List.mem_singleton.mp hx]
          exact ⟨n, List.mem_append_right _ List.mem_cons_self⟩ }

/-- A binding that is left out. -/
theorem sound_leave (h : Sound reserved off s) {module : Text} {b : Binding}
    (hb : b.isBlank = true ∨ ∃ n, s.plan.localName? module b = some n) :
    Sound reserved (off ++ [(module, b)]) s where
  taken := h.taken
  distinct := h.distinct
  unreserved := h.unreserved
  modules := h.modules
  slots := h.slots
  filled := h.filled
  unique := h.unique
  offered := by
    intro k n hk
    obtain ⟨x, hx, hrest⟩ := h.offered k n hk
    exact ⟨x, List.mem_append_left _ hx, hrest⟩
  named := by
    intro x hx hblank
    rcases List.mem_append.mp hx with hx | hx
    · exact h.named x hx hblank
    · rw [List.mem_singleton.mp hx] at hblank ⊢
      rcases hb with hb | ⟨n, hn⟩
      · exact absurd (hblank.symm.trans hb) Bool.false_ne_true
      · exact ⟨n, mem_of_lookup hn⟩

/-- **Every binding that comes next keeps a plan sound.** -/
theorem sound_addBinding (h : Sound reserved off s) (limit : Nat) (module : Text) (b : Binding) :
    Sound reserved (off ++ [(module, b)]) (addBinding limit module s b) := by
  rcases addBinding_cases limit module s b with ⟨hleft, hsame⟩ | ⟨hb, hnone, n, pool, -, hgives, hadd⟩
  · rw [hsame]
    exact sound_leave h hleft
  · rw [hadd]
    exact sound_give h hb hnone hgives

/-- An import for its effects brings in no slot. -/
theorem sound_addSideEffect (h : Sound reserved off s) (module : Text) :
    Sound reserved off (addSideEffect module s) := by
  have hperm : (locatedSlots (addSideEffect module s).plan.modules).Perm
      (locatedSlots s.plan.modules) := by
    obtain ⟨m, hm⟩ := Plan.exists_changed module (fun m => { m with sideEffect := true }) s.plan.modules
      fun _ => rfl
    exact hm [] (.refl _)
  exact
    { taken := h.taken
      distinct := h.distinct
      unreserved := h.unreserved
      modules := Plan.nodup_updateModule (fun _ => rfl) h.modules
      slots := (hperm.map _).trans h.slots
      filled := by
        intro k n hk
        obtain ⟨slot, hmem, hrest⟩ := h.filled k n hk
        exact ⟨slot, hperm.mem_iff.mpr hmem, hrest⟩
      unique := h.unique
      offered := h.offered
      named := h.named }

/-! ## All records -/

/-- The bindings that a record offers to a plan. -/
def offers (r : ImportRecord) : List (Text × Binding) :=
  r.runtimeBindings.map (r.module, ·)

/-- What every binding of a record preserves, along with what was offered, holds behind them. -/
theorem foldl_addBinding_offers {I : List (Text × Binding) → State → Prop} {limit : Nat}
    {module : Text} {bs : List Binding}
    (hbinding : ∀ b ∈ bs, ∀ off s, I off s →
      I (off ++ [(module, b)]) (addBinding limit module s b))
    {off : List (Text × Binding)} {s : State} (h : I off s) :
    I (off ++ bs.map (module, ·)) (bs.foldl (addBinding limit module) s) := by
  induction bs generalizing off s with
  | nil => rwa [List.map_nil, List.append_nil]
  | cons b bs ih =>
      have := ih (fun x hx => hbinding x (List.mem_cons_of_mem b hx))
        (hbinding b List.mem_cons_self off s h)
      rwa [List.append_assoc] at this

/-- What every binding that is offered and every import for its effects preserve, along with what was
offered, holds behind all records. -/
theorem foldl_offers {I : List (Text × Binding) → State → Prop} {limit : Nat}
    {records : List ImportRecord}
    (hbinding : ∀ r ∈ records, ∀ b ∈ r.runtimeBindings, ∀ off s, I off s →
      I (off ++ [(r.module, b)]) (addBinding limit r.module s b))
    (heffect : ∀ r ∈ records, r.sideEffect = true → ∀ off s, I off s →
      I off (addSideEffect r.module s))
    {off : List (Text × Binding)} {s : State} (h : I off s) :
    I (off ++ records.flatMap offers) (records.foldl (addRecord limit) s) := by
  induction records generalizing off s with
  | nil => rwa [List.flatMap_nil, List.append_nil]
  | cons r rs ih =>
      have hbindings := foldl_addBinding_offers (hbinding r List.mem_cons_self) h
      have hr : I (off ++ offers r) (addRecord limit s r) := by
        unfold addRecord
        split
        · next hside => exact heffect r List.mem_cons_self hside _ _ hbindings
        · exact hbindings
      have := ih (fun x hx => hbinding x (List.mem_cons_of_mem r hx))
        (fun x hx => heffect x (List.mem_cons_of_mem r hx)) hr
      rwa [List.append_assoc] at this

theorem sound_addRecord (h : Sound reserved off s) (limit : Nat) (r : ImportRecord) :
    Sound reserved (off ++ offers r) (addRecord limit s r) := by
  have : Sound reserved (off ++ [r].flatMap offers) ([r].foldl (addRecord limit) s) :=
    foldl_offers (I := Sound reserved) (fun x _ b _ _ _ h => sound_addBinding h limit x.module b)
      (fun x _ _ _ _ h => sound_addSideEffect h x.module) h
  rwa [List.flatMap_cons, List.flatMap_nil, List.append_nil] at this

/-- **What is made of any records is sound.** -/
theorem sound_foldl (rules : NamingRules) (records : List ImportRecord) :
    Sound rules.reserved (records.flatMap offers)
      (records.foldl (addRecord rules.suffixMaxLength) (start rules)) :=
  foldl_offers (I := Sound rules.reserved) (fun r _ b _ _ _ h => sound_addBinding h _ r.module b)
    (fun r _ _ _ _ h => sound_addSideEffect h r.module) (sound_start rules)

end Consolidation

/-! ## The plan of all records -/

theorem locatedSlots_settle (ms : List ModulePlan) :
    locatedSlots (ms.map ModulePlan.settle) = locatedSlots ms := by
  simp [locatedSlots, List.flatMap_map]

/-- In a list of modules that each come once, a module is found by its path. -/
theorem module?_eq_some {p : Plan} (h : (p.modules.map (·.module)).Nodup) {m : ModulePlan}
    (hm : m ∈ p.modules) : p.module? m.module = some m := by
  have hsome : (p.module? m.module).isSome := by
    rw [Plan.module?, List.find?_isSome]
    exact ⟨m, hm, beq_self_eq_true _⟩
  obtain ⟨x, hx⟩ := Option.isSome_iff_exists.mp hsome
  have hmodule : x.module = m.module := by
    have := List.find?_some hx
    exact beq_iff_eq.mp this
  rw [hx, List.inj_on_of_nodup_map h (List.mem_of_find?_eq_some hx) hm hmodule]

/-- What holds of the local names of a plan, given the names that are reserved and the records it is
made of. -/
structure Plan.NamesApart (reserved : List Text) (records : List ImportRecord) (p : Plan) :
    Prop where
  /-- A module has one entry. -/
  modules : (p.modules.map (·.module)).Nodup
  /-- No name stands in two slots. -/
  distinct : p.slotNames.Nodup
  /-- No slot has a name that is reserved. -/
  unreserved : ∀ n ∈ p.slotNames, n ∉ reserved
  /-- The names in the slots are all names that were given, each as often. -/
  names : p.slotNames.Perm p.localNames
  /-- Each binding that exists when the program runs has a name, unless it is blank. The name stands
  in a slot for the binding, in its module, and it is an identifier if the binding's own is. -/
  filled : ∀ r ∈ records, ∀ b ∈ r.runtimeBindings, b.isBlank = false →
    ∃ m slot, p.module? r.module = some m ∧ slot ∈ m.slots ∧ slot.IsFor b.name b.kind ∧
      p.localName? r.module b = some slot.localName ∧
      (Text.isIdentifier b.localName = true → Text.isIdentifier slot.localName = true)
  /-- Each slot is there for such a binding. -/
  meant : ∀ m ∈ p.modules, ∀ slot ∈ m.slots,
    ∃ r ∈ records, r.module = m.module ∧ ∃ b ∈ r.runtimeBindings, b.isBlank = false ∧
      slot.IsFor b.name b.kind ∧ p.localName? m.module b = some slot.localName

namespace Consolidation

variable {reserved : List Text} {off : List (Text × Binding)} {s : State}

/-- The name of a binding that was offered: it stands in a slot for the binding. -/
theorem Sound.exists_slot (h : Sound reserved off s) {x : Text × Binding} (hx : x ∈ off)
    (hb : x.2.isBlank = false) :
    ∃ slot : Slot, (x.1, slot) ∈ locatedSlots s.plan.modules ∧ slot.IsFor x.2.name x.2.kind ∧
      s.plan.localName? x.1 x.2 = some slot.localName ∧
      NamePool.Near x.2.localName slot.localName := by
  obtain ⟨n, hn⟩ := h.named x hx hb
  obtain ⟨slot, hmem, rfl, hfor⟩ := h.filled _ n hn
  refine ⟨slot, hmem, hfor, h.unique _ _ hn, ?_⟩
  -- the name was given to a binding with the same key, so with the same name of its own
  obtain ⟨y, -, -, hkey, hnear⟩ := h.offered _ _ hn
  have hname : y.2.name = x.2.name := congrArg BindingKey.name hkey
  have halias : y.2.alias? = x.2.alias? := congrArg BindingKey.alias? hkey
  rwa [Binding.localName, hname, halias] at hnear

/-- The binding that a slot is there for. -/
theorem Sound.exists_binding (h : Sound reserved off s) {module : Text} {slot : Slot}
    (hslot : (module, slot) ∈ locatedSlots s.plan.modules) :
    ∃ b, (module, b) ∈ off ∧ b.isBlank = false ∧ slot.IsFor b.name b.kind ∧
      s.plan.localName? module b = some slot.localName := by
  have hname : slot.localName ∈ s.plan.localNames :=
    h.slots.mem_iff.mp (List.mem_map.mpr ⟨_, hslot, rfl⟩)
  obtain ⟨⟨k, n⟩, hk, rfl⟩ := List.mem_map.mp hname
  obtain ⟨slot', hslot', hn, hfor⟩ := h.filled k _ hk
  -- no other slot has that name
  have hsame := List.inj_on_of_nodup_map (h.slots.nodup_iff.mpr h.distinct) hslot hslot' hn.symm
  obtain ⟨rfl, rfl⟩ := Prod.mk.inj hsame
  obtain ⟨⟨module, b⟩, hb, hblank, rfl, -⟩ := h.offered k _ hk
  exact ⟨b, hb, hblank, hfor, h.unique _ _ hk⟩

theorem mem_offers {records : List ImportRecord} {module : Text} {b : Binding} :
    (module, b) ∈ records.flatMap offers ↔
      ∃ r ∈ records, r.module = module ∧ b ∈ r.runtimeBindings := by
  simp only [List.mem_flatMap, offers, List.mem_map, Prod.mk.injEq]
  constructor
  · rintro ⟨r, hr, b', hb, hmodule, rfl⟩
    exact ⟨r, hr, hmodule, hb⟩
  · rintro ⟨r, hr, hmodule, hb⟩
    exact ⟨r, hr, b, hb, hmodule, rfl⟩

end Consolidation

section

variable (rules : NamingRules) {records : List ImportRecord}

open Consolidation in
/-- A module of a plan comes once. -/
theorem nodup_modules_consolidate :
    ((consolidate rules records).modules.map (·.module)).Nodup := by
  have h := (sound_foldl rules records).modules
  unfold consolidate
  simpa only [List.map_map, Function.comp_def, ModulePlan.module_settle] using h

open Consolidation in
/-- A name stands in one slot of a plan. -/
theorem nodup_slotNames_consolidate : (consolidate rules records).slotNames.Nodup := by
  have h := sound_foldl rules records
  unfold consolidate
  rw [Plan.slotNames, locatedSlots_settle]
  exact h.slots.nodup_iff.mpr h.distinct

end

open Consolidation in
/-- **The local names of a plan are all different**, and each is the name of a binding and stands in
a slot for it, whatever the records import and whatever is reserved. -/
theorem namesApart_consolidate (rules : NamingRules) (records : List ImportRecord) :
    (consolidate rules records).NamesApart rules.reserved records := by
  have h := sound_foldl rules records
  have hmodules : ((consolidate rules records).modules.map (·.module)).Nodup :=
    nodup_modules_consolidate rules
  have hdistinct : (consolidate rules records).slotNames.Nodup := nodup_slotNames_consolidate rules
  unfold consolidate at hmodules hdistinct ⊢
  generalize records.foldl (addRecord rules.suffixMaxLength) (start rules) = s
    at h hmodules hdistinct ⊢
  -- that effects are left out in the end takes away no slot
  refine ⟨hmodules, hdistinct, ?_, ?_, ?_, ?_⟩
  · intro n hn
    rw [Plan.slotNames, locatedSlots_settle] at hn
    exact h.unreserved n (h.slots.mem_iff.mp hn)
  · rw [Plan.slotNames, locatedSlots_settle]
    exact h.slots
  · intro r hr b hb hblank
    obtain ⟨slot, hslot, hfor, hname, hnear⟩ :=
      h.exists_slot (mem_offers.mpr ⟨r, hr, rfl, hb⟩) hblank
    rw [← locatedSlots_settle] at hslot
    obtain ⟨m, hm, hmodule, hslot⟩ := mem_locatedSlots.mp hslot
    have hfound : Plan.module? m.module ⟨s.plan.modules.map ModulePlan.settle, s.plan.names⟩ =
        some m := module?_eq_some hmodules hm
    rw [hmodule] at hfound
    exact ⟨m, slot, hfound, hslot, hfor, hname, fun hb => hnear.isIdentifier hb⟩
  · intro m hm slot hslot
    have hlocated := mem_locatedSlots.mpr ⟨m, hm, rfl, hslot⟩
    rw [locatedSlots_settle] at hlocated
    obtain ⟨b, hb, hblank, hfor, hname⟩ := h.exists_binding hlocated
    obtain ⟨r, hr, hmodule, hb⟩ := mem_offers.mp hb
    exact ⟨r, hr, hmodule, b, hb, hblank, hfor, hname⟩

/-- Two packages with a default export of one name, which is reserved, and the first of them with a
second one. -/
example :
    (consolidate ⟨["icon".toList], 20⟩
      [.ofScript "a".toList [⟨"icon".toList, .default, none, false⟩,
        ⟨"icon_a".toList, .default, none, false⟩] false,
      .ofScript "b".toList [⟨"icon".toList, .default, none, false⟩] false]).slotNames =
      ["icon_a".toList, "icon_a_a".toList, "icon_b".toList] := by decide +kernel

end ScriptSurvey
