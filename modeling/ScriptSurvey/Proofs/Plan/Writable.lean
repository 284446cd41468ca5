import ScriptSurvey.Proofs.Import.Entries
import ScriptSurvey.Proofs.Plan.Modules

/-!
# Plans that can be written

Any plan has statements, but not every statement can be read: a name that is no identifier or the name
`import` would be taken for something else. Bindings without such names are **readable**, and so are
the modules of a plan that is made of them, since every name that a plan makes up is near the one
wanted. A record is **writable** if its path needs no escape either and it imports `default` by that
name only as the default import; then the plan says just what its records do.

A plan holds more than its records say. It imports the export `default` by name only from a module
that has a default import, and a module is there for its names or for its effects, never for both.
-/

namespace ScriptSurvey

/-- Whether a name can be bound outside of braces: it is an identifier, and does not start the next
declaration. -/
def Text.IsBindable (t : Text) : Prop :=
  isIdentifier t = true ∧ t ≠ ScriptImport.keyword

/-- A binding whose local name can be bound, and, if it is a named one, whose exported name is an
identifier or a string in quotes. -/
structure Binding.IsReadable (b : Binding) : Prop where
  localName : b.localName.IsBindable
  exported : b.kind = .named → Text.isIdentifier b.name = true ∨ b.name.IsClosedQuote

/-- A path that stands between single quotes as it is. -/
def Text.IsCleanPath (t : Text) : Prop :=
  ∀ c ∈ t, c ≠ '\'' ∧ c ≠ '\\' ∧ c ≠ '\n'

/-- A binding whose local name can be bound, and, if it is a named one, whose exported name is an
identifier other than `default`, or a string in quotes. A string is no identifier, so with one the
local name is an alias. -/
structure Binding.IsWritable (b : Binding) : Prop where
  localName : b.localName.IsBindable
  exported : b.kind = .named →
    Text.isIdentifier b.name = true ∧ b.name ≠ "default".toList ∨ b.name.IsClosedQuote

theorem Binding.IsWritable.isReadable {b : Binding} (h : b.IsWritable) : b.IsReadable where
  localName := h.localName
  exported hkind := (h.exported hkind).imp_left And.left

/-- A record with a path and bindings that can be written. -/
structure ImportRecord.IsWritable (r : ImportRecord) : Prop where
  path : r.module.IsCleanPath
  bindings : ∀ b ∈ r.runtimeBindings, b.IsWritable

namespace ModulePlan

/-- Whether the export `default` is imported by its name only where there is a default import. -/
def IsArranged (m : ModulePlan) : Prop :=
  ∀ n ∈ m.named, n.exported = "default".toList → m.default?.isSome = true

/-- What a plan imports from one module, so that its statements can be read. -/
structure IsReadable (m : ModulePlan) : Prop where
  names : ∀ slot ∈ m.slots, slot.localName.IsBindable
  exported : ∀ n ∈ m.named, Text.isIdentifier n.exported = true ∨ n.exported.IsClosedQuote
  effect : m.sideEffect = !m.hasBindings

/-- What a plan imports from one module, so that its statements say just that. -/
structure IsWritable (m : ModulePlan) : Prop where
  path : m.module.IsCleanPath
  names : ∀ slot ∈ m.slots, slot.localName.IsBindable
  exported : ∀ n ∈ m.named, Text.isIdentifier n.exported = true ∨ n.exported.IsClosedQuote
  arranged : m.IsArranged
  effect : m.sideEffect = !m.hasBindings

theorem IsWritable.isReadable {m : ModulePlan} (h : m.IsWritable) : m.IsReadable :=
  ⟨h.names, h.exported, h.effect⟩

end ModulePlan

/-- A plan whose statements say just what it imports. -/
structure Plan.IsWritable (p : Plan) : Prop where
  modules : ∀ m ∈ p.modules, m.IsWritable
  once : (p.modules.map (·.module)).Nodup
  distinct : p.slotNames.Nodup

/-! ## One binding more -/

namespace ModulePlan

theorem isArranged_bind {b : Binding} (hb : b.kind = .named → b.name ≠ "default".toList) (n : Text)
    {m : ModulePlan} (h : m.IsArranged) : (m.bind b n).IsArranged := by
  unfold bind
  cases hkind : b.kind with
  | «default» =>
      cases hd : m.default? with
      | none =>
          intro x _ _
          rfl
      | some d =>
          intro x _ _
          rfl
  | named =>
      intro x hx hname
      rcases List.mem_append.mp hx with hx | hx
      · exact h x hx hname
      · rw [List.mem_singleton.mp hx] at hname
        exact absurd hname (hb hkind)
  | «namespace» => exact h

end ModulePlan

namespace Consolidation

/-- Whether the modules of a plan in the making are arranged, and there for something. -/
def Arranged (s : State) : Prop :=
  ∀ m ∈ s.plan.modules, m.IsArranged ∧ (m.hasBindings = true ∨ m.sideEffect = true)

theorem arranged_empty (module : Text) : (ModulePlan.empty module).IsArranged :=
  fun _ hn => absurd hn List.not_mem_nil

theorem arranged_addBinding {limit : Nat} {module : Text} {s : State} {b : Binding}
    (hb : b.kind = .named → b.name ≠ "default".toList) (h : Arranged s) :
    Arranged (addBinding limit module s b) := by
  rcases addBinding_cases limit module s b with ⟨-, hsame⟩ | ⟨-, -, n, pool, -, -, hadd⟩
  · rw [hsame]
    exact h
  · rw [hadd]
    refine Plan.forall_mem_updateModule (Q := ModulePlan.IsArranged) (arranged_empty module)
      (fun m hm => hm.1) (fun m hm => ?_) h
    exact ⟨ModulePlan.isArranged_bind hb n hm, .inl (ModulePlan.hasBindings_bind b n m)⟩

theorem arranged_addSideEffect (module : Text) {s : State} (h : Arranged s) :
    Arranged (addSideEffect module s) :=
  Plan.forall_mem_updateModule (Q := ModulePlan.IsArranged) (arranged_empty module)
    (fun _ hm => hm.1) (fun _ hm => ⟨hm, .inr rfl⟩) h

/-- A slot is there for a binding, and its name is near the binding's own. -/
theorem Sound.exists_near {reserved : List Text} {off : List (Text × Binding)} {s : State}
    (h : Sound reserved off s) {module : Text} {slot : Slot}
    (hslot : (module, slot) ∈ locatedSlots s.plan.modules) :
    ∃ b, (module, b) ∈ off ∧ slot.IsFor b.name b.kind ∧
      NamePool.Near b.localName slot.localName := by
  obtain ⟨b, hb, hblank, hfor, hname⟩ := h.exists_binding hslot
  obtain ⟨slot', -, -, hname', hnear⟩ := h.exists_slot hb hblank
  rw [← Option.some.inj (hname.symm.trans hname')] at hnear
  exact ⟨b, hb, hfor, hnear⟩

end Consolidation

/-- A name near one that can be bound can be bound. -/
theorem NamePool.Near.isBindable {wanted name : Text} (h : Near wanted name)
    (hw : wanted.IsBindable) : name.IsBindable := by
  refine ⟨h.isIdentifier hw.1, ?_⟩
  rintro rfl
  exact hw.2 (h.eq_of_isAlpha (by decide)).symm

/-! ## The plan of such records -/

/-- A module is readable without its effects, if it has names, when each of its slots is there for a
readable binding. -/
theorem ModulePlan.isReadable_settle {m : ModulePlan}
    (hkept : m.settle.hasBindings = true ∨ m.settle.sideEffect = true)
    (hslots : ∀ slot ∈ m.slots, ∃ b : Binding, b.IsReadable ∧ slot.IsFor b.name b.kind ∧
      NamePool.Near b.localName slot.localName) : m.settle.IsReadable := by
  constructor
  · intro slot hs
    rw [slots_settle] at hs
    obtain ⟨b, hb, -, hnear⟩ := hslots slot hs
    exact hnear.isBindable hb.localName
  · intro n hn
    have hmem : Slot.named n ∈ m.slots := by
      rw [← slots_settle]
      simp [slots, hn]
    obtain ⟨b, hb, hfor, -⟩ := hslots _ hmem
    -- a named slot is there for a second default import or for a named one
    generalize hkind : b.kind = kind at hfor
    cases hfor with
    | defaultAgain y => exact .inl (show Text.isIdentifier "default".toList = true by decide)
    | named y => exact hb.exported hkind
  · rw [hasBindings_settle] at hkept ⊢
    unfold settle at hkept ⊢
    cases hb : m.hasBindings with
    | true => rfl
    | false =>
        rw [hb, if_neg Bool.false_ne_true] at hkept
        rw [if_neg Bool.false_ne_true, hkept.resolve_left Bool.false_ne_true]
        rfl

open Consolidation in
/-- **The modules of a plan of readable bindings are readable**, whatever names are reserved. -/
theorem isReadable_consolidate (rules : NamingRules) {records : List ImportRecord}
    (h : ∀ r ∈ records, ∀ b ∈ r.runtimeBindings, b.IsReadable) :
    ∀ m ∈ (consolidate rules records).modules, m.IsReadable := by
  intro m hm
  have hkept := kept_consolidate rules m hm
  obtain ⟨x, hx, rfl⟩ := List.mem_map.mp hm
  refine ModulePlan.isReadable_settle hkept fun slot hs => ?_
  obtain ⟨b, hb, hfor, hnear⟩ :=
    (sound_foldl rules records).exists_near (mem_locatedSlots.mpr ⟨x, hx, rfl, hs⟩)
  obtain ⟨r, hr, -, hb⟩ := mem_offers.mp hb
  exact ⟨b, h r hr b hb, hfor, hnear⟩

open Consolidation in
/-- **A plan of writable records is writable**, whatever names are reserved. -/
theorem isWritable_consolidate (rules : NamingRules) {records : List ImportRecord}
    (h : ∀ r ∈ records, r.IsWritable) : (consolidate rules records).IsWritable := by
  have harranged : Arranged
      (records.foldl (addRecord rules.suffixMaxLength) (start rules)) := by
    refine foldl_invariant (fun r hr b hb s hs => arranged_addBinding (fun hkind => ?_) hs)
      (fun r _ _ s hs => arranged_addSideEffect r.module hs) fun m hm => absurd hm List.not_mem_nil
    -- neither an identifier other than `default` nor a quoted name is the name `default`
    rcases ((h r hr).bindings b hb).exported hkind with ⟨-, hne⟩ | hquote
    · exact hne
    · intro he
      rw [he] at hquote
      exact absurd hquote.startsQuoted (by decide)
  refine ⟨?_, nodup_modules_consolidate rules, nodup_slotNames_consolidate rules⟩
  intro m hm
  have hreadable : m.IsReadable :=
    isReadable_consolidate rules (fun r hr b hb => ((h r hr).bindings b hb).isReadable) m hm
  refine ⟨?_, hreadable.names, hreadable.exported, ?_, hreadable.effect⟩
  · obtain ⟨r, hr, hpath, -⟩ := (mem_modules_consolidate rules).mp ⟨m, hm, rfl⟩
    exact hpath ▸ (h r hr).path
  · obtain ⟨x, hx, rfl⟩ := List.mem_map.mp hm
    have harr := (harranged x hx).1
    unfold ModulePlan.settle
    split
    · exact harr
    · exact harr

end ScriptSurvey
