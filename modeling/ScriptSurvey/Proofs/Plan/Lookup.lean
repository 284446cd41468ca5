import ScriptSurvey.Proofs.Plan.Slots

/-!
# What a plan answers for a binding

A plan is asked for the local name of a binding by its module, its kind, its name and its alias. It has
an answer exactly if some record brings in a binding with all of these that exists when the program
runs, and no name of it is blank.

Whether the binding that is asked for exists when the program runs is not part of the question. So one
that is there for the type checker is answered like its **twin**, which differs from it only in that:
there is no answer unless the twin is imported too, and then it is the name of the twin.
-/

namespace ScriptSurvey

/-- The binding with the same names that exists when the program runs. -/
def Binding.twin (b : Binding) : Binding :=
  { b with typeOnly := false }

namespace Binding

@[simp] theorem key_twin (module : Text) (b : Binding) : b.twin.key module = b.key module := rfl

/-- Among the bindings that exist when the program runs, a key tells a binding. -/
theorem eq_twin_of_key {module module' : Text} {b b' : Binding} (hruns : b'.typeOnly = false)
    (hkey : b'.key module' = b.key module) : b' = b.twin := by
  obtain ⟨name, kind, alias?, typeOnly⟩ := b'
  obtain ⟨-, rfl, rfl, rfl⟩ := BindingKey.mk.injEq .. ▸ hkey
  exact congrArg (Binding.mk _ _ _) hruns

end Binding

theorem ImportRecord.mem_runtimeBindings {r : ImportRecord} {b : Binding} :
    b ∈ r.runtimeBindings ↔ b ∈ r.bindings ∧ b.typeOnly = false := by
  simp [runtimeBindings]

section

variable (rules : NamingRules) (records : List ImportRecord) (module : Text) (b : Binding)

open Consolidation in
/-- A plan has no answer for a binding exactly if its twin is blank or not imported. -/
theorem localName?_consolidate_eq_none_iff :
    (consolidate rules records).localName? module b = none ↔
      b.isBlank = true ∨ ∀ r ∈ records, r.module = module → b.twin ∉ r.bindings := by
  have hsound := sound_foldl rules records
  unfold consolidate
  generalize records.foldl (addRecord rules.suffixMaxLength) (start rules) = s at hsound ⊢
  show s.plan.localName? module b = none ↔ _
  constructor
  · intro hnone
    by_cases hb : b.isBlank = true
    · exact .inl hb
    · right
      intro r hr hmodule htwin
      -- the twin was offered under that key, so the key has a name
      have hruntime : b.twin ∈ r.runtimeBindings :=
        ImportRecord.mem_runtimeBindings.mpr ⟨htwin, rfl⟩
      obtain ⟨n, hn⟩ := hsound.named (module, b.twin) (mem_offers.mpr ⟨r, hr, hmodule, hruntime⟩)
        (Bool.not_eq_true _ ▸ hb)
      have hsome := hsound.unique _ n hn
      rw [Binding.key_twin] at hsome
      exact absurd (hnone.symm.trans hsome) (Option.some_ne_none n).symm
  · intro habsent
    cases hanswer : s.plan.localName? module b with
    | none => rfl
    | some n =>
        exfalso
        obtain ⟨⟨module', b'⟩, hoffered, hblank, hkey, -⟩ := hsound.offered _ n (mem_of_lookup hanswer)
        obtain ⟨r, hr, hmodule', hruntime⟩ := mem_offers.mp hoffered
        obtain ⟨hmem, hruns⟩ := ImportRecord.mem_runtimeBindings.mp hruntime
        obtain rfl := Binding.eq_twin_of_key hruns hkey
        have hmodule : module' = module := congrArg BindingKey.module hkey
        rcases habsent with hb | hall
        · exact absurd (hblank.symm.trans hb) Bool.false_ne_true
        · exact hall r hr (hmodule'.trans hmodule) hmem

end

/-- **A binding for the type checker is given no name of its own.** A plan answers for it as for its
twin, which is another binding; so there is no answer exactly if the twin is blank or not imported. -/
theorem localName?_typeOnly_iff (rules : NamingRules) (records : List ImportRecord) (module : Text)
    {b : Binding} (h : b.typeOnly = true) :
    b.twin ≠ b ∧
      (consolidate rules records).localName? module b =
        (consolidate rules records).localName? module b.twin ∧
      ((consolidate rules records).localName? module b = none ↔
        b.isBlank = true ∨ ∀ r ∈ records, r.module = module → b.twin ∉ r.bindings) := by
  refine ⟨fun htwin => ?_, rfl, localName?_consolidate_eq_none_iff rules records module b⟩
  have hruns : b.twin.typeOnly = false := rfl
  rw [htwin, h] at hruns
  exact Bool.noConfusion hruns

/-- `Props` is imported for the type checker, and under another name when the program runs. -/
theorem localName?_typeOnly_renamed :
    let props : Binding := ⟨"Props".toList, .named, none, true⟩
    let records : List ImportRecord :=
      [.ofScript "./button".toList [props] false,
        .ofScript "./button".toList [⟨"Props".toList, .named, some "P".toList, false⟩] false]
    props.typeOnly = true ∧
      (consolidate .standard records).localName? "./button".toList props = none := by
  intro props records
  refine ⟨rfl, ((localName?_typeOnly_iff .standard records "./button".toList rfl).2.2).mpr ?_⟩
  exact .inr (by decide +kernel)

/-- `Props` is imported for the type checker, and by the same name when the program runs: the plan has a
name for the first of the two. -/
theorem localName?_typeOnly_twin :
    let props : Binding := ⟨"Props".toList, .named, none, true⟩
    (consolidate .standard [.ofScript "./button".toList [props, props.twin] false]).localName?
      "./button".toList props = some "Props".toList := by
  decide +kernel

end ScriptSurvey
