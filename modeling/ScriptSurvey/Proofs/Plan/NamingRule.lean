import Mathlib.Data.Finset.Card
import Mathlib.Data.List.Nodup
import ScriptSurvey.Proofs.Plan.Slots

/-!
# The rule for local names

A plan names its bindings one after another, and the rule for the next one looks only at the names that
are used by then, which are those reserved and those given before:

* a binding keeps its own name if that is free;
* else a default import has the suffix of its module put behind its name, if that makes a free one;
* else the least number from one on that makes a free one is put behind it.

The rule has one name for every binding. The number is never greater by more than one than there are
names in use, since all smaller ones make names in use, and different ones.

**The names of a plan are those of the rule.** So distinct modules that import the same fresh name get
it without a number, with 1, with 2 and so on, in the order in which they come.
-/

namespace ScriptSurvey

open NamePool

/-! ## The rule -/

/-- The local name that the rule has for a binding of a module, given the names in use. -/
inductive RuleName (limit : Nat) (used : Finset Text) (module : Text) (b : Binding) : Text → Prop
  /-- Its own name, if that is free. -/
  | own : b.localName ∉ used → RuleName limit used module b b.localName
  /-- For a default import, its own name with the suffix of the module, if that is free. -/
  | suffixed {suffix : Text} : b.localName ∈ used → b.kind = .default →
      moduleSuffix? limit module = some suffix → suffixed b.localName suffix ∉ used →
      RuleName limit used module b (suffixed b.localName suffix)
  /-- Else its own name with the least number from one on that makes a free name. -/
  | numbered {k : Nat} : b.localName ∈ used →
      (b.kind = .default → ∀ suffix, moduleSuffix? limit module = some suffix →
        NamePool.suffixed b.localName suffix ∈ used) →
      1 ≤ k → k ≤ used.card + 1 → numbered b.localName k ∉ used →
      (∀ j, 1 ≤ j → j < k → NamePool.numbered b.localName j ∈ used) →
      RuleName limit used module b (numbered b.localName k)

namespace RuleName

variable {limit : Nat} {used : Finset Text} {module n n' : Text} {b : Binding}

/-- The rule leaves no choice. -/
theorem unique (h : RuleName limit used module b n) (h' : RuleName limit used module b n') :
    n = n' := by
  cases h with
  | own hfree =>
      cases h' with
      | own => rfl
      | suffixed hused => exact absurd hused hfree
      | numbered hused => exact absurd hused hfree
  | suffixed hused hkind hsuffix hfree =>
      cases h' with
      | own hown => exact absurd hused hown
      | suffixed _ _ hsuffix' =>
          rw [hsuffix] at hsuffix'
          rw [Option.some.inj hsuffix']
      | numbered _ htaken => exact absurd (htaken hkind _ hsuffix) hfree
  | @numbered k hused htaken hk _ hfree hsmaller =>
      cases h' with
      | own hown => exact absurd hused hown
      | suffixed _ hkind hsuffix hfree' => exact absurd (htaken hkind _ hsuffix) hfree'
      | @numbered k' _ _ hk' _ hfree' hsmaller' =>
          -- the names of all numbers that are smaller than either of the two are in use
          rcases Nat.lt_trichotomy k k' with hlt | rfl | hgt
          · exact absurd (hsmaller' k hk hlt) hfree
          · rfl
          · exact absurd (hsmaller k' hk' hgt) hfree'

/-- A name that is not the binding's own is given only if that is in use. -/
theorem mem_insert (h : RuleName limit used module b n) : b.localName ∈ insert n used := by
  cases h with
  | own => exact Finset.mem_insert_self _ _
  | suffixed hused => exact Finset.mem_insert_of_mem hused
  | numbered hused => exact Finset.mem_insert_of_mem hused

end RuleName

/-- Numbers whose names are all in use are no more than there are such names. -/
theorem le_card_of_numbered {base : Text} {used : Finset Text} {k : Nat}
    (h : ∀ j, 1 ≤ j → j < k → numbered base j ∈ used) : k ≤ used.card + 1 := by
  have hsubset : (Finset.range (k - 1)).image (fun i => numbered base (i + 1)) ⊆ used := by
    intro n hn
    obtain ⟨i, hi, rfl⟩ := Finset.mem_image.mp hn
    have hlt := Finset.mem_range.mp hi
    exact h (i + 1) (by omega) (by omega)
  have hinjective : Function.Injective fun i => numbered base (i + 1) := by
    intro i j hij
    have := numbered_inj hij
    omega
  have hcard := Finset.card_le_card hsubset
  rw [Finset.card_image_of_injective _ hinjective, Finset.card_range] at hcard
  omega

/-! ## A claim follows the rule -/

section Claims

variable {limit : Nat} {used : Finset Text} {module : Text} {b : Binding} {p : NamePool}

theorem ruleName_claimNumbered (hused : ∀ n, n ∈ used ↔ n ∈ p.taken) (hown : b.localName ∈ p.taken)
    (hsuffix : b.kind = .default → ∀ suffix, moduleSuffix? limit module = some suffix →
      suffixed b.localName suffix ∈ p.taken) :
    RuleName limit used module b (p.claimNumbered b.localName).1 := by
  obtain ⟨hone, -, hfree, hsmaller⟩ := leastFree_spec b.localName p
  have hsmaller : ∀ j, 1 ≤ j → j < p.leastFree b.localName → numbered b.localName j ∈ used :=
    fun j hj hlt => (hused _).mpr (hsmaller j hj hlt)
  exact .numbered ((hused _).mpr hown) (fun hkind s hs => (hused _).mpr (hsuffix hkind s hs)) hone
    (le_card_of_numbered hsmaller) (fun h => hfree ((hused _).mp h)) hsmaller

/-- **The pool gives every binding the name of the rule.** -/
theorem ruleName_giveName (limit : Nat) (module : Text) (b : Binding)
    (hused : ∀ n, n ∈ used ↔ n ∈ p.taken) :
    RuleName limit used module b (Consolidation.giveName limit module b p).1 := by
  by_cases hown : b.localName ∈ p.taken
  · have htaken : p.isTaken b.localName = true := isTaken_iff.mpr hown
    cases hkind : b.kind with
    | «default» =>
        simp only [Consolidation.giveName, hkind, claimSuffixed, htaken, if_true]
        cases hsuffix : moduleSuffix? limit module with
        | none =>
            refine ruleName_claimNumbered hused hown fun _ s hs => ?_
            rw [hsuffix] at hs
            exact absurd hs (Option.some_ne_none s).symm
        | some suffix =>
            dsimp only
            by_cases hfree : suffixed b.localName suffix ∈ p.taken
            · rw [if_pos (isTaken_iff.mpr hfree)]
              refine ruleName_claimNumbered hused hown fun _ s hs => ?_
              rw [hsuffix] at hs
              rwa [← Option.some.inj hs]
            · rw [if_neg fun h => hfree (isTaken_iff.mp h)]
              exact .suffixed ((hused _).mpr hown) hkind hsuffix fun h => hfree ((hused _).mp h)
    | named | «namespace» =>
        simp only [Consolidation.giveName, hkind, claim, htaken, if_true]
        exact ruleName_claimNumbered hused hown fun h => absurd (hkind.symm.trans h) (by decide)
  · -- whatever its kind, a binding keeps a name that is free
    rw [(Consolidation.gives_giveName limit module b p).kept hown]
    exact .own fun h => hown ((hused _).mp h)

end Claims

/-! ## One after another -/

/-- Names for some bindings, each with the path of its module: each is that of the rule, and is in use
from then on. -/
inductive NamedInTurn (limit : Nat) : Finset Text → List (Text × Binding) → List Text → Prop
  | nil (used : Finset Text) : NamedInTurn limit used [] []
  | cons {used : Finset Text} {x : Text × Binding} {xs : List (Text × Binding)} {n : Text}
      {ns : List Text} (head : RuleName limit used x.1 x.2 n)
      (tail : NamedInTurn limit (insert n used) xs ns) : NamedInTurn limit used (x :: xs) (n :: ns)

namespace NamedInTurn

variable {limit : Nat} {used : Finset Text} {xs ys : List (Text × Binding)} {ns ms : List Text}

/-- Names for more bindings, given when the first ones are in use. -/
theorem append (h : NamedInTurn limit used xs ns)
    (h' : NamedInTurn limit (used ∪ ns.toFinset) ys ms) :
    NamedInTurn limit used (xs ++ ys) (ns ++ ms) := by
  induction h with
  | nil used => simpa using h'
  | cons head _ ih =>
      refine .cons head (ih ?_)
      rwa [Finset.insert_union, ← Finset.union_insert, ← List.toFinset_cons]

/-- The names of the first bindings do not depend on those of the others. -/
theorem exists_append (h : NamedInTurn limit used (xs ++ ys) ns) :
    ∃ as bs, ns = as ++ bs ∧ NamedInTurn limit used xs as ∧
      NamedInTurn limit (used ∪ as.toFinset) ys bs := by
  induction xs generalizing used ns with
  | nil => exact ⟨[], ns, rfl, .nil used, by simpa using h⟩
  | cons x xs ih =>
      cases h with
      | @cons _ _ _ n ns head tail =>
          obtain ⟨as, bs, rfl, has, hbs⟩ := ih tail
          refine ⟨n :: as, bs, rfl, .cons head has, ?_⟩
          rwa [List.toFinset_cons, Finset.union_insert, ← Finset.insert_union]

theorem unique (h : NamedInTurn limit used xs ns) (h' : NamedInTurn limit used xs ms) :
    ns = ms := by
  induction h generalizing ms with
  | nil => cases h' with | nil => rfl
  | cons head _ ih =>
      cases h' with
      | cons head' tail' =>
          obtain rfl := head.unique head'
          rw [ih tail']

theorem length_eq (h : NamedInTurn limit used xs ns) : xs.length = ns.length := by
  induction h with
  | nil => rfl
  | cons _ _ ih => rw [List.length_cons, List.length_cons, ih]

/-- In the end, every binding's own name is in use. -/
theorem localName_mem (h : NamedInTurn limit used xs ns) {x : Text × Binding} (hx : x ∈ xs) :
    x.2.localName ∈ used ∨ x.2.localName ∈ ns := by
  induction h with
  | nil => exact absurd hx List.not_mem_nil
  | cons head tail ih =>
      rcases List.mem_cons.mp hx with rfl | hx
      · rcases Finset.mem_insert.mp head.mem_insert with hn | hused
        · exact .inr (hn ▸ List.mem_cons_self)
        · exact .inl hused
      · rcases ih hx with hused | hns
        · rcases Finset.mem_insert.mp hused with hn | hused
          · exact .inr (hn ▸ List.mem_cons_self)
          · exact .inl hused
        · exact .inr (List.mem_cons_of_mem _ hns)

end NamedInTurn

/-- The names of a row: first the name itself, then the name with the numbers from one on. -/
def rowName (base : Text) : Nat → Text
  | 0 => base
  | k + 1 => numbered base (k + 1)

/-- What the rule has for a binding that imports no default, when the first `k` names of the row are in
use and the next one is free. -/
theorem ruleName_rowName {limit : Nat} {used : Finset Text} {module : Text} {b : Binding} {k : Nat}
    (hkind : b.kind ≠ .default) (hused : ∀ j < k, rowName b.localName j ∈ used)
    (hfree : rowName b.localName k ∉ used) :
    RuleName limit used module b (rowName b.localName k) := by
  cases k with
  | zero => exact .own hfree
  | succ k =>
      have hsmaller : ∀ j, 1 ≤ j → j < k + 1 → numbered b.localName j ∈ used := by
        intro j hj hlt
        obtain ⟨i, rfl⟩ := Nat.exists_eq_add_of_le' hj
        exact hused (i + 1) hlt
      exact .numbered (hused 0 (Nat.succ_pos k)) (fun h => absurd h hkind) (Nat.succ_pos k)
        (le_card_of_numbered hsmaller) hfree hsmaller

/-- A number behind a name makes it longer, so the names of a row are all different. -/
theorem rowName_inj {base : Text} {i j : Nat} (h : rowName base i = rowName base j) : i = j := by
  have hne (k : Nat) : base ≠ numbered base k := by
    intro hk
    have hlength := congrArg List.length hk
    rw [numbered, List.length_append] at hlength
    have hpos := List.length_pos_iff.mpr (show Text.ofNat k ≠ [] from Nat.toDigits_ne_nil)
    omega
  cases i with
  | zero =>
      cases j with
      | zero => rfl
      | succ j => exact absurd h (hne _)
  | succ i =>
      cases j with
      | zero => exact absurd h.symm (hne _)
      | succ j => exact numbered_inj h

/-- **The same binding of several modules** is given the names of the row, from the first free one
on. -/
theorem namedInTurn_row {limit : Nat} {b : Binding} (hkind : b.kind ≠ .default)
    (modules : List Text) {used : Finset Text} {k : Nat}
    (hused : ∀ j < k, rowName b.localName j ∈ used)
    (hfree : ∀ j, k ≤ j → j < k + modules.length → rowName b.localName j ∉ used) :
    NamedInTurn limit used (modules.map (·, b))
      ((List.range' k modules.length).map (rowName b.localName)) := by
  induction modules generalizing used k with
  | nil => exact .nil used
  | cons m modules ih =>
      rw [List.map_cons, List.length_cons, List.range'_succ, List.map_cons]
      rw [List.length_cons] at hfree
      refine .cons (ruleName_rowName hkind hused (hfree k (by omega) (by omega))) (ih ?_ ?_)
      · intro j hj
        rcases Nat.lt_succ_iff_lt_or_eq.mp hj with hlt | rfl
        · exact Finset.mem_insert_of_mem (hused j hlt)
        · exact Finset.mem_insert_self _ _
      · intro j hj hlt hmem
        rcases Finset.mem_insert.mp hmem with he | hmem
        · have := rowName_inj he
          omega
        · exact hfree j (by omega) (by omega) hmem

/-! ## Which bindings are named -/

/-- The keys of some bindings, each with the path of its module. -/
def keysOf (xs : List (Text × Binding)) : List BindingKey :=
  xs.map fun x => x.2.key x.1

/-- The bindings that are given a name, when those with the keys `seen` have one: the first one of each
key, unless it has a blank name. -/
def survivors (seen : Finset BindingKey) : List (Text × Binding) → List (Text × Binding)
  | [] => []
  | x :: xs =>
    if x.2.isBlank = true ∨ x.2.key x.1 ∈ seen then survivors seen xs
    else x :: survivors (insert (x.2.key x.1) seen) xs

theorem survivors_append (seen : Finset BindingKey) (xs ys : List (Text × Binding)) :
    survivors seen (xs ++ ys) =
      survivors seen xs ++ survivors (seen ∪ (keysOf (survivors seen xs)).toFinset) ys := by
  induction xs generalizing seen with
  | nil => simp [survivors, keysOf]
  | cons x xs ih =>
      rw [List.cons_append, survivors, survivors]
      split
      · exact ih seen
      · have hseen (ks : List BindingKey) : seen ∪ (x.2.key x.1 :: ks).toFinset =
            insert (x.2.key x.1) seen ∪ ks.toFinset := by
          rw [List.toFinset_cons, Finset.union_insert, Finset.insert_union]
        rw [ih, keysOf, keysOf, List.map_cons, hseen]
        rfl

/-- A binding that is not blank survives in every module of a row, if it is new there. -/
theorem survivors_row {b : Binding} (hb : b.isBlank = false) {modules : List Text}
    (hnodup : modules.Nodup) {seen : Finset BindingKey} (hnew : ∀ m ∈ modules, b.key m ∉ seen) :
    survivors seen (modules.map (·, b)) = modules.map (·, b) := by
  induction modules generalizing seen with
  | nil => rfl
  | cons m modules ih =>
      rw [List.nodup_cons] at hnodup
      rw [List.map_cons, survivors, if_neg]
      · refine congrArg (_ :: ·) (ih hnodup.2 fun m' hm' hmem => ?_)
        rcases Finset.mem_insert.mp hmem with hkey | hmem
        · have hmodule : m' = m := congrArg BindingKey.module hkey
          exact hnodup.1 (hmodule ▸ hm')
        · exact hnew m' (List.mem_cons_of_mem m hm') hmem
      · rintro (hblank | hmem)
        · exact absurd (hb.symm.trans hblank) Bool.false_ne_true
        · exact hnew m List.mem_cons_self hmem

/-! ## All records -/

namespace Consolidation

/-- What is known of the names of a plan in the making, in terms of the bindings that were offered. -/
structure FollowsRule (rules : NamingRules) (off : List (Text × Binding)) (s : State) : Prop where
  /-- The names taken are those reserved and those given. -/
  taken : ∀ n, n ∈ rules.reserved.toFinset ∪ s.plan.localNames.toFinset ↔ n ∈ s.pool.taken
  /-- The bindings that have names are those that survive. -/
  keys : s.plan.names.map Prod.fst = keysOf (survivors ∅ off)
  /-- Their names are those of the rule. -/
  names : NamedInTurn rules.suffixMaxLength rules.reserved.toFinset (survivors ∅ off)
    s.plan.localNames

variable {rules : NamingRules} {off : List (Text × Binding)} {s : State}

theorem followsRule_start (rules : NamingRules) : FollowsRule rules [] (start rules) where
  taken n := by
    rw [start, NamePool.mem_taken_ofReserved]
    simp [Plan.empty, Plan.localNames]
  keys := rfl
  names := .nil _

/-- A binding has a name if its key is one of those that were seen. -/
theorem FollowsRule.mem_seen_iff (h : FollowsRule rules off s) (module : Text) (b : Binding) :
    b.key module ∈ (∅ : Finset BindingKey) ∪ (keysOf (survivors ∅ off)).toFinset ↔
      s.plan.localName? module b ≠ none := by
  rw [Finset.empty_union, List.mem_toFinset, ← h.keys, Plan.localName?]
  constructor
  · intro hkey hnone
    obtain ⟨p, hp, hfst⟩ := List.mem_map.mp hkey
    have hne := List.lookup_eq_none_iff.mp hnone p hp
    rw [hfst] at hne
    exact absurd rfl (bne_iff_ne.mp hne)
  · intro hne
    obtain ⟨n, hn⟩ := Option.ne_none_iff_exists'.mp hne
    exact List.mem_map.mpr ⟨_, mem_of_lookup hn, rfl⟩

/-- **Every binding that comes next is named by the rule**, if it is named at all. -/
theorem followsRule_addBinding (h : FollowsRule rules off s) (module : Text) (b : Binding) :
    FollowsRule rules (off ++ [(module, b)])
      (addBinding rules.suffixMaxLength module s b) := by
  have hseen := h.mem_seen_iff module b
  rcases addBinding_cases rules.suffixMaxLength module s b with
    ⟨hleft, hsame⟩ | ⟨hb, hnone, n, pool, hname, hgives, hadd⟩
  · -- it is blank or was seen, so it is none of those that survive
    have hsurvivors : survivors ∅ (off ++ [(module, b)]) = survivors ∅ off := by
      rw [survivors_append, survivors, if_pos, survivors, List.append_nil]
      refine hleft.imp_right fun ⟨n, hn⟩ => hseen.mpr ?_
      rw [hn]
      exact Option.some_ne_none n
    rw [hsame]
    constructor
    · exact h.taken
    · rw [hsurvivors]
      exact h.keys
    · rw [hsurvivors]
      exact h.names
  · have hsurvivors : survivors ∅ (off ++ [(module, b)]) = survivors ∅ off ++ [(module, b)] := by
      rw [survivors_append, survivors, if_neg, survivors]
      rintro (hblank | hmem)
      · exact absurd (hb.symm.trans hblank) Bool.false_ne_true
      · exact hseen.mp hmem hnone
    have hrule := ruleName_giveName rules.suffixMaxLength module b h.taken
    rw [hname] at hrule
    rw [hadd]
    constructor
    · intro x
      have htaken : x ∈ pool.taken ↔ x ∈ s.pool.taken ∨ x = n := by
        rw [hgives.taken, List.mem_append, List.mem_singleton]
      rw [htaken, ← h.taken x, Plan.localNames_concat]
      simp only [Finset.mem_union, List.mem_toFinset, List.mem_append, List.mem_singleton, or_assoc]
    · rw [hsurvivors, List.map_append, h.keys, keysOf, keysOf, List.map_append]
      rfl
    · rw [hsurvivors, Plan.localNames, List.map_append]
      exact h.names.append (.cons hrule (.nil _))

/-- **What is made of any records follows the rule.** -/
theorem followsRule_foldl (rules : NamingRules) (records : List ImportRecord) :
    FollowsRule rules (records.flatMap offers)
      (records.foldl (addRecord rules.suffixMaxLength) (start rules)) :=
  foldl_offers (I := FollowsRule rules) (fun r _ b _ _ _ h => followsRule_addBinding h r.module b)
    (fun _ _ _ _ _ h => ⟨h.taken, h.keys, h.names⟩) (followsRule_start rules)

end Consolidation

/-- The bindings that a plan of some records names, in the order in which they come. -/
def namedBindings (records : List ImportRecord) : List (Text × Binding) :=
  survivors ∅ (records.flatMap Consolidation.offers)

section

variable (rules : NamingRules) (records : List ImportRecord)

open Consolidation in
/-- The names of a plan are those of the rule. -/
theorem namedInTurn_localNames :
    NamedInTurn rules.suffixMaxLength rules.reserved.toFinset (namedBindings records)
      (consolidate rules records).localNames :=
  (followsRule_foldl rules records).names

open Consolidation in
/-- A plan answers for a binding with the name that it was given. -/
theorem map_localName?_namedBindings :
    (namedBindings records).map (fun x => (consolidate rules records).localName? x.1 x.2) =
      (consolidate rules records).localNames.map some := by
  have hkeys := (followsRule_foldl rules records).keys
  have hunique := (sound_foldl rules records).unique
  unfold consolidate namedBindings
  generalize records.foldl (addRecord rules.suffixMaxLength) (start rules) = s at hkeys hunique ⊢
  have hlookup : (keysOf (survivors ∅ (records.flatMap offers))).map (s.plan.names.lookup ·) =
      s.plan.localNames.map some := by
    rw [← hkeys, Plan.localNames, List.map_map, List.map_map]
    exact List.map_congr_left fun p hp => hunique p.1 p.2 hp
  rwa [keysOf, List.map_map] at hlookup

/-- More records that each bring in one binding of a module of its own, which is the same for all and
whose name is fresh, add it once for each. -/
theorem namedBindings_append {b : Binding} (hb : b.isBlank = false) {more : List ImportRecord}
    (hnodup : (more.map (·.module)).Nodup) (hmore : ∀ r ∈ more, r.runtimeBindings = [b])
    (hfresh : 0 < more.length → b.localName ∉ rules.reserved ∧
      b.localName ∉ (consolidate rules records).localNames) :
    namedBindings (records ++ more) =
      namedBindings records ++ (more.map (·.module)).map (·, b) := by
  have hoffers : more.flatMap Consolidation.offers = (more.map (·.module)).map (·, b) := by
    rw [List.map_map, ← List.flatMap_singleton' (more.map _), List.flatMap_map]
    refine List.flatMap_congr fun r hr => ?_
    rw [Consolidation.offers, hmore r hr]
    rfl
  rw [namedBindings, List.flatMap_append, survivors_append, hoffers, survivors_row hb hnodup]
  · rfl
  · -- a binding with its key would have its name in use
    intro m hm hmem
    have hpos := List.length_pos_of_mem hm
    rw [List.length_map] at hpos
    rw [Finset.empty_union, List.mem_toFinset] at hmem
    obtain ⟨x, hx, hkey⟩ := List.mem_map.mp hmem
    have hname : x.2.name = b.name := congrArg BindingKey.name hkey
    have halias : x.2.alias? = b.alias? := congrArg BindingKey.alias? hkey
    have hused := (namedInTurn_localNames rules records).localName_mem hx
    rw [Binding.localName, hname, halias, List.mem_toFinset] at hused
    exact hused.elim (hfresh hpos).1 (hfresh hpos).2

end

/-- **The names of a plan are those of the rule**, one after another in the order in which the bindings
come, whatever is reserved. So modules that import the same name, which is not in use and has no number
behind it that is, get it as it is, with 1, with 2 and so on. -/
theorem namedInTurn_consolidate (rules : NamingRules) (records : List ImportRecord) :
    (∃ ns, NamedInTurn rules.suffixMaxLength rules.reserved.toFinset (namedBindings records) ns ∧
      (namedBindings records).map (fun x => (consolidate rules records).localName? x.1 x.2) =
        ns.map some) ∧
    ∀ (b : Binding) (more : List ImportRecord), b.kind = .named → b.isBlank = false →
      (more.map (·.module)).Nodup → (∀ r ∈ more, r.runtimeBindings = [b]) →
      (∀ k < more.length, rowName b.localName k ∉ rules.reserved ∧
        rowName b.localName k ∉ (consolidate rules records).localNames) →
      more.map (fun r => (consolidate rules (records ++ more)).localName? r.module b) =
        (List.range more.length).map fun k => some (rowName b.localName k) := by
  refine ⟨⟨_, namedInTurn_localNames rules records, map_localName?_namedBindings rules records⟩, ?_⟩
  intro b more hkind hb hnodup hmore hfresh
  have hbindings := namedBindings_append rules records hb hnodup hmore (hfresh 0)
  have hnames := namedInTurn_localNames rules (records ++ more)
  have hanswers := map_localName?_namedBindings rules (records ++ more)
  rw [hbindings] at hnames hanswers
  obtain ⟨as, bs, hsplit, has, hbs⟩ := hnames.exists_append
  -- the first names are those that the first records have by themselves, so the row is free
  obtain rfl := has.unique (namedInTurn_localNames rules records)
  have hrow : NamedInTurn rules.suffixMaxLength
      (rules.reserved.toFinset ∪ (consolidate rules records).localNames.toFinset)
      ((more.map (·.module)).map (·, b))
      ((List.range' 0 (more.map (·.module)).length).map (rowName b.localName)) := by
    refine namedInTurn_row (by rw [hkind]; decide) _ (fun j hj => absurd hj (Nat.not_lt_zero j)) ?_
    intro j _ hj hmem
    rw [Nat.zero_add, List.length_map] at hj
    rw [Finset.mem_union, List.mem_toFinset, List.mem_toFinset] at hmem
    exact hmem.elim (hfresh j hj).1 (hfresh j hj).2
  obtain rfl := hbs.unique hrow
  rw [hsplit, List.map_append, List.map_append] at hanswers
  have hmodules := (List.append_inj hanswers (by simp [has.length_eq])).2
  rw [List.map_map, List.map_map, List.map_map, List.length_map] at hmodules
  rw [List.range_eq_range']
  exact hmodules

/-- Three modules with an export `X`, behind a package with a default import that is not free and one
that is. -/
theorem namedInTurn_consolidate_three :
    let binding : Binding := ⟨['X'], .named, none, false⟩
    let rules : NamingRules := ⟨["icon".toList], 20⟩
    let records : List ImportRecord :=
      [.ofScript "a-b".toList [⟨"icon".toList, .default, none, false⟩,
        ⟨"X_".toList, .default, none, false⟩] false]
    let more : List ImportRecord := ["./a".toList, "./b".toList, "./c".toList].map
      fun m => .ofScript m [binding] false
    (consolidate rules records).localNames = ["icon_ab".toList, "X_".toList] ∧
      more.map (fun r => (consolidate rules (records ++ more)).localName? r.module binding) =
        [some ['X'], some "X1".toList, some "X2".toList] := by
  intro binding rules records more
  refine ⟨by decide +kernel, ?_⟩
  have hrow := (namedInTurn_consolidate rules records).2 binding more rfl (by decide +kernel)
    (by decide +kernel) (by decide +kernel) (by decide +kernel)
  rw [hrow]
  decide +kernel

end ScriptSurvey
