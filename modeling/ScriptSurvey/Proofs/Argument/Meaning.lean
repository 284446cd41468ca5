import Mathlib.Logic.Function.Basic
import ScriptSurvey.Proofs.Argument.Properties

/-!
# The meaning of an object literal

The properties of an object literal are carried out from left to right. A property gives its value to
its key, and a spread gives its own values to all keys that its operand has. Which keys those are is
not known here, nor is it known which texts spell one key (`a` and `'a'` do). So the meaning of some
properties is what each key holds in the end, for every way to name keys by texts and for every choice
of the keys that the operands have.

An object keeps each text once, at its first place and with its last value. That moves the last value
of a text in front of whatever stands between the two. It can only be told if all occurrences of
another property stand there: in front of one of them nothing was to be seen, and behind one of them
nothing will be. One text **surrounds** another then. The meaning is kept if this happens to properties
of different keys only, and never to a spread; and as far as texts spell different keys, it is not kept
otherwise.
-/

namespace ScriptSurvey

/-- One text stands in front of and behind the other, wherever that stands. -/
def Surrounds (outer inner : Text) (ts : List Text) : Prop :=
  inner ∈ ts ∧ ∀ a b, ts = a ++ inner :: b → outer ∈ a ∧ outer ∈ b

namespace Surrounds

variable {outer inner : Text} {ts : List Text}

theorem mem (h : Surrounds outer inner ts) : outer ∈ ts := by
  obtain ⟨a, b, hts⟩ := List.append_of_mem h.1
  rw [hts]
  exact List.mem_append_left _ (h.2 a b hts).1

theorem ne (h : Surrounds outer inner ts) : outer ≠ inner := by
  rintro rfl
  obtain ⟨a, b, hts, ha⟩ := List.eq_append_cons_of_mem h.1
  exact ha (h.2 a b hts).1

theorem iff_all : Surrounds outer inner ts ↔
    (ts.contains inner && (List.range ts.length).all fun n => ts[n]? != some inner ||
      ((ts.take n).contains outer && (ts.drop (n + 1)).contains outer)) = true := by
  simp only [Bool.and_eq_true, List.all_eq_true, Bool.or_eq_true, bne_iff_ne, List.contains_iff_mem,
    ← imp_iff_not_or]
  refine and_congr_right fun _ => ⟨fun h n _ hn => ?_, fun h a b hts => ?_⟩
  · obtain ⟨hlt, hget⟩ := List.getElem?_eq_some_iff.mp hn
    refine h _ _ ?_
    rw [← hget, ← List.drop_eq_getElem_cons hlt, List.take_append_drop]
  · have := h a.length (by rw [hts]; simp) (by rw [hts]; simp)
    rw [hts, List.take_left] at this
    simpa using this

instance : Decidable (Surrounds outer inner ts) :=
  decidable_of_iff _ iff_all.symm

/-- What surrounds a text does so whatever else stands there. -/
theorem of_filter {s : Text → Bool} (h : Surrounds outer inner (ts.filter s)) :
    Surrounds outer inner ts := by
  obtain ⟨hmem, hall⟩ := h
  obtain ⟨hinner, hs⟩ := List.mem_filter.mp hmem
  refine ⟨hinner, fun a b hts => ?_⟩
  have hfilter : ts.filter s = a.filter s ++ inner :: b.filter s := by
    rw [hts, List.filter_append, List.filter_cons_of_pos hs]
  obtain ⟨ha, hb⟩ := hall _ _ hfilter
  exact ⟨List.mem_of_mem_filter ha, List.mem_of_mem_filter hb⟩

theorem filter {s : Text → Bool} (h : Surrounds outer inner ts) (ho : s outer = true)
    (hi : s inner = true) : Surrounds outer inner (ts.filter s) := by
  refine ⟨List.mem_filter.mpr ⟨h.1, hi⟩, fun a b hab => ?_⟩
  obtain ⟨front, back, rfl, rfl, hback⟩ := List.filter_eq_append_iff.mp hab
  obtain ⟨x, y, rfl, hx, _, rfl⟩ := List.filter_eq_cons_iff.mp hback
  obtain ⟨ha, hb⟩ := h.2 (front ++ x) y (by simp)
  refine ⟨List.mem_filter.mpr ⟨?_, ho⟩, List.mem_filter.mpr ⟨hb, ho⟩⟩
  rcases List.mem_append.mp ha with ha | ha
  · exact ha
  · exact absurd ho (hx outer ha)

/-- The outer text comes up before the inner one. -/
theorem ne_getLast?_eraseDups (h : Surrounds outer inner ts) :
    ts.eraseDups.getLast? ≠ some outer := by
  intro hlast
  obtain ⟨a, b, hts, ha⟩ := List.eq_append_cons_of_mem h.mem
  have hinner := mem_of_getLast?_eraseDups hlast h.1 h.ne.symm hts
  obtain ⟨x, y, rfl⟩ := List.append_of_mem hinner
  refine ha (List.mem_append_left _ (h.2 x (y ++ outer :: b) ?_).1)
  rw [hts]
  simp

/-- The outer text comes up behind the inner one. -/
theorem ne_getLast? (h : Surrounds outer inner ts) : ts.getLast? ≠ some inner := by
  intro hlast
  obtain ⟨a, rfl⟩ := List.getLast?_eq_some_iff.mp hlast
  exact List.not_mem_nil (h.2 a [] rfl).2

end Surrounds

namespace Element

/-! ## Which property a key gets its value from -/

/-- Whether a property with this key is a spread. -/
def isSpread (key : Text) : Bool :=
  ['.', '.', '.'].isPrefixOf key

/-- What a key holds: a value, or what the operand of a spread has for it. -/
inductive Held where
  | value (e : Element)
  | spread (text : Text)

/-- What a property gives to a key. -/
def held (p : Text × Element) : Held :=
  if isSpread p.1 then .spread p.1 else .value p.2

section Meaning

variable {K : Type} [DecidableEq K] (name : Text → K) (has : Text → K → Bool)

/-- Whether a property gives something to a key, with the names of keys and the keys of operands. -/
def settles (k : K) (key : Text) : Bool :=
  if isSpread key then has key k else name key = k

/-- What a key holds behind some properties, if it is there at all. -/
def meaning (ps : List (Text × Element)) (k : K) : Option Held :=
  ps.foldl (fun h p => if settles name has k p.1 then some (held p) else h) none

/-- The last property that gives something to a key decides what it holds. -/
theorem meaning_eq (ps : List (Text × Element)) (k : K) :
    meaning name has ps k = (ps.filter fun p => settles name has k p.1).getLast?.map held := by
  induction ps using List.reverseRecOn with
  | nil => rfl
  | append_singleton ps p ih =>
      rw [meaning, List.foldl_concat, ← meaning, ih, List.filter_append]
      cases hs : settles name has k p.1 with
      | true =>
          have hone : [p].filter (fun p => settles name has k p.1) = [p] := by simp [hs]
          rw [hone, List.getLast?_concat]
          rfl
      | false =>
          have hnone : [p].filter (fun p => settles name has k p.1) = [] := by simp [hs]
          rw [hnone, List.append_nil]
          rfl

end Meaning

theorem eq_or_mem_of_getLast? {α : Type} {as bs : List α} {x y : α}
    (h : (as ++ x :: bs).getLast? = some y) : y = x ∧ bs = [] ∨ y ∈ bs := by
  rcases List.eq_nil_or_concat bs with rfl | ⟨bs, z, rfl⟩
  · rw [List.getLast?_concat, Option.some.injEq] at h
    exact .inl ⟨h.symm, rfl⟩
  · rw [List.concat_eq_append, ← List.cons_append, ← List.append_assoc, List.getLast?_concat,
      Option.some.injEq] at h
    rw [List.concat_eq_append, h]
    exact .inr (List.mem_append_right bs (List.mem_singleton_self _))

theorem getLast?_keys {ps : List (Text × Element)} {p : Text × Element} (h : ps.getLast? = some p) :
    (ps.map Prod.fst).getLast? = some p.1 := by
  rw [List.getLast?_map, h]
  rfl

theorem getLast?_keys_collapse {ps : List (Text × Element)} {q : Text × Element}
    (h : (collapse ps).getLast? = some q) : (ps.map Prod.fst).eraseDups.getLast? = some q.1 := by
  rw [← keys_collapse]
  exact getLast?_keys h

/-- The last property of an object is the last one there was, or one that the last one surrounds. -/
theorem getLast?_collapse {ps : List (Text × Element)} {p q : Text × Element}
    (hp : ps.getLast? = some p) (hq : (collapse ps).getLast? = some q) :
    q = p ∨ Surrounds p.1 q.1 (ps.map Prod.fst) := by
  have hlast := getLast?_keys hp
  have hfirst := getLast?_keys_collapse hq
  by_cases hkey : p.1 = q.1
  · -- nothing behind has the key, so nothing is behind
    left
    obtain ⟨a, b, hps, hb⟩ := mem_collapse_iff.mp (List.mem_of_getLast? hq)
    rw [hps] at hp
    rcases eq_or_mem_of_getLast? hp with ⟨rfl, -⟩ | hmem
    · rfl
    · exact absurd (hkey ▸ List.mem_map_of_mem hmem) hb
  · right
    refine ⟨List.mem_eraseDups.mp (List.mem_of_getLast? hfirst), fun x y hxy => ⟨?_, ?_⟩⟩
    · exact mem_of_getLast?_eraseDups hfirst (List.mem_of_getLast? hlast) hkey hxy
    · rw [hxy] at hlast
      exact (eq_or_mem_of_getLast? hlast).resolve_left fun h => hkey h.1

/-- Of two keys, one of which surrounds the other, the outer one comes last among the properties that
there were, and the inner one in the object. -/
theorem getLast?_of_surrounds {ps : List (Text × Element)} {t u : Text}
    (h : Surrounds t u (ps.map Prod.fst)) (htwo : ∀ s ∈ ps.map Prod.fst, s = t ∨ s = u)
    {p q : Text × Element} (hp : ps.getLast? = some p) (hq : (collapse ps).getLast? = some q) :
    p.1 = t ∧ q.1 = u := by
  have hlast := getLast?_keys hp
  have hfirst := getLast?_keys_collapse hq
  have hq' := List.mem_eraseDups.mp (List.mem_of_getLast? hfirst)
  constructor
  · exact (htwo _ (List.mem_of_getLast? hlast)).resolve_right fun he => h.ne_getLast? (he ▸ hlast)
  · exact (htwo _ hq').resolve_left fun he => h.ne_getLast?_eraseDups (he ▸ hfirst)

theorem keys_filter (s : Text → Bool) (ps : List (Text × Element)) :
    (ps.filter fun p => s p.1).map Prod.fst = (ps.map Prod.fst).filter s :=
  List.filter_map.symm

theorem exists_getLast?_collapse {ps : List (Text × Element)} {p : Text × Element} (h : p ∈ ps) :
    ∃ q, (collapse ps).getLast? = some q := by
  refine Option.ne_none_iff_exists'.mp fun hnone => ?_
  have hkey := List.mem_eraseDups.mpr (List.mem_map_of_mem (f := Prod.fst) h)
  rw [← keys_collapse, List.getLast?_eq_none_iff.mp hnone] at hkey
  exact List.not_mem_nil hkey

/-! ## When an object means what was written -/

variable {K : Type} [DecidableEq K] {name : Text → K} {ps : List (Text × Element)}

/-- An object means what its properties did, if none surrounds another one of its key, and no spread
surrounds or is surrounded. -/
theorem meaning_collapse
    (h : ∀ t u, Surrounds t u (ps.map Prod.fst) →
      isSpread t = false ∧ isSpread u = false ∧ name t ≠ name u)
    (has : Text → K → Bool) (k : K) :
    meaning name has (collapse ps) k = meaning name has ps k := by
  rw [meaning_eq, meaning_eq, ← collapse_filter]
  have hsettles {p : Text × Element} (hp : p.1 ∈ (ps.map Prod.fst).filter (settles name has k))
      (hplain : isSpread p.1 = false) : name p.1 = k := by
    have := (List.mem_filter.mp hp).2
    rw [settles, hplain] at this
    simpa using this
  -- the last property that settles `k` decides, and another one can come last in its place only by
  -- surrounding it
  cases hp : (ps.filter fun p => settles name has k p.1).getLast? with
  | none =>
      rw [List.getLast?_eq_none_iff.mp hp]
      rfl
  | some p =>
      have hmem := List.mem_of_getLast? hp
      obtain ⟨q, hq⟩ := exists_getLast?_collapse hmem
      rw [hq]
      rcases getLast?_collapse hp hq with rfl | hs
      · rfl
      · rw [keys_filter] at hs
        obtain ⟨hplain, hplain', hne⟩ := h _ _ hs.of_filter
        exact absurd ((hsettles hs.mem hplain).trans (hsettles hs.1 hplain').symm) hne

/-- Two texts, one of them a spread, can be what gives something to a key, and nothing else does. -/
theorem exists_settles_iff (hname : Function.Injective name) {t u : Text}
    (hspread : isSpread t = true ∨ isSpread u = true) :
    ∃ has k, ∀ s, settles name has k s = true ↔ s = t ∨ s = u := by
  -- the operands have but one key, and of the plain properties only one of the two texts can spell it
  refine ⟨fun s _ => s = t ∨ s = u, if isSpread u then name t else name u, fun s => ?_⟩
  unfold settles
  split
  · exact decide_eq_true_iff
  · next hs =>
      rw [decide_eq_true_iff]
      split
      · next hu =>
          have hne : s ≠ u := fun he => hs (by rw [he, hu])
          rw [hname.eq_iff]
          exact (or_iff_left hne).symm
      · next hu =>
          have hne : s ≠ t := fun he => hs (by rw [he, hspread.resolve_right hu])
          rw [hname.eq_iff]
          exact (or_iff_right hne).symm

/-- As far as different texts spell different keys, a spread that surrounds a property, or is surrounded
by one, can be told from the object. -/
theorem exists_meaning_ne (hname : Function.Injective name) {t u : Text}
    (h : Surrounds t u (ps.map Prod.fst)) (hspread : isSpread t = true ∨ isSpread u = true) :
    ∃ has k, meaning name has (collapse ps) k ≠ meaning name has ps k := by
  obtain ⟨has, k, hsettles⟩ := exists_settles_iff hname hspread
  refine ⟨has, k, ?_⟩
  -- of the properties that give something to the key, none is left but the two
  have hsome := h.filter ((hsettles t).mpr (.inl rfl)) ((hsettles u).mpr (.inr rfl))
  have htwo : ∀ s ∈ (ps.map Prod.fst).filter (settles name has k), s = t ∨ s = u :=
    fun s hs => (hsettles s).mp (List.mem_filter.mp hs).2
  rw [← keys_filter] at hsome htwo
  obtain ⟨r, hr, -⟩ := List.mem_map.mp hsome.1
  obtain ⟨p, hp⟩ := Option.ne_none_iff_exists'.mp fun hnone =>
    List.ne_nil_of_mem hr (List.getLast?_eq_none_iff.mp hnone)
  obtain ⟨q, hq⟩ := exists_getLast?_collapse hr
  obtain ⟨hpt, hqu⟩ := getLast?_of_surrounds hsome htwo hp hq
  rw [meaning_eq, meaning_eq, ← collapse_filter, hp, hq]
  intro heq
  have heq : held q = held p := Option.some.inj heq
  rw [held, held, hpt, hqu] at heq
  split at heq <;> split at heq
  · exact h.ne (Held.spread.inj heq).symm
  · exact Held.noConfusion heq
  · exact Held.noConfusion heq
  · next hu ht => exact hspread.elim ht hu

end Element

end ScriptSurvey
