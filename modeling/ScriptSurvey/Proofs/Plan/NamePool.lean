import Mathlib.Data.List.Nodup
import ScriptSurvey.Plan.Consolidate
import ScriptSurvey.Proofs.Text.Identifier

/-!
# What a pool gives

A name that is wanted is given as it is when it is free. Otherwise it is given with something behind
it: the suffix of its module or a number. There is always a number to give, since the numbers from
one on make different names and only so many names are taken.

All that a claim does to a pool is said once, in `Gives`; what holds of the names of a plan follows
from it.
-/

namespace ScriptSurvey

/-- The letters, by their places in ASCII. -/
theorem isAlpha_iff_toNat {c : Char} : c.isAlpha = true ↔
    ('A'.toNat ≤ c.toNat ∧ c.toNat ≤ 'Z'.toNat) ∨ ('a'.toNat ≤ c.toNat ∧ c.toNat ≤ 'z'.toNat) := by
  have hupper : c.isUpper = true ↔ 'A'.toNat ≤ c.toNat ∧ c.toNat ≤ 'Z'.toNat := decide_eq_true_iff
  have hlower : c.isLower = true ↔ 'a'.toNat ≤ c.toNat ∧ c.toNat ≤ 'z'.toNat :=
    Bool.and_eq_true_iff.trans (and_congr decide_eq_true_iff decide_eq_true_iff)
  exact Bool.or_eq_true_iff.trans (or_congr hupper hlower)

/-- A letter in lower case is a letter. -/
theorem isAlphanum_toLower {c : Char} (h : c.isAlphanum = true) : c.toLower.isAlphanum = true := by
  unfold Char.toLower
  split
  · next hupper =>
      obtain ⟨hlow, hhigh⟩ := hupper
      have ha : 'a'.val ≤ c.val + 32 := by
        simp only [ge_iff_le, UInt32.le_iff_toNat_le, UInt32.toNat_add] at hlow hhigh ⊢
        simp at *
        omega
      have hz : c.val + 32 ≤ 'z'.val := by
        simp only [ge_iff_le, UInt32.le_iff_toNat_le, UInt32.toNat_add] at hlow hhigh ⊢
        simp at *
        omega
      exact Bool.or_eq_true_iff.mpr (.inl (isAlpha_iff_toNat.mpr (.inr ⟨ha, hz⟩)))
  · exact h

/-- Letters and digits continue an identifier. -/
theorem isIdentifierPart_of_isAlphanum {c : Char} (h : c.isAlphanum = true) :
    Text.isIdentifierPart c = true := by
  unfold Char.isAlphanum at h
  rcases Bool.or_eq_true _ _ ▸ h with h | h
  · exact Text.isIdentifierPart_of_start (by simp [Text.isIdentifierStart, h])
  · simp [Text.isIdentifierPart, h]

/-- More part characters make no difference to an identifier. -/
theorem isIdentifier_append {name more : Text} (h : Text.isIdentifier name = true)
    (hmore : ∀ c ∈ more, Text.isIdentifierPart c = true) :
    Text.isIdentifier (name ++ more) = true := by
  cases name with
  | nil => exact absurd h (by simp [Text.isIdentifier])
  | cons c name =>
      simp only [Text.isIdentifier, List.cons_append, Bool.and_eq_true, List.all_append,
        List.all_eq_true] at h ⊢
      exact ⟨h.1, h.2, hmore⟩

namespace NamePool

variable {p : NamePool} {name base : Text} {limit : Nat} {module : Text}

/-! ## The names taken -/

theorem isTaken_iff : p.isTaken name = true ↔ name ∈ p.taken := by
  rw [isTaken, List.contains_iff_mem]

theorem not_isTaken_iff : p.isTaken name = false ↔ name ∉ p.taken := by
  rw [← Bool.not_eq_true, isTaken_iff]

theorem taken_take (h : name ∉ p.taken) : (p.take name).taken = p.taken ++ [name] := by
  rw [take, not_isTaken_iff.mpr h]
  rfl

/-- Nothing but the reserved names is taken at first. -/
theorem mem_taken_ofReserved {names : List Text} :
    name ∈ (ofReserved names).taken ↔ name ∈ names := by
  have hfold : ∀ q : NamePool, name ∈ (names.foldl (fun p n => p.take n) q).taken ↔
      name ∈ q.taken ∨ name ∈ names := by
    induction names with
    | nil => intro q; simp
    | cons n names ih =>
        intro q
        rw [List.foldl_cons, ih, List.mem_cons]
        by_cases hn : n ∈ q.taken
        · rw [take, isTaken_iff.mpr hn, if_pos rfl]
          by_cases he : name = n
          · subst he
            simp [hn]
          · simp [he]
        · rw [taken_take hn, List.mem_append, List.mem_singleton, or_assoc]
  rw [ofReserved, hfold]
  simp [empty]

/-! ## Numbers -/

/-- A number can be read off the name that it makes. -/
theorem numbered_inj {j k : Nat} (h : numbered base j = numbered base k) : j = k := by
  have hdigits : Text.ofNat j = Text.ofNat k := List.append_cancel_left h
  have := congrArg (fun ds => Nat.ofDigitChars 10 ds 0) hdigits
  simpa only [Text.ofNat, Nat.ofDigitChars_ten_toDigits] using this

/-- Among the first numbers, one more than there are names taken, one makes a free name. -/
theorem exists_free (base : Text) (p : NamePool) :
    ∃ k ∈ List.range' 1 (p.size + 1), numbered base k ∉ p.taken := by
  refine Classical.byContradiction fun hnone => ?_
  have hall : (List.range' 1 (p.size + 1)).map (numbered base) ⊆ p.taken := by
    intro n hn
    obtain ⟨k, hk, rfl⟩ := List.mem_map.mp hn
    exact Classical.byContradiction fun hfree => hnone ⟨k, hk, hfree⟩
  -- they are different names, and there are too many of them
  have hnodup : ((List.range' 1 (p.size + 1)).map (numbered base)).Nodup :=
    List.Nodup.map (fun _ _ => numbered_inj) List.nodup_range'
  have hle := hnodup.length_le_of_subset hall
  rw [List.length_map, List.length_range', size] at hle
  omega

/-- **The least free number** is one of the first, its name is free, and the names of all smaller
numbers are taken. -/
theorem leastFree_spec (base : Text) (p : NamePool) :
    1 ≤ p.leastFree base ∧ p.leastFree base ≤ p.size + 1 ∧
      numbered base (p.leastFree base) ∉ p.taken ∧
      ∀ k, 1 ≤ k → k < p.leastFree base → numbered base k ∈ p.taken := by
  obtain ⟨k, hk, hfree⟩ := exists_free base p
  have hsome : ((List.range' 1 (p.size + 1)).find? fun k => !p.isTaken (numbered base k)).isSome :=
    List.find?_isSome.mpr ⟨k, hk, by rw [not_isTaken_iff.mpr hfree]; rfl⟩
  obtain ⟨i, hi⟩ := Option.isSome_iff_exists.mp hsome
  rw [leastFree, hi, Option.getD_some]
  obtain ⟨hfree, hmem, hsmaller⟩ := List.find?_range'_eq_some.mp hi
  rw [List.mem_range'_1] at hmem
  refine ⟨hmem.1, by omega, not_isTaken_iff.mp (by simpa using hfree), fun k hk hlt => ?_⟩
  exact isTaken_iff.mp (by simpa using hsmaller k hk hlt)

/-! ## Names near the one wanted -/

/-- Whether a name is the one wanted, or that with a number or a suffix behind it. -/
inductive Near (wanted : Text) : Text → Prop
  | self : Near wanted wanted
  | numbered (k : Nat) : Near wanted (numbered wanted k)
  | suffixed {suffix : Text} : (∀ c ∈ suffix, c.isAlphanum = true) →
      Near wanted (suffixed wanted suffix)

/-- The digits of a number, of which there is at least one. -/
theorem exists_digits (k : Nat) :
    ∃ ds d, Text.ofNat k = ds ++ [d] ∧ ∀ c ∈ ds ++ [d], c.isDigit = true := by
  have hne : Text.ofNat k ≠ [] := Nat.toDigits_ne_nil
  have hsplit : Text.ofNat k = (Text.ofNat k).dropLast ++ [(Text.ofNat k).getLast hne] :=
    (List.dropLast_append_getLast hne).symm
  refine ⟨_, _, hsplit, ?_⟩
  rw [← hsplit]
  intro c hc
  exact Nat.isDigit_of_mem_toDigits (by decide) (by decide) hc

/-- A name near an identifier is one. -/
theorem Near.isIdentifier {wanted : Text} (h : Near wanted name)
    (hw : Text.isIdentifier wanted = true) : Text.isIdentifier name = true := by
  cases h with
  | self => exact hw
  | numbered k =>
      obtain ⟨ds, d, hds, hdigits⟩ := exists_digits k
      refine isIdentifier_append hw ?_
      intro c hc
      rw [hds] at hc
      simp [Text.isIdentifierPart, hdigits c hc]
  | suffixed hsuffix =>
      refine isIdentifier_append (isIdentifier_append hw ?_) ?_
      · intro c hc
        rw [List.mem_singleton.mp hc]
        decide
      · intro c hc
        exact isIdentifierPart_of_isAlphanum (hsuffix c hc)

/-- No name is made that is a word of letters only. -/
theorem Near.eq_of_isAlpha {wanted : Text} (h : Near wanted name)
    (hname : ∀ c ∈ name, c.isAlpha = true) : name = wanted := by
  cases h with
  | self => rfl
  | numbered k =>
      obtain ⟨ds, d, hds, hdigits⟩ := exists_digits k
      have hd := hdigits d (List.mem_append_right _ List.mem_cons_self)
      have ha := hname d (by rw [NamePool.numbered, hds]; simp)
      rw [Char.isDigit_iff_toNat] at hd
      rw [isAlpha_iff_toNat] at ha
      simp only [Char.reduceToNat] at hd ha
      omega
  | suffixed _ =>
      exact absurd (hname '_' (by rw [NamePool.suffixed]; simp)) (by decide)

/-! ## Claims -/

/-- What it is for a pool to give a name: the name was free and is the only one that is taken now,
and it is the one wanted, if that was free, or near to it. -/
structure Gives (p : NamePool) (wanted : Text) (r : Text × NamePool) : Prop where
  free : r.1 ∉ p.taken
  taken : r.2.taken = p.taken ++ [r.1]
  near : Near wanted r.1
  kept : wanted ∉ p.taken → r.1 = wanted

/-- With the name that is given, what is taken is still what is reserved or in use. -/
theorem Gives.mem_taken_iff {wanted : Text} {r : Text × NamePool} (h : p.Gives wanted r)
    {reserved used : List Text} (htaken : ∀ n, n ∈ p.taken ↔ n ∈ reserved ∨ n ∈ used) (n : Text) :
    n ∈ r.2.taken ↔ n ∈ reserved ∨ n ∈ used ++ [r.1] := by
  rw [h.taken, List.mem_append, htaken, List.mem_append, or_assoc]

theorem gives_take {wanted : Text} (h : name ∉ p.taken) (hnear : Near wanted name)
    (hkept : wanted ∉ p.taken → name = wanted) : p.Gives wanted (name, p.take name) :=
  ⟨h, taken_take h, hnear, hkept⟩

theorem gives_claimNumbered (h : name ∈ p.taken) : p.Gives name (p.claimNumbered name) :=
  gives_take (leastFree_spec name p).2.2.1 (.numbered _) fun hfree => absurd h hfree

theorem gives_claim (name : Text) (p : NamePool) : p.Gives name (p.claim name) := by
  unfold claim
  split
  · next h => exact gives_claimNumbered (isTaken_iff.mp h)
  · next h => exact gives_take (fun hmem => h (isTaken_iff.mpr hmem)) .self fun _ => rfl

/-- The suffix of a module has only letters and digits. -/
theorem isAlphanum_of_mem_moduleSuffix {suffix : Text} (h : moduleSuffix? limit module = some suffix)
    {c : Char} (hc : c ∈ suffix) : c.isAlphanum = true := by
  simp only [moduleSuffix?] at h
  split at h
  · exact absurd h (by simp)
  · split at h
    · exact absurd h (by simp)
    · rw [← Option.some.inj h] at hc
      obtain ⟨d, hd, rfl⟩ := List.mem_map.mp (List.mem_of_mem_take hc)
      exact isAlphanum_toLower (List.mem_filter.mp hd).2

theorem gives_claimSuffixed (limit : Nat) (module name : Text) (p : NamePool) :
    p.Gives name (p.claimSuffixed limit module name) := by
  unfold claimSuffixed
  split
  · next htaken =>
      have hmem := isTaken_iff.mp htaken
      split
      · exact gives_claimNumbered hmem
      · next suffix hsuffix =>
          split
          · exact gives_claimNumbered hmem
          · next hfree =>
              refine gives_take (fun h => hfree (isTaken_iff.mpr h)) (.suffixed ?_)
                fun h => absurd hmem h
              intro c hc
              exact isAlphanum_of_mem_moduleSuffix hsuffix hc
  · next h => exact gives_take (fun hmem => h (isTaken_iff.mpr hmem)) .self fun _ => rfl

end NamePool

/-- **Every binding is given a name** near its own. -/
theorem Consolidation.gives_giveName (limit : Nat) (module : Text) (b : Binding) (p : NamePool) :
    p.Gives b.localName (giveName limit module b p) := by
  unfold giveName
  cases b.kind with
  | «default» => exact NamePool.gives_claimSuffixed limit module _ p
  | named => exact NamePool.gives_claim _ p
  | «namespace» => exact NamePool.gives_claim _ p

end ScriptSurvey
