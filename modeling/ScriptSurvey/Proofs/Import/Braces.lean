import ScriptSurvey.Proofs.Import.Comments
import ScriptSurvey.Proofs.Lexical.ByOffset

/-!
# Braces that are counted

The search for the `from` of a declaration gives up at a brace in braces, and at one that closes none. A
search that counts braces instead goes on there, and may find a `from` further on: as soon as as many
braces are closed as are opened, be they in order or not.

That makes no difference, since a clause with such a brace is not read. Each brace that closes ends a
block, so that there are as many of these as there are blocks, and a brace in a block is one too many to
be closed. A clause that is read has as many braces of each kind only if no brace stands out of order.
The count may be kept in a word of 32 bits as well: fewer than `2 ^ 32` braces that do not cancel out do
not wrap around to zero.
-/

namespace ScriptSurvey

open ByOffset

namespace ScriptImport

open Cursor Run

/-! ## The search -/

/-- What a run is to the search. -/
inductive Role where
  | comment
  | literal
  | opening
  | closing
  | ending
  | other

def role : Run → Role
  | .comment _ _ => .comment
  | .literal _ _ => .literal
  | .code '\x7b' => .opening
  | .code '\x7d' => .closing
  | .code ';' => .ending
  | .code '=' => .ending
  | .code '(' => .ending
  | .code ')' => .ending
  | .code _ => .other

/-- The verdict on a run with a count of the braces that are open, which is kept in a word. -/
def countedVerdict (braces : Int) (atStart isKeyword isFrom : Bool) : Role → Verdict Int
  | .comment => .pass braces
  | .literal => if 0 < braces then .pass braces else .fail
  | .opening => .pass (int32 (braces + 1))
  | .closing => .pass (int32 (braces - 1))
  | .ending => .fail
  | .other =>
    if braces ≠ 0 then .pass braces
    else if isKeyword then .fail
    else if !atStart && isFrom then .stop
    else .pass braces

/-- The runs from the cursor up to the `from` that ends the clause, and the cursor at the string behind
it, found by a count of braces. -/
def countedUpToFrom (braces : Int) (atStart : Bool) (c : Cursor) : Option (List Run × Cursor) :=
  match _h : c.rest with
  | [] => none
  | d :: t =>
    match countedVerdict braces atStart (c.atKeyword keyword) (atFrom c) (role (Step.first d t).run) with
    | .pass behind => (countedUpToFrom behind false (c.past (Step.first d t))).map
        fun p => ((Step.first d t).run :: p.1, p.2)
    | .stop => some ([], (c.forward fromWord.text.length).skipTrivia)
    | .fail => none
termination_by c.rest.length
decreasing_by
  have := Step.first_rest_length_le d t
  simp only [Cursor.past, _h, List.length_cons]
  omega

variable {b a : Bool} {braces : Int} {c q : Cursor} {t : Text} {x : Role} {r : Run} {rs cl : List Run}

theorem countedUpToFrom_of_cons {x : Char} (h : c.rest = x :: t) :
    countedUpToFrom braces a c =
      match countedVerdict braces a (c.atKeyword keyword) (atFrom c) (role (Step.first x t).run) with
      | .pass behind => (countedUpToFrom behind false (c.past (Step.first x t))).map
          fun p => ((Step.first x t).run :: p.1, p.2)
      | .stop => some ([], (c.forward fromWord.text.length).skipTrivia)
      | .fail => none := by
  rw [countedUpToFrom]
  split
  · next h' => exact absurd (h.symm.trans h') (by simp)
  · next h' =>
      obtain ⟨rfl, rfl⟩ := List.cons.inj (h.symm.trans h')
      rfl

/-! ## Braces in order -/

/-- What a run adds to the number of braces that are open. -/
def braceDelta : Role → Int
  | .opening => 1
  | .closing => -1
  | _ => 0

/-- Whether the runs are inside of a block behind a run. -/
def inBlockBehind (inBlock : Bool) : Role → Bool
  | .opening => true
  | .closing => false
  | _ => inBlock

/-- The brace that is out of order: inside of a block one that opens, and outside one that closes. -/
def stray (inBlock : Bool) : Role :=
  if inBlock then .opening else .closing

/-- Whether no brace is out of order, and each block is closed. -/
def InOrder (inBlock : Bool) : List Run → Prop
  | [] => inBlock = false
  | r :: rs => role r ≠ stray inBlock ∧ InOrder (inBlockBehind inBlock (role r)) rs

/-- Whether each brace that closes ends a block, and each block is closed. There may be more braces that
open in a block. -/
def ClosesBlocks (inBlock : Bool) : List Run → Prop
  | [] => inBlock = false
  | r :: rs => (role r = .closing → inBlock = true) ∧ ClosesBlocks (inBlockBehind inBlock (role r)) rs

theorem role_eq_opening_iff : role r = .opening ↔ r = .code '\x7b' := by
  refine ⟨fun h => ?_, fun h => h ▸ rfl⟩
  unfold role at h
  split at h <;> first | rfl | cases h

theorem role_eq_closing_iff : role r = .closing ↔ r = .code '\x7d' := by
  refine ⟨fun h => ?_, fun h => h ▸ rfl⟩
  unfold role at h
  split at h <;> first | rfl | cases h

/-- The number of braces that open less that of those that close. -/
def braceSum : List Run → Int
  | [] => 0
  | r :: rs => braceDelta (role r) + braceSum rs

/-- **As many braces of each kind** are in order, if each one that closes ends a block. -/
theorem inOrder_of_closesBlocks (h : ClosesBlocks b rs) :
    0 ≤ (b.toNat : Int) + braceSum rs ∧ ((b.toNat : Int) + braceSum rs = 0 → InOrder b rs) := by
  induction rs generalizing b with
  | nil =>
      obtain rfl : b = false := h
      exact ⟨Int.le_refl 0, fun _ => rfl⟩
  | cons r rs ih =>
      obtain ⟨hcloses, hrest⟩ := h
      obtain ⟨hle, hzero⟩ := ih hrest
      rw [braceSum, InOrder]
      generalize role r = x at hcloses hle hzero ⊢
      cases x with
      | opening =>
          -- it may be in a block, but then the sum stays above zero
          simp only [inBlockBehind, braceDelta, Bool.toNat_true] at hle hzero ⊢
          cases b with
          | true =>
              simp only [Bool.toNat_true]
              exact ⟨by omega, fun hsum => by omega⟩
          | false =>
              simp only [Bool.toNat_false]
              exact ⟨by omega, fun hsum => ⟨nofun, hzero (by omega)⟩⟩
      | closing =>
          obtain rfl := hcloses rfl
          simp only [inBlockBehind, braceDelta, Bool.toNat_true, Bool.toNat_false] at hle hzero ⊢
          exact ⟨by omega, fun hsum => ⟨nofun, hzero (by omega)⟩⟩
      | comment | literal | ending | other =>
          simp only [inBlockBehind, braceDelta, Int.zero_add] at hle hzero ⊢
          exact ⟨hle, fun hsum => ⟨by cases b <;> nofun, hzero hsum⟩⟩

/-! ## The two searches -/

/-- A verdict with another state. -/
def Verdict.map {α β : Type} (f : α → β) : Verdict α → Verdict β
  | .pass behind => .pass (f behind)
  | .stop => .stop
  | .fail => .fail

section Verdicts

variable {isKeyword isFrom : Bool}

theorem verdict_eq (r : Run) : verdict b a isKeyword isFrom r =
    match role r with
    | .comment => .pass b
    | .literal => if b then .pass true else .fail
    | .opening => if b then .fail else .pass true
    | .closing => if b then .pass false else .fail
    | .ending => .fail
    | .other =>
      if b then .pass true
      else if isKeyword then .fail
      else if !a && isFrom then .stop
      else .pass false := by
  unfold verdict role
  split <;> first | rfl | simp_all

theorem verdict_of_stray (h : role r = stray b) : verdict b a isKeyword isFrom r = .fail := by
  rw [verdict_eq, h]
  cases b <;> rfl

/-- Where the braces are in order, the count is one inside of a block and zero outside. -/
theorem countedVerdict_eq (h : role r ≠ stray b) :
    countedVerdict b.toNat a isKeyword isFrom (role r) =
      (verdict b a isKeyword isFrom r).map fun inBlock => (inBlock.toNat : Int) := by
  rw [verdict_eq]
  generalize role r = x at h ⊢
  cases x with
  | comment | ending => rfl
  | literal => cases b <;> rfl
  | opening =>
      obtain rfl : b = false := Bool.eq_false_iff.mpr fun hb => h (by rw [hb]; rfl)
      exact congrArg Verdict.pass (by decide)
  | closing =>
      obtain rfl : b = true := Bool.ne_false_iff.mp fun hb => h (by rw [hb]; rfl)
      exact congrArg Verdict.pass (by decide)
  | other =>
      cases b with
      | true => rfl
      | false => cases isKeyword <;> cases a <;> cases isFrom <;> rfl

theorem inBlockBehind_of_pass {b' : Bool} (h : verdict b a isKeyword isFrom r = .pass b') :
    b' = inBlockBehind b (role r) := by
  rw [verdict_eq] at h
  generalize role r = x at h ⊢
  cases x with
  | comment => exact (Verdict.pass.inj h).symm
  | ending => exact nomatch h
  | literal | opening | closing =>
      cases b <;> first | exact (Verdict.pass.inj h).symm | exact nomatch h
  | other =>
      cases b with
      | true => exact (Verdict.pass.inj h).symm
      | false =>
          simp only [Bool.false_eq_true, if_false] at h
          split at h
          · exact nomatch h
          split at h
          · exact nomatch h
          · exact (Verdict.pass.inj h).symm

/-- The count behind a run that is passed is the one in front with what the run adds. -/
theorem count_of_pass {behind : Int} (hkept : int32 braces = braces)
    (h : countedVerdict braces a isKeyword isFrom x = .pass behind) :
    behind = int32 (braces + braceDelta x) := by
  have hstill (hsame : braces = behind) : behind = int32 (braces + 0) := by
    rw [Int.add_zero, hkept, hsame]
  cases x with
  | comment => exact hstill (Verdict.pass.inj h)
  | literal =>
      rw [countedVerdict] at h
      split at h
      · exact hstill (Verdict.pass.inj h)
      · exact nomatch h
  | opening | closing => exact (Verdict.pass.inj h).symm
  | ending => exact nomatch h
  | other =>
      rw [countedVerdict] at h
      split at h
      · exact hstill (Verdict.pass.inj h)
      split at h
      · exact nomatch h
      split at h
      · exact nomatch h
      · exact hstill (Verdict.pass.inj h)

/-- The search stops outside of braces only. -/
theorem eq_zero_of_stop (h : countedVerdict braces a isKeyword isFrom x = .stop) : braces = 0 := by
  cases x with
  | comment | opening | closing | ending => exact nomatch h
  | literal =>
      rw [countedVerdict] at h
      split at h <;> exact nomatch h
  | other =>
      rw [countedVerdict] at h
      by_contra hbraces
      rw [if_pos hbraces] at h
      exact nomatch h

end Verdicts

/-- **What is found without counting** is found by the count. -/
theorem countedUpToFrom_of_some (h : clauseUpToFrom b a c = some (cl, q)) :
    countedUpToFrom b.toNat a c = some (cl, q) := by
  induction hn : c.rest.length using Nat.strongRecOn generalizing b a c cl with
  | ind n ih =>
      subst hn
      cases hrest : c.rest with
      | nil =>
          rw [clauseUpToFrom_of_nil hrest] at h
          exact absurd h (by simp)
      | cons x t =>
          have hlt := (reaches_past hrest).length_rest_lt (List.cons_ne_nil _ _)
          have horder : role (Step.first x t).run ≠ stray b := by
            intro hstray
            rw [clauseUpToFrom_of_cons hrest, verdict_of_stray hstray] at h
            exact absurd h (by simp)
          rw [clauseUpToFrom_of_cons hrest] at h
          rw [countedUpToFrom_of_cons hrest, countedVerdict_eq horder]
          cases hverdict : verdict b a (c.atKeyword keyword) (atFrom c) (Step.first x t).run with
          | pass b' =>
              rw [hverdict] at h
              obtain ⟨p, hp, hcons⟩ := Option.map_eq_some_iff.mp h
              obtain ⟨rfl, rfl⟩ := Prod.mk.inj hcons
              show (countedUpToFrom b'.toNat false _).map _ = _
              rw [ih _ hlt hp rfl]
              rfl
          | stop =>
              rw [hverdict] at h
              exact h
          | fail =>
              rw [hverdict] at h
              exact absurd h (by simp)

/-- **What the count finds behind braces in order** is found without counting. -/
theorem clauseUpToFrom_of_inOrder (h : countedUpToFrom b.toNat a c = some (cl, q)) (hcl : InOrder b cl) :
    clauseUpToFrom b a c = some (cl, q) := by
  generalize hbraces : (b.toNat : Int) = braces at h
  fun_induction countedUpToFrom braces a c generalizing b cl with
  | case1 => exact absurd h (by simp)
  | case2 braces a c y t hrest behind hpass ih =>
      obtain ⟨p, hp, hcons⟩ := Option.map_eq_some_iff.mp h
      obtain ⟨rfl, rfl⟩ := Prod.mk.inj hcons
      obtain ⟨hne, hbehind⟩ := hcl
      rw [← hbraces, countedVerdict_eq hne] at hpass
      rw [clauseUpToFrom_of_cons hrest]
      cases hverdict : verdict b a (c.atKeyword keyword) (atFrom c) (Step.first y t).run with
      | pass b' =>
          rw [hverdict] at hpass
          rw [← inBlockBehind_of_pass hverdict] at hbehind
          show (clauseUpToFrom b' false _).map _ = _
          rw [ih hbehind (Verdict.pass.inj hpass) hp]
          rfl
      | stop => exact absurd (hverdict ▸ hpass) (by simp [Verdict.map])
      | fail => exact absurd (hverdict ▸ hpass) (by simp [Verdict.map])
  | case3 braces a c y t hrest hstop =>
      obtain ⟨rfl, rfl⟩ := Prod.mk.inj (Option.some.inj h)
      -- the count is zero, so the search without one stops here as well
      obtain rfl : b = false := hcl
      have hne : role (Step.first y t).run ≠ stray false := by
        intro hstray
        rw [hstray] at hstop
        exact nomatch hstop
      rw [← hbraces, countedVerdict_eq hne] at hstop
      rw [clauseUpToFrom_of_cons hrest]
      cases hverdict : verdict false a (c.atKeyword keyword) (atFrom c) (Step.first y t).run with
      | pass b' => exact absurd (hverdict ▸ hstop) (by simp [Verdict.map])
      | stop => rfl
      | fail => exact absurd (hverdict ▸ hstop) (by simp [Verdict.map])
  | case4 => exact absurd h (by simp)

/-! ## The count -/

theorem int32_add (m n : Int) : int32 (int32 m + n) = int32 (m + n) := by
  rw [int32, int32, int32, Int32.toInt_ofInt, Int32.toInt_ofInt, Int32.toInt_ofInt, Int.bmod_add_bmod]

theorem int32_int32 (n : Int) : int32 (int32 n) = int32 n := by
  have h := int32_add n 0
  rwa [Int.add_zero, Int.add_zero] at h

/-- Fewer than `2 ^ 32` do not wrap around to zero. -/
theorem eq_zero_of_int32 {n : Int} (h : int32 n = 0) (hlow : -2 ^ 32 < n) (hhigh : n < 2 ^ 32) : n = 0 := by
  rw [int32, Int32.toInt_ofInt] at h
  have hdvd := Int.dvd_of_bmod_eq_zero h
  have hsize : ((Int32.size : Nat) : Int) = 2 ^ 32 := rfl
  rw [hsize] at hdvd
  omega

/-- Where the search stops, the braces in front cancel out, up to what a word does not hold. -/
theorem int32_braceSum_eq_zero (hkept : int32 braces = braces)
    (h : countedUpToFrom braces a c = some (cl, q)) : int32 (braces + braceSum cl) = 0 := by
  fun_induction countedUpToFrom braces a c generalizing cl with
  | case1 => exact absurd h (by simp)
  | case2 braces a c y t hrest behind hpass ih =>
      obtain ⟨p, hp, hcons⟩ := Option.map_eq_some_iff.mp h
      obtain ⟨rfl, rfl⟩ := Prod.mk.inj hcons
      have hbehind := count_of_pass hkept hpass
      have hsum := ih (by rw [hbehind, int32_int32]) hp
      rwa [hbehind, int32_add, Int.add_assoc, ← braceSum] at hsum
  | case3 braces a c y t hrest hstop =>
      obtain ⟨rfl, rfl⟩ := Prod.mk.inj (Option.some.inj h)
      rw [eq_zero_of_stop hstop]
      decide
  | case4 => exact absurd h (by simp)

/-- What is found are runs ahead. -/
theorem isPrefix_countedUpToFrom (h : countedUpToFrom braces a c = some (cl, q)) : cl <+: runs c.rest := by
  fun_induction countedUpToFrom braces a c generalizing cl with
  | case1 => exact absurd h (by simp)
  | case2 braces a c y t hrest behind hpass ih =>
      obtain ⟨p, hp, hcons⟩ := Option.map_eq_some_iff.mp h
      obtain ⟨rfl, rfl⟩ := Prod.mk.inj hcons
      rw [hrest, runs_cons]
      exact (List.prefix_cons_inj _).mpr (ih hp)
  | case3 =>
      obtain ⟨rfl, rfl⟩ := Prod.mk.inj (Option.some.inj h)
      exact List.nil_prefix
  | case4 => exact absurd h (by simp)

/-- Each brace takes a byte. -/
theorem braceSum_bounds (rs : List Run) :
    -(Text.size (join rs) : Int) ≤ braceSum rs ∧ braceSum rs ≤ Text.size (join rs) := by
  induction rs with
  | nil => exact ⟨Int.le_refl 0, Int.le_refl 0⟩
  | cons r rs ih =>
      have hone : -(Text.size r.text : Int) ≤ braceDelta (role r) ∧
          braceDelta (role r) ≤ Text.size r.text := by
        unfold braceDelta
        split
        · next hopening =>
            rw [role_eq_opening_iff.mp hopening]
            decide
        · next hclosing =>
            rw [role_eq_closing_iff.mp hclosing]
            decide
        · omega
      rw [braceSum, join_cons, Text.size_append]
      omega

/-! ## Clauses that are read -/

/-- Text in which no comment and no string begins, and no brace. -/
def Braceless (s : Text) : Prop :=
  ∀ x ∈ s, Text.isPlain x = true ∧ x ≠ '\x7b' ∧ x ≠ '\x7d'

theorem braceless_of_isBlanks {g : Text} (h : Text.IsBlanks g) : Braceless g := by
  intro x hx
  exact ⟨Text.isPlain_of_isBlank (h x hx),
    Text.of_isBlank (P := fun x => x ≠ '\x7b' ∧ x ≠ '\x7d') (by decide) (h x hx)⟩

theorem braceless_of_isIdentifierPart {s : Text} (h : ∀ x ∈ s, Text.isIdentifierPart x = true) :
    Braceless s := by
  intro x hx
  exact ⟨Text.isPlain_of_isIdentifierPart (h x hx), Text.ne_of_isIdentifierPart (h x hx) rfl,
    Text.ne_of_isIdentifierPart (h x hx) rfl⟩

theorem Braceless.append {s s' : Text} (h : Braceless s) (h' : Braceless s') : Braceless (s ++ s') := by
  intro x hx
  rcases List.mem_append.mp hx with hx | hx
  · exact h x hx
  · exact h' x hx

theorem closesBlocks_cons_iff (h : r ≠ .code '\x7b') (h' : r ≠ .code '\x7d') :
    ClosesBlocks b (r :: rs) ↔ ClosesBlocks b rs := by
  have hstill : inBlockBehind b (role r) = b := by
    unfold inBlockBehind
    split
    · next hopening => exact absurd (role_eq_opening_iff.mp hopening) h
    · next hclosing => exact absurd (role_eq_closing_iff.mp hclosing) h'
    · rfl
  rw [ClosesBlocks, hstill]
  exact and_iff_right fun hclosing => absurd (role_eq_closing_iff.mp hclosing) h'

theorem closesBlocks_append_iff {p : List Run} (h : ∀ r ∈ p, r ≠ .code '\x7b' ∧ r ≠ .code '\x7d') :
    ClosesBlocks b (p ++ rs) ↔ ClosesBlocks b rs := by
  induction p with
  | nil => rfl
  | cons r p ih =>
      obtain ⟨hr, hp⟩ := List.forall_mem_cons.mp h
      exact (closesBlocks_cons_iff hr.1 hr.2).trans (ih hp)

/-- Runs behind others make no difference if no brace is among them. -/
theorem closesBlocks_append_right_iff {p : List Run}
    (h : ∀ r ∈ rs, r ≠ .code '\x7b' ∧ r ≠ .code '\x7d') :
    ClosesBlocks b (p ++ rs) ↔ ClosesBlocks b p := by
  induction p generalizing b with
  | nil =>
      have hnil : ClosesBlocks b (rs ++ []) ↔ ClosesBlocks b [] := closesBlocks_append_iff h
      rwa [List.append_nil] at hnil
  | cons r p ih => exact and_congr_right fun _ => ih

theorem closesBlocks_runs_append_iff {s : Text} (h : Braceless s) (t : Text) :
    ClosesBlocks b (runs (s ++ t)) ↔ ClosesBlocks b (runs t) := by
  rw [Text.runs_append_of_isPlain fun x hx => (h x hx).1]
  refine closesBlocks_append_iff fun r hr => ?_
  obtain ⟨x, hx, rfl⟩ := List.mem_map.mp hr
  exact ⟨fun he => (h x hx).2.1 (Run.code.inj he), fun he => (h x hx).2.2 (Run.code.inj he)⟩

theorem closesBlocks_runs_trimStart_iff (t : Text) :
    ClosesBlocks b (runs t) ↔ ClosesBlocks b (runs (Text.trimStart t)) := by
  obtain ⟨g, hg, ht⟩ := Text.exists_eq_append_trimStart t
  conv => lhs; rw [ht]
  exact closesBlocks_runs_append_iff (braceless_of_isBlanks hg) _

/-- In a block, everything up to a brace that closes. -/
theorem closesBlocks_true_append_iff {p : List Run} (h : Run.code '\x7d' ∉ p) :
    ClosesBlocks true (p ++ .code '\x7d' :: rs) ↔ ClosesBlocks false rs := by
  induction p with
  | nil => exact and_iff_right fun _ => rfl
  | cons r p ih =>
      rw [List.mem_cons, not_or] at h
      have hinside : inBlockBehind true (role r) = true := by
        unfold inBlockBehind
        split
        · rfl
        · next hclosing => exact absurd (role_eq_closing_iff.mp hclosing).symm h.1
        · rfl
      rw [List.cons_append, ClosesBlocks, hinside, ih h.2]
      exact and_iff_right fun _ => rfl

theorem exists_eq_append_of_takeIdentifier? {t name rest : Text}
    (h : Text.takeIdentifier? t = some (name, rest)) : Braceless name ∧ t = name ++ rest := by
  rw [Text.takeIdentifier?] at h
  split at h
  · obtain ⟨rfl, rfl⟩ := Prod.mk.inj (Option.some.inj h)
    exact ⟨braceless_of_isIdentifierPart fun x hx => List.mem_takeWhile_imp hx,
      List.takeWhile_append_dropWhile.symm⟩
  · exact absurd h (by simp)

theorem exists_eq_append_of_afterAs? {t after : Text} (h : afterAs? t = some after) :
    ∃ s, Braceless s ∧ t = s ++ after := by
  obtain ⟨g, hg, ht⟩ := Text.exists_eq_append_trimStart t
  unfold afterAs? at h
  split at h
  · next x behind hprefix =>
      split at h
      · next hx =>
          obtain ⟨g', hg', hbehind⟩ := Text.exists_eq_append_trimStart behind
          obtain rfl := Option.some.inj h
          have has : Braceless ['a', 's'] := by
            unfold Braceless
            decide
          have hblank : Text.IsBlanks (x :: g') := List.forall_mem_cons.mpr ⟨hx, hg'⟩
          refine ⟨g ++ (['a', 's'] ++ (x :: g')),
            (braceless_of_isBlanks hg).append (has.append (braceless_of_isBlanks hblank)), ?_⟩
          have hsplit := List.append_eq_of_isPrefixOf?_eq_some hprefix
          rw [ht, ← hsplit]
          conv => lhs; rw [hbehind]
          simp
      · exact absurd h (by simp)
  · exact absurd h (by simp)

/-- An item closes the block that it opens, if it is one. -/
theorem closesBlocks_readItem_iff {typeOnly : Bool} {t rest : Text} {bs : List Binding}
    (h : readItem typeOnly t = some (bs, rest)) :
    ClosesBlocks false (runs t) ↔ ClosesBlocks false (runs rest) := by
  unfold readItem at h
  split at h
  · next u =>
      obtain ⟨p, hcut, hp⟩ := Option.map_eq_some_iff.mp h
      obtain ⟨-, rfl⟩ := Prod.mk.inj hp
      obtain ⟨⟨inside, behind⟩, hruns, rfl⟩ := Option.map_eq_some_iff.mp hcut
      have heq := eq_of_cutAtChar hruns
      have hstable := Run.stable_runs u
      rw [heq] at hstable
      have hbehind : runs (join behind) = behind :=
        (hstable.of_append_right (p := inside)).of_append_right (p := [.code '\x7d'])
      rw [Text.runs_cons_of_isPlain (by decide), heq, hbehind]
      exact (and_iff_right nofun).trans
        (closesBlocks_true_append_iff (not_mem_of_cutAtChar hruns))
  · next u =>
      obtain ⟨⟨name, behind⟩, hbind, hp⟩ := Option.map_eq_some_iff.mp h
      obtain ⟨-, rfl⟩ := Prod.mk.inj hp
      obtain ⟨after, hafter, hname⟩ := Option.bind_eq_some_iff.mp hbind
      obtain ⟨s, hs, rfl⟩ := exists_eq_append_of_afterAs? hafter
      obtain ⟨hnamed, rfl⟩ := exists_eq_append_of_takeIdentifier? hname
      have hstar : Braceless ['*'] := by
        unfold Braceless
        decide
      rw [← List.singleton_append, closesBlocks_runs_append_iff hstar, closesBlocks_runs_append_iff hs,
        closesBlocks_runs_append_iff hnamed]
  · obtain ⟨⟨name, behind⟩, hname, hp⟩ := Option.map_eq_some_iff.mp h
    obtain ⟨-, rfl⟩ := Prod.mk.inj hp
    obtain ⟨hnamed, rfl⟩ := exists_eq_append_of_takeIdentifier? hname
    exact closesBlocks_runs_append_iff hnamed _

/-- **Items that are read** close their blocks, and no other brace closes in them. -/
theorem closesBlocks_readItems {typeOnly : Bool} {t : Text} {bs : List Binding}
    (h : readItems typeOnly t = some bs) : ClosesBlocks false (runs t) := by
  -- by the length of the text, which every item makes shorter
  induction hn : t.length using Nat.strongRecOn generalizing t bs with
  | ind n ih =>
      subst hn
      rw [readItems] at h
      split at h
      · exact absurd h (by simp)
      · next front rest hitem =>
          rw [closesBlocks_readItem_iff hitem, closesBlocks_runs_trimStart_iff]
          split at h
          · next htrim =>
              rw [htrim, runs_nil]
              rfl
          · next x more htrim =>
              split at h
              · next hcomma =>
                  subst hcomma
                  obtain ⟨back, hback, -⟩ := Option.map_eq_some_iff.mp h
                  have hcomma : Braceless [','] := by
                    unfold Braceless
                    decide
                  rw [htrim, ← List.singleton_append, closesBlocks_runs_append_iff hcomma,
                    closesBlocks_runs_trimStart_iff]
                  refine ih _ ?_ hback rfl
                  have h1 := length_readItem hitem
                  have h2 := (List.dropWhile_sublist Text.isBlank (l := rest)).length_le
                  have h3 := (List.dropWhile_sublist Text.isBlank (l := more)).length_le
                  simp only [Text.trimStart] at htrim ⊢
                  rw [htrim, List.length_cons] at h2
                  omega
              · exact absurd h (by simp)

theorem ne_brace_of_stays (h : ∀ e, r.shift e = .stays) : r ≠ .code '\x7b' ∧ r ≠ .code '\x7d' := by
  constructor
  · rintro rfl
    exact absurd (h false) (by decide)
  · rintro rfl
    exact absurd (h false) (by decide)

theorem closesBlocks_runs_trim_iff (t : Text) :
    ClosesBlocks b (runs (Text.trim t)) ↔ ClosesBlocks b (runs t) := by
  obtain ⟨g, hg, htrim⟩ := Text.exists_eq_append_trimEnd (Text.trimStart t)
  have hjoin : join (runs (Text.trimStart t)) = Text.trim t ++ g := (join_runs _).trans htrim
  obtain ⟨p, q, back, htrimmed, hruns, hstays⟩ := exists_runs_of_append_blanks (stable_runs _) hjoin hg
  rw [closesBlocks_runs_trimStart_iff t, htrimmed, hruns,
    closesBlocks_append_right_iff fun r hr => ne_brace_of_stays (hstays r (List.mem_append_left _ hr)),
    closesBlocks_append_right_iff fun r hr => ne_brace_of_stays (hstays r (List.mem_append_right _ hr))]

theorem exists_eq_append_of_afterTypeMarker? {clause marked : Text}
    (h : afterTypeMarker? clause = some marked) : ∃ s, Braceless s ∧ clause = s ++ marked := by
  unfold afterTypeMarker? at h
  split at h
  · exact absurd h (by simp)
  · next after hprefix =>
      split at h
      · exact absurd h (by simp)
      · next x rest htrim =>
          split at h
          · obtain rfl := Option.some.inj h
            obtain ⟨g, hg, hafter⟩ := Text.exists_eq_append_trimStart after
            have htype : Braceless "type".toList := by
              unfold Braceless
              decide
            refine ⟨_, htype.append (braceless_of_isBlanks hg), ?_⟩
            rw [← List.append_eq_of_isPrefixOf?_eq_some hprefix, List.append_assoc, ← htrim, ← hafter]
          · exact absurd h (by simp)

/-- **A clause that is read** closes its blocks, and no other brace closes in it. -/
theorem closesBlocks_of_readClause {clause : Text} {bs : List Binding} (h : readClause clause = some bs) :
    ClosesBlocks false (runs clause) := by
  rw [← closesBlocks_runs_trim_iff]
  rw [readClause] at h
  split at h
  · next marked hmarked =>
      obtain ⟨s, hs, htrim⟩ := exists_eq_append_of_afterTypeMarker? hmarked
      rw [htrim, closesBlocks_runs_append_iff hs]
      exact closesBlocks_readItems h
  · exact closesBlocks_readItems h

theorem closesBlocks_map_blankComment_iff :
    ClosesBlocks b (rs.map Run.blankComment) ↔ ClosesBlocks b rs := by
  induction rs generalizing b with
  | nil => rfl
  | cons r rs ih =>
      rw [List.map_cons, ClosesBlocks, ClosesBlocks, ih]
      cases r with
      | comment kind x => exact and_congr_left fun _ => iff_of_true nofun nofun
      | literal kind x => rfl
      | code x => rfl

/-! ## The two readers -/

/-- **Where the clause is read,** the count finds it only if its braces are in order. -/
theorem clauseUpToFrom_of_counted {bs : List Binding} (hsize : Text.size c.rest < 2 ^ 32)
    (h : countedUpToFrom 0 a c = some (cl, q))
    (hread : readClause (join (cl.map Run.blankComment)) = some bs) :
    clauseUpToFrom false a c = some (cl, q) := by
  refine clauseUpToFrom_of_inOrder h ?_
  have hahead := isPrefix_countedUpToFrom h
  have hstable : Stable (cl.map Run.blankComment) := by
    have hstripped := stable_runs (stripComments c.rest)
    rw [runs_stripComments] at hstripped
    exact hstripped.of_isInfix (hahead.map _).isInfix
  have hclosed := closesBlocks_of_readClause hread
  rw [hstable, closesBlocks_map_blankComment_iff] at hclosed
  refine (inOrder_of_closesBlocks hclosed).2 ?_
  -- there is no room for as many braces as would wrap around
  have hroom : Text.size (join cl) < 2 ^ 32 := by
    obtain ⟨rs, hruns⟩ := hahead
    have hjoin := congrArg (fun rs => Text.size (join rs)) hruns
    simp only [join_append, Text.size_append, join_runs] at hjoin
    omega
  have hbounds := braceSum_bounds cl
  have hzero := int32_braceSum_eq_zero (by decide) h
  rw [Int.zero_add] at hzero
  rw [eq_zero_of_int32 hzero (by omega) (by omega)]
  rfl

/-- The declaration whose keyword is under the cursor, with its clause found by a count of braces. -/
def countedDeclarationAt? (c : Cursor) : Option Declaration :=
  let first := (c.forward keyword.length).skipTrivia
  if first.rest = [] then none
  else if atQuote first = true then declarationUpTo c first (some []) false
  else if first.rest.head? = some '(' ∨ first.rest.head? = some '.' then none
  else (countedUpToFrom 0 true first).bind fun p =>
    declarationUpTo c p.2 (readClause (join (p.1.map Run.blankComment))) true

/-- **A count of braces makes no difference** to what is read, in a text of less than `2 ^ 32` bytes: where
it finds a `from` that the search does not find, no clause is read. -/
theorem declarationAt?_eq_counted (hsize : Text.size c.rest < 2 ^ 32) :
    declarationAt? c = countedDeclarationAt? c := by
  rw [declarationAt?_eq rfl, countedDeclarationAt?]
  have hahead : Text.size (c.forward keyword.length).skipTrivia.rest < 2 ^ 32 :=
    Nat.lt_of_le_of_lt ((isAhead_forward _ c).trans (reaches_skipTrivia _).isAhead).size_rest_le hsize
  generalize (c.forward keyword.length).skipTrivia = first at hahead ⊢
  split
  · rfl
  split
  · rfl
  split
  · rfl
  cases hfound : clauseUpToFrom false true first with
  | some p =>
      rw [show countedUpToFrom 0 true first = some p from countedUpToFrom_of_some hfound]
  | none =>
      cases hcounted : countedUpToFrom 0 true first with
      | none => rfl
      | some p =>
          cases hread : readClause (join (p.1.map Run.blankComment)) with
          | none => simp [declarationUpTo, hread]
          | some bs =>
              rw [clauseUpToFrom_of_counted hahead hcounted hread] at hfound
              exact absurd hfound (by simp)

end ScriptImport

end ScriptSurvey
