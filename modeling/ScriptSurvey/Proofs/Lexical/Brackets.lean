import ScriptSurvey.Proofs.Lexical.Cuts
import ScriptSurvey.Proofs.Lexical.Pieces

/-!
# Brackets by kind

Round, square and curly brackets nest by kind: each closing bracket closes the innermost open one,
and that is of its own kind. A walk with the stack of open brackets decides it. `<` and `>` are no
brackets here, and neither is anything in strings and comments.

Two lists of runs have the **same brackets** if the walk over the one does what the walk over the
other does, wherever it starts. A part that the walk leaves as it came is **whole**, and that it
leaves the empty stack as it came is enough for it.
-/

namespace ScriptSurvey

open Run

/-- The brackets that nest by kind. -/
inductive Bracket where
  | round
  | square
  | curly
deriving DecidableEq, Repr

namespace Bracket

/-- The bracket that the run opens. -/
def opened? : Run → Option Bracket
  | code '(' => some round
  | code '[' => some square
  | code '{' => some curly
  | _ => none

/-- The bracket that the run closes. -/
def closed? : Run → Option Bracket
  | code ')' => some round
  | code ']' => some square
  | code '}' => some curly
  | _ => none

/-- The open brackets behind a run, the innermost first; `none` when it closes a bracket that is not
the innermost. -/
def step (open_ : List Bracket) (r : Run) : Option (List Bracket) :=
  match opened? r, closed? r, open_ with
  | some b, _, _ => some (b :: open_)
  | none, none, _ => some open_
  | none, some _, [] => none
  | none, some b, a :: rest => if a = b then some rest else none

/-- The open brackets behind some runs. -/
def walk (open_ : List Bracket) : List Run → Option (List Bracket)
  | [] => some open_
  | r :: rs => (step open_ r).bind fun o => walk o rs

theorem walk_append (o : List Bracket) (p q : List Run) :
    walk o (p ++ q) = (walk o p).bind fun o' => walk o' q := by
  induction p generalizing o with
  | nil => rfl
  | cons r p ih =>
      rw [List.cons_append, walk, walk, Option.bind_assoc]
      exact congrArg _ (funext ih)

/-- Brackets further out do not matter to a walk that gets by without them. -/
theorem step_append {o o' : List Bracket} {r : Run} (h : step o r = some o')
    (outer : List Bracket) :
    step (o ++ outer) r = some (o' ++ outer) := by
  unfold step at h ⊢
  split at h
  · next b _ hopen =>
      rw [← Option.some.inj h, hopen]
      rfl
  · next hopen hclose =>
      rw [← Option.some.inj h, hopen, hclose]
  · exact absurd h (by simp)
  · next b a rest hopen hclose =>
      rw [hopen, hclose]
      split at h
      · next hab =>
          rw [← Option.some.inj h]
          exact if_pos hab
      · exact absurd h (by simp)

theorem walk_outer {o o' : List Bracket} {p : List Run} (h : walk o p = some o')
    (outer : List Bracket) : walk (o ++ outer) p = some (o' ++ outer) := by
  induction p generalizing o with
  | nil =>
      rw [← Option.some.inj h]
      rfl
  | cons r p ih =>
      obtain ⟨o'', hstep, hrest⟩ := Option.bind_eq_some_iff.mp h
      rw [walk, step_append hstep, Option.bind_some]
      exact ih hrest

/-- Each closing bracket closes the innermost open one, of its own kind, and none stays open. -/
def Nested (rs : List Run) : Prop :=
  walk [] rs = some []

instance (rs : List Run) : Decidable (Nested rs) :=
  inferInstanceAs (Decidable (walk [] rs = some []))

/-! ## The same brackets -/

/-- Whether a walk goes over both alike, wherever it starts. -/
def Same (p q : List Run) : Prop :=
  ∀ o, walk o p = walk o q

theorem Same.refl (p : List Run) : Same p p := fun _ => rfl

theorem Same.symm {p q : List Run} (h : Same p q) : Same q p := fun o => (h o).symm

theorem Same.trans {p q r : List Run} (h : Same p q) (h' : Same q r) : Same p r :=
  fun o => (h o).trans (h' o)

theorem Same.append {p p' q q' : List Run} (hp : Same p p') (hq : Same q q') :
    Same (p ++ q) (p' ++ q') := by
  intro o
  rw [walk_append, walk_append, hp o]
  exact congrArg _ (funext hq)

theorem Same.cons {p q : List Run} (r : Run) (h : Same p q) : Same (r :: p) (r :: q) :=
  (Same.refl [r]).append h

theorem Same.nested {p q : List Run} (h : Same p q) (hq : Nested q) : Nested p :=
  (h []).trans hq

/-- Whether a walk comes out of the runs as it went in. -/
def Whole (p : List Run) : Prop :=
  ∀ o, walk o p = some o

theorem Nested.whole {p : List Run} (h : Nested p) : Whole p :=
  fun o => walk_outer h o

theorem Whole.nil : Whole [] := fun _ => rfl

theorem Whole.append {p q : List Run} (hp : Whole p) (hq : Whole q) : Whole (p ++ q) := by
  intro o
  rw [walk_append, hp o]
  exact hq o

theorem Whole.same {p q : List Run} (hp : Whole p) (hq : Whole q) : Same p q :=
  fun o => (hp o).trans (hq o).symm

theorem Same.whole {p q : List Run} (h : Same p q) (hq : Whole q) : Whole p :=
  fun o => (h o).trans (hq o)

theorem Whole.same_append_right {p : List Run} (hp : Whole p) (q : List Run) : Same (p ++ q) q := by
  intro o
  rw [walk_append, hp o]
  rfl

theorem Whole.same_append_left {p : List Run} (hp : Whole p) (q : List Run) : Same (q ++ p) q := by
  intro o
  rw [walk_append]
  cases hw : walk o q with
  | none => rfl
  | some o' => exact hp o'

theorem whole_flatten {ps : List (List Run)} (h : ∀ p ∈ ps, Whole p) : Whole ps.flatten := by
  induction ps with
  | nil => exact .nil
  | cons p ps ih =>
      exact (h p List.mem_cons_self).append (ih fun q hq => h q (List.mem_cons_of_mem p hq))

theorem same_flatten {α : Type} {as : List α} {f g : α → List Run}
    (h : ∀ a ∈ as, Same (f a) (g a)) :
    Same (as.map f).flatten (as.map g).flatten := by
  induction as with
  | nil => exact .refl _
  | cons a as ih =>
      exact (h a List.mem_cons_self).append (ih fun b hb => h b (List.mem_cons_of_mem a hb))

/-- A part that makes a whole together with another one of the same brackets is whole itself. -/
theorem whole_of_double {p q : List Run} (h : Whole (p ++ q)) (hs : Same p q) : Whole p := by
  have hempty := h []
  rw [walk_append] at hempty
  obtain ⟨o, hp, hq⟩ := Option.bind_eq_some_iff.mp hempty
  -- the second part opens on the first what the first one opened
  have hagain := walk_outer hp o
  rw [List.nil_append, hs o, hq, Option.some.injEq] at hagain
  have ho : o = [] := (List.append_eq_nil_iff.mp hagain.symm).1
  rw [ho] at hp
  exact Nested.whole hp

/-! ## Runs without brackets -/

/-- The characters that open or close a bracket. -/
def chars : List Char := ['(', ')', '[', ']', '\x7b', '\x7d']

theorem opened?_of_not_mem {r : Run} (h : ∀ c ∈ chars, r ≠ code c) : opened? r = none := by
  unfold opened?
  split
  · exact absurd rfl (h '(' (by decide))
  · exact absurd rfl (h '[' (by decide))
  · exact absurd rfl (h '\x7b' (by decide))
  · rfl

theorem closed?_of_not_mem {r : Run} (h : ∀ c ∈ chars, r ≠ code c) : closed? r = none := by
  unfold closed?
  split
  · exact absurd rfl (h ')' (by decide))
  · exact absurd rfl (h ']' (by decide))
  · exact absurd rfl (h '\x7d' (by decide))
  · rfl

theorem step_of_not_mem {r : Run} (h : ∀ c ∈ chars, r ≠ code c) (o : List Bracket) :
    step o r = some o := by
  unfold step
  rw [opened?_of_not_mem h, closed?_of_not_mem h]

theorem whole_of_forall {p : List Run} (h : ∀ r ∈ p, ∀ c ∈ chars, r ≠ code c) : Whole p := by
  induction p with
  | nil => exact .nil
  | cons r p ih =>
      intro o
      rw [walk, step_of_not_mem (h r List.mem_cons_self)]
      exact ih (fun s hs => h s (List.mem_cons_of_mem r hs)) o

theorem whole_of_isTrivia {p : List Run} (h : ∀ r ∈ p, r.isTrivia = true) : Whole p := by
  have hchars : ∀ c ∈ chars, (code c).isTrivia = false := by decide
  refine whole_of_forall fun r hr c hc he => ?_
  have := h r hr
  rw [he, hchars c hc] at this
  exact Bool.noConfusion this

/-- Runs of a text without brackets. -/
theorem whole_of_join {p : List Run} (h : ∀ c ∈ join p, c ∉ chars) : Whole p := by
  refine whole_of_forall fun r hr c hc he => h c ?_ hc
  rw [he] at hr
  exact List.mem_flatMap.mpr ⟨code c, hr, List.mem_singleton_self c⟩

theorem whole_map_code {t : Text} (h : ∀ c ∈ t, c ∉ chars) : Whole (t.map code) := by
  refine whole_of_join fun c hc => h c ?_
  rw [← join_map_code t]
  exact hc

/-- A whole between two brackets of one kind is whole. -/
theorem Whole.bracketed {o c : Char} (h : (o, c) ∈ bracketPairs) {p : List Run} (hp : Whole p) :
    Whole (code o :: (p ++ [code c])) := by
  intro open_
  simp only [bracketPairs, List.mem_cons, Prod.mk.injEq, List.not_mem_nil, or_false] at h
  rcases h with ⟨rfl, rfl⟩ | ⟨rfl, rfl⟩ | ⟨rfl, rfl⟩ | ⟨rfl, rfl⟩ <;>
    simp [walk, step, opened?, closed?, walk_append, hp _]

/-! ## Pieces -/

theorem same_intercalate {sep : List Run} (hsep : Whole sep) (ps : List (List Run)) :
    Same (List.intercalate sep ps) ps.flatten := by
  induction ps with
  | nil => exact .refl _
  | cons p ps ih =>
      cases ps with
      | nil =>
          rw [List.intercalate_singleton, List.flatten_singleton]
          exact .refl p
      | cons q ps =>
          rw [List.intercalate_cons_cons, List.append_assoc]
          exact (Same.refl p).append ((hsep.same_append_right _).trans ih)

theorem same_trim (rs : List Run) : Same (trim rs) rs := by
  obtain ⟨a, b, hrs, ha, hb⟩ := exists_trim rs
  have h := ((whole_of_isTrivia ha).same_append_right (trim rs ++ b)).trans
    ((whole_of_isTrivia hb).same_append_left (trim rs))
  rw [← hrs] at h
  exact h.symm

theorem same_joinPieces (ps : List (List Run)) : Same (joinPieces ps) ps.flatten :=
  same_intercalate (whole_of_forall (by decide)) ps

/-- The pieces between commas have the brackets of the whole. -/
theorem same_splitAtCommas (rs : List Run) : Same (Run.splitAtCommas rs).flatten rs := by
  have hpieces : Same rs (Nesting.outermost.pieces rs).flatten := by
    have hcomma : Whole [code ','] := whole_of_forall (by decide)
    have := same_intercalate hcomma (Nesting.outermost.pieces rs)
    rwa [Nesting.intercalate_pieces] at this
  have hfilter (ps : List (List Run)) : (ps.filter fun p => !p.isEmpty).flatten = ps.flatten := by
    induction ps with
    | nil => rfl
    | cons p ps ih =>
        cases p with
        | nil => exact ih
        | cons r p => exact congrArg ((r :: p) ++ ·) ih
  have htrim : Same ((Nesting.outermost.pieces rs).map trim).flatten
      ((Nesting.outermost.pieces rs).map id).flatten := same_flatten fun p _ => same_trim p
  rw [List.map_id] at htrim
  rw [Run.splitAtCommas, hfilter]
  exact htrim.trans hpieces.symm

end Bracket

end ScriptSurvey
