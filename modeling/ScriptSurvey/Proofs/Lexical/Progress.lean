import ScriptSurvey.Proofs.Lexical.Offsets
import ScriptSurvey.Proofs.Lexical.Visits

/-!
# Visits make progress

A visitor is told where a character of code stands, and its answer decides where the scan goes on. It may
remember the visits before, and may ask for any offset at all: one behind, one inside a character, one past
the end.

None of that holds a scan up. One step of it goes on from a place behind the character that was visited,
and from no place in front of the offset that was asked for. So the visits go **strictly forward, from
character to character**, and there is at most one for each. A visitor that only goes on sees all the code
of the text.

Since no place is visited twice, nothing depends on what a visitor remembers: for each visitor and each
text there is one without a memory that sees and answers the same.
-/

namespace ScriptSurvey

namespace Cursor

/-! ## One step -/

/-- Where a scan goes on after an answer, from the place behind the character visited. -/
def Next.goesOn (behind : Cursor) : Next → Option Cursor
  | onward => some behind
  | resume offset => some (behind.advanceTo offset)
  | stop => none

theorem rest_forwardBytes_of_le {n : Nat} {p t : Text} (h : Text.size t ≤ n) :
    (forwardBytes n p t).rest = [] := by
  induction t generalizing n p with
  | nil => rfl
  | cons x t ih =>
      have hpos := x.utf8Size_pos
      rw [Text.size_cons] at h
      rw [forwardBytes, if_neg (by omega)]
      exact ih (by omega)

/-- A jump reaches the offset that it is asked for, or the end of the text. -/
theorem le_offset_advanceTo_or (n : Nat) (c : Cursor) :
    n ≤ (c.advanceTo n).offset ∨ (c.advanceTo n).rest = [] := by
  rcases Nat.lt_or_ge (c.offset + Text.size c.rest) n with hlt | hge
  · exact .inr (rest_forwardBytes_of_le (by omega))
  · exact .inl (le_offset_advanceTo hge)

/-- **One step of a scan** goes no way back, and leaves nothing to visit in front of what was asked for. -/
theorem isAhead_of_goesOn {behind e : Cursor} {a : Next} (h : a.goesOn behind = some e) :
    behind.IsAhead e ∧ ∀ n, a = .resume n → n ≤ e.offset ∨ e.rest = [] := by
  cases a with
  | onward =>
      obtain rfl : behind = e := Option.some.inj h
      exact ⟨⟨[], rfl, rfl⟩, fun n hn => Next.noConfusion hn⟩
  | resume offset =>
      obtain rfl : behind.advanceTo offset = e := Option.some.inj h
      refine ⟨isAhead_advanceTo offset behind, fun n hn => ?_⟩
      obtain rfl := Next.resume.inj hn
      exact le_offset_advanceTo_or offset behind
  | stop => exact absurd h (by simp [Next.goesOn])

theorem IsAhead.length_rest_le {c e : Cursor} (h : c.IsAhead e) : e.rest.length ≤ c.rest.length :=
  h.rest_suffix.length_le

theorem visit_eq_goesOn {α : Type} {look : Cursor → Option α × Next} {c : Cursor} {x : Char} {t : Text}
    (h : c.toCode.rest = x :: t) :
    visit look c = (look c.toCode).1.toList ++
      (((look c.toCode).2.goesOn ⟨x :: c.toCode.passed, t, .code⟩).elim [] (visit look)) := by
  rw [visit_of_cons h]
  cases (look c.toCode).2 with
  | onward => rfl
  | resume offset => rfl
  | stop => exact (List.append_nil _).symm

/-! ## All steps -/

/-- The visits from the cursor on, by a visitor that is told an offset and answers by what it remembers:
the offset of each, and the answer. -/
def visits {σ : Type} (answer : σ → Nat → Next × σ) (s : σ) (c : Cursor) : List (Nat × Next) :=
  match _h : c.toCode.rest with
  | [] => []
  | x :: t =>
    match _hgo : (answer s c.toCode.offset).1.goesOn ⟨x :: c.toCode.passed, t, .code⟩ with
    | none => [(c.toCode.offset, (answer s c.toCode.offset).1)]
    | some e =>
      (c.toCode.offset, (answer s c.toCode.offset).1) ::
        visits answer (answer s c.toCode.offset).2 e
termination_by c.rest.length
decreasing_by
  have hle := (isAhead_of_goesOn _hgo).1.length_rest_le
  have hcode := length_rest_toCode c
  simp only [_h, List.length_cons] at hcode hle
  omega

section Visits

variable {σ : Type} {answer : σ → Nat → Next × σ}

/-- Each visit is ahead, in front of a character. -/
theorem exists_isAhead_of_mem_visits {s : σ} {c : Cursor} {v : Nat × Next}
    (h : v ∈ visits answer s c) : ∃ e, c.IsAhead e ∧ e.rest ≠ [] ∧ v.1 = e.offset := by
  fun_induction visits answer s c with
  | case1 => exact absurd h List.not_mem_nil
  | case2 s c x t hrest hgo =>
      obtain rfl := List.mem_singleton.mp h
      exact ⟨c.toCode, c.reaches_toCode.isAhead, by rw [hrest]; exact List.cons_ne_nil x t, rfl⟩
  | case3 s c x t hrest e hgo ih =>
      rcases List.mem_cons.mp h with rfl | h
      · exact ⟨c.toCode, c.reaches_toCode.isAhead, by rw [hrest]; exact List.cons_ne_nil x t, rfl⟩
      · obtain ⟨d, hd, hne, hv⟩ := ih h
        exact ⟨d, ((isAhead_behind hrest).trans (isAhead_of_goesOn hgo).1).trans hd, hne, hv⟩

theorem length_visits_le (s : σ) (c : Cursor) : (visits answer s c).length ≤ c.rest.length := by
  fun_induction visits answer s c with
  | case1 => exact Nat.zero_le _
  | case2 s c x t hrest hgo =>
      have hcode := length_rest_toCode c
      rw [hrest, List.length_cons] at hcode
      rw [List.length_singleton]
      omega
  | case3 s c x t hrest e hgo ih =>
      have hcode := length_rest_toCode c
      have hle := (isAhead_of_goesOn hgo).1.length_rest_le
      rw [hrest, List.length_cons] at hcode
      rw [List.length_cons]
      simp only at hle
      omega

/-- Each visit is further on than those before it, and not in front of what any of them asked for. -/
theorem pairwise_visits (s : σ) (c : Cursor) :
    (visits answer s c).Pairwise fun v w => v.1 < w.1 ∧ ∀ n, v.2 = .resume n → n ≤ w.1 := by
  fun_induction visits answer s c with
  | case1 => exact .nil
  | case2 => exact List.pairwise_singleton _ _
  | case3 s c x t hrest e hgo ih =>
      refine List.pairwise_cons.mpr ⟨fun w hw => ?_, ih⟩
      obtain ⟨hahead, hasked⟩ := isAhead_of_goesOn hgo
      obtain ⟨d, hd, hne, hv⟩ := exists_isAhead_of_mem_visits hw
      have hle := hd.offset_le
      refine ⟨?_, fun n hn => ?_⟩
      · have hpos := x.utf8Size_pos
        have hbehind := hahead.offset_le
        have hsize : (⟨x :: c.toCode.passed, t, .code⟩ : Cursor).offset =
            x.utf8Size + c.toCode.offset := Text.size_cons x c.toCode.passed
        show c.toCode.offset < w.1
        omega
      · rcases hasked n hn with hn | hnil
        · omega
        · -- nothing is left behind the end
          obtain ⟨u, hu, -⟩ := hd
          rw [hnil] at hu
          exact absurd (List.append_eq_nil_iff.mp hu.symm).2 hne

theorem codeOffsets_toCode (c : Cursor) : Run.codeOffsets c.offset (runs c.rest) =
    Run.codeOffsets c.toCode.offset (runs c.toCode.rest) := by
  have hskipped : ∀ r ∈ (runs c.rest).takeWhile (!·.mode.isCode), r.mode.isCode = false := by
    intro r hr
    simpa using List.mem_takeWhile_imp hr
  rw [c.reaches_toCode.codeOffsets_eq, Run.codeOffsets_of_forall hskipped, List.nil_append]

/-- A visitor that only goes on is at each character of code. -/
theorem map_fst_visits {s : σ} {c : Cursor} (h : ∀ v ∈ visits answer s c, v.2 = .onward) :
    (visits answer s c).map Prod.fst = Run.codeOffsets c.offset (runs c.rest) := by
  fun_induction visits answer s c with
  | case1 s c hrest =>
      rw [codeOffsets_toCode, hrest, runs_nil]
      rfl
  | case2 s c x t hrest hgo =>
      have honward : (answer s c.toCode.offset).1 = .onward := h _ List.mem_cons_self
      rw [honward] at hgo
      exact absurd hgo (by simp [Next.goesOn])
  | case3 s c x t hrest e hgo ih =>
      have honward : (answer s c.toCode.offset).1 = .onward := h _ List.mem_cons_self
      rw [honward] at hgo
      obtain rfl := Option.some.inj hgo
      have hsize : (⟨x :: c.toCode.passed, t, .code⟩ : Cursor).offset =
          c.toCode.offset + Text.size (Run.text (.code x)) :=
        (Text.size_append [x] c.toCode.passed).trans (Nat.add_comm _ _)
      rw [List.map_cons, ih fun v hv => h v (List.mem_cons_of_mem _ hv), codeOffsets_toCode c,
        runs_toCode hrest, hsize]
      rfl

/-! ## Visitors without a memory -/

/-- What a visitor without a memory finds that writes down its visits. -/
def tracing (next : Nat → Next) (c : Cursor) : Option (Nat × Next) × Next :=
  (some (c.offset, next c.offset), next c.offset)

theorem tracing_eq {next : Nat → Next} {c : Cursor} {a : Next} (h : next c.offset = a) :
    tracing next c = (some (c.offset, a), a) := by
  rw [tracing, h]

/-- A visitor with answers of its own makes the visits of another one, if it answers them alike. -/
theorem visit_tracing {next : Nat → Next} {s : σ} {c : Cursor}
    (h : ∀ v ∈ visits answer s c, next v.1 = v.2) :
    visit (tracing next) c = visits answer s c := by
  fun_induction visits answer s c with
  | case1 s c hrest => exact visit_of_nil hrest
  | case2 s c x t hrest hgo =>
      have hnext : next c.toCode.offset = _ := h _ List.mem_cons_self
      rw [visit_eq_goesOn hrest, tracing_eq hnext, hgo]
      rfl
  | case3 s c x t hrest e hgo ih =>
      have hnext : next c.toCode.offset = _ := h _ List.mem_cons_self
      rw [visit_eq_goesOn hrest, tracing_eq hnext, hgo]
      exact congrArg (_ :: ·) (ih fun v hv => h v (List.mem_cons_of_mem _ hv))

/-- A visitor that nothing is remembered by is one without a memory. -/
theorem next_eq_of_mem_visits {next : Nat → Next} {u : Unit} {c : Cursor} {v : Nat × Next}
    (h : v ∈ visits (fun (u : Unit) n => (next n, u)) u c) : next v.1 = v.2 := by
  fun_induction visits (fun (u : Unit) n => (next n, u)) u c with
  | case1 => exact absurd h List.not_mem_nil
  | case2 =>
      obtain rfl := List.mem_singleton.mp h
      rfl
  | case3 u c x t hrest e hgo ih =>
      rcases List.mem_cons.mp h with rfl | h
      · rfl
      · exact ih h

theorem exists_forall_fst_eq {α : Type} {vs : List (Nat × α)} (default : α)
    (h : vs.Pairwise fun v w => v.1 < w.1) : ∃ f : Nat → α, ∀ v ∈ vs, f v.1 = v.2 := by
  induction vs with
  | nil => exact ⟨fun _ => default, fun v hv => absurd hv List.not_mem_nil⟩
  | cons w vs ih =>
      obtain ⟨hw, hvs⟩ := List.pairwise_cons.mp h
      obtain ⟨f, hf⟩ := ih hvs
      refine ⟨fun n => if n = w.1 then w.2 else f n, fun v hv => ?_⟩
      rcases List.mem_cons.mp hv with rfl | hv
      · exact if_pos rfl
      · have := hw v hv
        simp only
        rw [if_neg (by omega)]
        exact hf v hv

end Visits

/-! ## The visits of a text -/

/-- What visits and their answers have to be, to make progress in a text. -/
structure GoesForward (t : Text) (vs : List (Nat × Next)) : Prop where
  /-- Each visit is further on than those before it, and not in front of what any of them asked for. -/
  forward : vs.Pairwise fun v w => v.1 < w.1 ∧ ∀ n, v.2 = .resume n → n ≤ w.1
  /-- Each visit is at a place between characters, in front of one. -/
  boundary : ∀ v ∈ vs, ∃ front x back, t = front ++ x :: back ∧ v.1 = Text.size front
  /-- There are at most as many as characters. -/
  length_le : vs.length ≤ t.length
  /-- If all answers are to go on, they are where the scan steps over code. -/
  onward : (∀ v ∈ vs, v.2 = .onward) → vs.map Prod.fst =
    ((ofText t).scan.1.filter fun p => p.2.mode.isCode).map fun p => p.1.start

theorem goesForward_visits {σ : Type} (answer : σ → Nat → Next × σ) (s : σ) (t : Text) :
    GoesForward t (visits answer s (ofText t)) where
  forward := pairwise_visits s (ofText t)
  boundary := by
    intro v hv
    obtain ⟨e, ⟨u, hu, hpassed⟩, hne, hv⟩ := exists_isAhead_of_mem_visits hv
    obtain ⟨x, back, hrest⟩ := List.exists_cons_of_ne_nil hne
    refine ⟨u, x, back, ?_, ?_⟩
    · rw [← hrest]
      exact hu
    · rw [hv, offset, hpassed, Text.size_append, Text.size_reverse]
      exact Nat.add_zero _
  length_le := length_visits_le s (ofText t)
  onward := by
    intro h
    rw [map_fst_visits h, codeOffsets_scan]

/-- **Visits make progress in every text**, whatever the answers are; and a visitor that remembers makes
the visits of one that does not. -/
theorem visitCode_goesForward (t : Text) :
    (∀ next : Nat → Next, GoesForward t (visitCode (tracing next) t)) ∧
    ∀ (σ : Type) (answer : σ → Nat → Next × σ) (s : σ),
      ∃ next, visitCode (tracing next) t = visits answer s (ofText t) := by
  constructor
  · intro next
    have hsame : visitCode (tracing next) t = visits (fun (u : Unit) n => (next n, u)) () (ofText t) :=
      visit_tracing fun v hv => next_eq_of_mem_visits hv
    rw [hsame]
    exact goesForward_visits _ () t
  · intro σ answer s
    have hdistinct : (visits answer s (ofText t)).Pairwise fun v w => v.1 < w.1 :=
      (pairwise_visits s (ofText t)).imp fun h => h.1
    obtain ⟨next, hnext⟩ := exists_forall_fst_eq .stop hdistinct
    exact ⟨next, visit_tracing hnext⟩

end Cursor

end ScriptSurvey
