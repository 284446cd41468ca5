import ScriptSurvey.Lexical.Cursor
import ScriptSurvey.Proofs.Lexical.Automaton

/-!
# Scanning step by step

A scan of a text is what repeated steps of a cursor find. Each step passes over one run, and the
cursor keeps the whole text, so the steps lie side by side: none is empty, each begins where the one
before it ends, at a boundary of the text, and together they cover it. What they say of the
characters is what the automaton says, and so is the mode that they leave the cursor in.
-/

namespace ScriptSurvey

theorem Text.cutAt?_append (a b : Text) : cutAt? (size a) (a ++ b) = some (a, b) := by
  induction a with
  | nil => cases b <;> rfl
  | cons c a ih =>
      have hpos := c.utf8Size_pos
      obtain ⟨n, hn⟩ : ∃ n, size (c :: a) = n + 1 := Nat.exists_eq_succ_of_ne_zero (by
        rw [size_cons]
        omega)
      have hsize : c.utf8Size + size a = n + 1 := hn
      have hrest : n + 1 - c.utf8Size = size a := by omega
      rw [hn, List.cons_append, cutAt?, if_pos (by omega), hrest, ih]
      rfl

theorem Text.size_pos {t : Text} (h : t ≠ []) : 0 < size t := by
  obtain ⟨c, s, rfl⟩ := List.exists_cons_of_ne_nil h
  have hpos := c.utf8Size_pos
  rw [size_cons]
  omega

/-- The span behind a front part of a text that covers the part after it. -/
theorem Span.slice?_append (a b d : Text) :
    (Span.mk (Text.size a) (Text.size a + Text.size b)).slice? (a ++ (b ++ d)) = some b := by
  have hlength : (Span.mk (Text.size a) (Text.size a + Text.size b)).length = Text.size b := by
    simp [Span.length]
  rw [Span.slice?, hlength, Text.cutAt?_append, Option.bind_some, Text.cutAt?_append]
  rfl

namespace Cursor

/-! ## One step -/

theorem step?_of_nil {c : Cursor} (h : c.rest = []) : c.step? = none := by
  rw [step?, h]

theorem step?_of_cons {c : Cursor} {x : Char} {t : Text} (h : c.rest = x :: t) :
    c.step? = some ((Step.first x t).run, c.past (Step.first x t)) := by
  rw [step?, h]

theorem rest_of_step? {c d : Cursor} {r : Run} (h : c.step? = some (r, d)) :
    c.rest = r.text ++ d.rest := by
  cases hrest : c.rest with
  | nil => exact absurd h (by simp [step?_of_nil hrest])
  | cons x t =>
      rw [step?_of_cons hrest, Option.some.injEq, Prod.mk.injEq] at h
      rw [← h.1, ← h.2, past, Step.first_append]

theorem passed_of_step? {c d : Cursor} {r : Run} (h : c.step? = some (r, d)) :
    d.passed = r.text.reverse ++ c.passed := by
  cases hrest : c.rest with
  | nil => exact absurd h (by simp [step?_of_nil hrest])
  | cons x t =>
      rw [step?_of_cons hrest, Option.some.injEq, Prod.mk.injEq] at h
      rw [← h.1, ← h.2, past]

theorem text_ne_nil_of_step? {c d : Cursor} {r : Run} (h : c.step? = some (r, d)) :
    r.text ≠ [] := by
  cases hrest : c.rest with
  | nil => exact absurd h (by simp [step?_of_nil hrest])
  | cons x t =>
      rw [step?_of_cons hrest, Option.some.injEq, Prod.mk.injEq] at h
      rw [← h.1]
      exact Step.first_run_ne_nil x t

/-- A step stays in the text. -/
theorem text_of_step? {c d : Cursor} {r : Run} (h : c.step? = some (r, d)) : d.text = c.text := by
  rw [text, text, passed_of_step? h, rest_of_step? h, List.reverse_append, List.reverse_reverse,
    List.append_assoc]

theorem offset_of_step? {c d : Cursor} {r : Run} (h : c.step? = some (r, d)) :
    d.offset = c.offset + Text.size r.text := by
  rw [offset, offset, passed_of_step? h, Text.size_append, Text.size_reverse, Nat.add_comm]

/-! ## All steps -/

/-- Steps from the cursor to the end of the text: the span and the run of each, and the cursor
behind the last of them. -/
def scan (c : Cursor) : List (Span × Run) × Cursor :=
  match _h : c.step? with
  | none => ([], c)
  | some (r, d) => ((⟨c.offset, d.offset⟩, r) :: (scan d).1, (scan d).2)
termination_by c.rest.length
decreasing_by
  all_goals
    have hpos := List.length_pos_iff.mpr (text_ne_nil_of_step? _h)
    rw [rest_of_step? _h, List.length_append]
    omega

/-- Spans that are not empty, the first of which begins at `a`, each other one where the one before
it ends, and the last of which ends at `b`. -/
def Contiguous (a : Nat) : List (Span × Run) → Nat → Prop
  | [], b => a = b
  | p :: ps, b => p.1.start = a ∧ a < p.1.stop ∧ Contiguous p.1.stop ps b

theorem contiguous_scan (c : Cursor) :
    Contiguous c.offset c.scan.1 (c.offset + Text.size c.rest) := by
  fun_induction scan c with
  | case1 c h =>
      cases hrest : c.rest with
      | nil => rfl
      | cons x t => exact absurd h (by simp [step?_of_cons hrest])
  | case2 c r d h ih =>
      have hpos := Text.size_pos (text_ne_nil_of_step? h)
      have hoffset := offset_of_step? h
      refine ⟨rfl, ?_, ?_⟩
      · show c.offset < d.offset
        omega
      · rw [rest_of_step? h, Text.size_append, ← Nat.add_assoc, ← hoffset]
        exact ih

theorem slice?_of_mem_scan {c : Cursor} {p : Span × Run} (h : p ∈ c.scan.1) :
    p.1.slice? c.text = some p.2.text := by
  fun_induction scan c with
  | case1 => exact absurd h List.not_mem_nil
  | case2 c r d hstep ih =>
      rcases List.mem_cons.mp h with rfl | h
      · have := Span.slice?_append c.passed.reverse r.text d.rest
        rw [Text.size_reverse] at this
        rw [text, offset_of_step? hstep, rest_of_step? hstep]
        exact this
      · rw [← text_of_step? hstep]
        exact ih h

/-- The steps find the runs of what lies ahead. -/
theorem map_snd_scan (c : Cursor) : c.scan.1.map Prod.snd = runs c.rest := by
  fun_induction scan c with
  | case1 c h =>
      cases hrest : c.rest with
      | nil => rw [runs_nil]; rfl
      | cons x t => exact absurd h (by simp [step?_of_cons hrest])
  | case2 c r d h ih =>
      cases hrest : c.rest with
      | nil => exact absurd h (by simp [step?_of_nil hrest])
      | cons x t =>
          rw [step?_of_cons hrest, Option.some.injEq, Prod.mk.injEq] at h
          rw [runs_cons, List.map_cons, ih, ← h.1, ← h.2]
          rfl

theorem end_scan (c : Cursor) : c.scan.2.rest = [] ∧ c.scan.2.text = c.text := by
  fun_induction scan c with
  | case1 c h =>
      cases hrest : c.rest with
      | nil => exact ⟨rfl, rfl⟩
      | cons x t => exact absurd h (by simp [step?_of_cons hrest])
  | case2 c r d h ih => exact ⟨ih.1, ih.2.trans (text_of_step? h)⟩

theorem mode_scan (c : Cursor) :
    c.scan.2.mode = if c.rest = [] then c.mode else finalMode c.rest := by
  fun_induction scan c with
  | case1 c h =>
      cases hrest : c.rest with
      | nil => rfl
      | cons x t => exact absurd h (by simp [step?_of_cons hrest])
  | case2 c r d h ih =>
      cases hrest : c.rest with
      | nil => exact absurd h (by simp [step?_of_nil hrest])
      | cons x t =>
          rw [step?_of_cons hrest, Option.some.injEq, Prod.mk.injEq] at h
          rw [ih, ← h.2, if_neg (List.cons_ne_nil x t), finalMode]
          by_cases hempty : (Step.first x t).rest = [] <;> simp [past, hempty]

/-! ## The scan of a text -/

/-- A character of code is a run of its own. -/
theorem length_of_isCode {r : Run} (h : r.mode = .code) : r.text.length = 1 := by
  cases r with
  | code c => rfl
  | comment k t => exact absurd h (by simp [Run.mode])
  | literal k t => exact absurd h (by simp [Run.mode])

/-- What the steps of a scan and the cursor behind them have to be, to read a text as the
automaton does. -/
structure ReadsAs (t : Text) (steps : List (Span × Run)) (last : Cursor) : Prop where
  /-- The steps cover the text side by side, and none is empty. -/
  contiguous : Contiguous 0 steps (Text.size t)
  /-- Each begins and ends at a boundary of the text, with the characters of its run between. -/
  slice : ∀ p ∈ steps, p.1.slice? t = some p.2.text
  /-- A step over code is a step over one character. -/
  code : ∀ p ∈ steps, p.2.mode = .code → p.2.text.length = 1
  /-- Each character is what the automaton says it is. -/
  modes : (steps.flatMap fun p => p.2.text.map fun _ => p.2.mode) = Automaton.modes .code t
  /-- The steps end behind the text. -/
  atEnd : last.rest = [] ∧ last.text = t
  /-- They leave the mode that the automaton stops in. -/
  mode : last.mode = (Automaton.final .code t).left
  /-- So they leave code exactly if a block comment or a literal is without its end. -/
  unclosed : last.mode ≠ .code ↔ (Automaton.final .code t).isUnclosed = true

/-- **A scan reads every text as the automaton does.** -/
theorem readsAs_scan (t : Text) : ReadsAs t (ofText t).scan.1 (ofText t).scan.2 := by
  have hmode : (ofText t).scan.2.mode = (Automaton.final .code t).left := by
    rw [mode_scan, ← Automaton.finalMode_eq_left, ofText]
    split
    · next hnil =>
        rw [show t = [] from hnil, finalMode]
    · rfl
  constructor
  · have := contiguous_scan (ofText t)
    rw [offset_ofText, Nat.zero_add] at this
    exact this
  · exact fun p hp => slice?_of_mem_scan hp
  · exact fun p _ hcode => length_of_isCode hcode
  · have hruns : (ofText t).scan.1.map Prod.snd = runs t := map_snd_scan (ofText t)
    rw [Automaton.modes_code, ← hruns, List.flatMap_map]
  · exact end_scan (ofText t)
  · exact hmode
  · rw [hmode]
    exact Automaton.State.left_ne_code_iff _

end Cursor

end ScriptSurvey
