import ScriptSurvey.Proofs.Lexical.Reach

/-!
# What visits find, and where

Visits go through a text in one direction. Whatever they find was found at a place ahead of where they
began. If each thing that is found has a span that begins there, and the visits resume where it ends,
then the spans are pieces of the text and lie apart, in the order of the text.

That needs nothing of the runs. A reader that also resumes nowhere but where a scan comes by stays in
step with the scan, so each place that it visits is a step over code in the scan of the whole text.
-/

namespace ScriptSurvey

namespace Cursor

/-! ## Ahead in a text -/

/-- Whether the second cursor stands in the text of the first one, at its place or further ahead. -/
def IsAhead (c e : Cursor) : Prop :=
  ∃ s, c.rest = s ++ e.rest ∧ e.passed = s.reverse ++ c.passed

namespace IsAhead

variable {c d e : Cursor}

theorem trans (h : c.IsAhead d) (h' : d.IsAhead e) : c.IsAhead e := by
  obtain ⟨s, hrest, hpassed⟩ := h
  obtain ⟨u, hrest', hpassed'⟩ := h'
  refine ⟨s ++ u, ?_, ?_⟩
  · rw [hrest, hrest', List.append_assoc]
  · rw [hpassed', hpassed, List.reverse_append, List.append_assoc]

theorem text_eq (h : c.IsAhead e) : e.text = c.text := by
  obtain ⟨s, hrest, hpassed⟩ := h
  rw [text, text, hrest, hpassed, List.reverse_append, List.reverse_reverse, List.append_assoc]

theorem offset_le (h : c.IsAhead e) : c.offset ≤ e.offset := by
  obtain ⟨s, -, hpassed⟩ := h
  rw [offset, offset, hpassed, Text.size_append]
  exact Nat.le_add_left _ _

theorem rest_suffix (h : c.IsAhead e) : e.rest <:+ c.rest := by
  obtain ⟨s, hrest, -⟩ := h
  exact ⟨s, hrest.symm⟩

theorem size_rest_le (h : c.IsAhead e) : Text.size e.rest ≤ Text.size c.rest := by
  obtain ⟨s, hrest, -⟩ := h
  rw [hrest, Text.size_append]
  exact Nat.le_add_left _ _

end IsAhead

theorem Reaches.isAhead {c d : Cursor} {rs : List Run} (h : c.Reaches d rs) : c.IsAhead d :=
  ⟨Run.join rs, h.rest_eq, h.passed⟩

theorem isAhead_forward (n : Nat) (c : Cursor) : c.IsAhead (c.forward n) := by
  induction n generalizing c with
  | zero => exact ⟨[], rfl, rfl⟩
  | succ n ih =>
      rw [forward]
      split
      · next hrest => exact ⟨[], rfl, rfl⟩
      · next x t hrest =>
          have hone : c.IsAhead ⟨x :: c.passed, t, .code⟩ := ⟨[x], hrest, rfl⟩
          exact hone.trans (ih _)

theorem isAhead_forwardBytes (n : Nat) (p t : Text) (m : Mode) :
    IsAhead ⟨p, t, m⟩ (forwardBytes n p t) := by
  induction t generalizing n p m with
  | nil => exact ⟨[], rfl, rfl⟩
  | cons x t ih =>
      rw [forwardBytes]
      split
      · exact ⟨[], rfl, rfl⟩
      · have hone : IsAhead ⟨p, x :: t, m⟩ ⟨x :: p, t, m⟩ := ⟨[x], rfl, rfl⟩
        exact hone.trans (ih _ _ m)

/-- With as much text ahead, a jump goes as far as it is asked to. -/
theorem le_offset_forwardBytes {n : Nat} {p t : Text} (h : n ≤ Text.size t) :
    Text.size p + n ≤ (forwardBytes n p t).offset := by
  induction t generalizing n p with
  | nil =>
      rw [Text.size_nil] at h
      show Text.size p + n ≤ Text.size p
      omega
  | cons x t ih =>
      rw [Text.size_cons] at h
      rw [forwardBytes]
      split
      · show Text.size p + n ≤ Text.size p
        omega
      · have := ih (n := n - x.utf8Size) (p := x :: p) (by omega)
        rw [Text.size_cons] at this
        omega

theorem isAhead_advanceTo (n : Nat) (c : Cursor) : c.IsAhead (c.advanceTo n) :=
  isAhead_forwardBytes _ _ _ c.mode

theorem le_offset_advanceTo {n : Nat} {c : Cursor} (h : n ≤ c.offset + Text.size c.rest) :
    n ≤ (c.advanceTo n).offset := by
  have hle := le_offset_forwardBytes (n := n - c.offset) (p := c.passed) (t := c.rest) (by omega)
  have hpassed : Text.size c.passed = c.offset := rfl
  show n ≤ (forwardBytes (n - c.offset) c.passed c.rest).offset
  omega

/-! ## Found ahead -/

section Visits

variable {α : Type} {look : Cursor → Option α × Next}

theorem isAhead_behind {c : Cursor} {x : Char} {t : Text} (h : c.toCode.rest = x :: t) :
    c.IsAhead ⟨x :: c.toCode.passed, t, .code⟩ :=
  c.reaches_toCode.isAhead.trans ⟨[x], h, rfl⟩

/-- What visits find is found at some place ahead. -/
theorem exists_of_mem_visit {c : Cursor} {x : α} (h : x ∈ visit look c) :
    ∃ e : Cursor, c.IsAhead e ∧ (look e).1 = some x := by
  have hfound {c : Cursor} (hx : x ∈ (look c.toCode).1.toList) :
      ∃ e : Cursor, c.IsAhead e ∧ (look e).1 = some x :=
    ⟨c.toCode, c.reaches_toCode.isAhead, Option.mem_toList.mp hx⟩
  fun_induction visit look c with
  | case1 => exact absurd h List.not_mem_nil
  | case2 c y t hrest behind found _ ih =>
      rcases List.mem_append.mp h with h | h
      · exact hfound h
      · obtain ⟨e, he, hx⟩ := ih h
        exact ⟨e, (isAhead_behind hrest).trans he, hx⟩
  | case3 c y t hrest behind found n _ ih =>
      rcases List.mem_append.mp h with h | h
      · exact hfound h
      · obtain ⟨e, he, hx⟩ := ih h
        exact ⟨e, ((isAhead_behind hrest).trans (isAhead_advanceTo n behind)).trans he, hx⟩
  | case4 c y t hrest found _ => exact hfound h

/-- What is found at the next character of code is among what the visits find. -/
theorem mem_visit_of_look {c : Cursor} {x : α} (hrest : c.toCode.rest ≠ [])
    (h : (look c.toCode).1 = some x) : x ∈ visit look c := by
  obtain ⟨y, t, hcons⟩ := List.exists_cons_of_ne_nil hrest
  have hx : x ∈ (look c.toCode).1.toList := Option.mem_toList.mpr h
  rw [visit_of_cons hcons]
  cases (look c.toCode).2 with
  | onward => exact List.mem_append_left _ hx
  | resume offset => exact List.mem_append_left _ hx
  | stop => exact hx

/-! ## Spans -/

/-- The span up to where the rest begins, with some of the text in it. -/
theorem spanTo_of_append {c : Cursor} {s rest : Text} (h : c.rest = s ++ rest) :
    c.spanTo rest = ⟨c.offset, c.offset + Text.size s⟩ := by
  rw [spanTo, h, Text.size_append, Nat.add_sub_cancel]

theorem slice?_spanTo {c : Cursor} {s rest : Text} (h : c.rest = s ++ rest) :
    (c.spanTo rest).slice? c.text = some s := by
  have hslice := Span.slice?_append c.passed.reverse s rest
  rwa [Text.size_reverse, ← h, ← offset, ← text, ← spanTo_of_append h] at hslice

/-- Whether the span of whatever is found begins at the place where it is found, has some of the text
ahead in it, and ends where the visits resume. -/
def FindsSpans (span : α → Span) (look : Cursor → Option α × Next) : Prop :=
  ∀ (c : Cursor) (x : α), (look c).1 = some x →
    (look c).2 = .resume (span x).stop ∧
      ∃ s rest, s ≠ [] ∧ c.rest = s ++ rest ∧ span x = c.spanTo rest

namespace FindsSpans

variable {span : α → Span} (h : FindsSpans span look)

include h

/-- A span is a piece of the text. -/
theorem slice? {c : Cursor} {x : α} (hx : x ∈ visit look c) :
    c.offset ≤ (span x).start ∧ (span x).start < (span x).stop ∧
      ∃ s, (span x).slice? c.text = some s := by
  obtain ⟨e, hahead, hfound⟩ := exists_of_mem_visit hx
  obtain ⟨-, s, rest, hne, hrest, hspan⟩ := h e x hfound
  have hslice := slice?_spanTo hrest
  rw [hahead.text_eq, spanTo_of_append hrest] at hslice
  rw [hspan, spanTo_of_append hrest]
  exact ⟨hahead.offset_le, Nat.lt_add_of_pos_right (Text.size_pos hne), s, hslice⟩

/-- **The spans lie apart, in the order of the text.** -/
theorem pairwise (c : Cursor) :
    (visit look c).Pairwise fun x y => (span x).stop ≤ (span y).start := by
  fun_induction visit look c with
  | case1 => exact .nil
  | case2 c y t hrest behind found hnext ih =>
      -- nothing is found where the visits just go on
      have hnone : found = [] := by
        cases hx : (look c.toCode).1 with
        | none => exact congrArg Option.toList hx
        | some x => exact absurd ((h _ x hx).1.symm.trans hnext) (by simp)
      rw [hnone]
      exact ih
  | case3 c y t hrest behind found n hnext ih =>
      cases hx : (look c.toCode).1 with
      | none =>
          rw [show found = [] from congrArg Option.toList hx]
          exact ih
      | some x =>
          rw [show found = [x] from congrArg Option.toList hx]
          refine List.pairwise_cons.mpr ⟨fun z hz => ?_, ih⟩
          obtain ⟨hresume, s, rest, hne, hsplit, hspan⟩ := h _ x hx
          obtain rfl : (span x).stop = n := Next.resume.inj (hresume.symm.trans hnext)
          refine Nat.le_trans (le_offset_advanceTo ?_) (slice? h hz).1
          -- the span ends in the text
          have hsize := congrArg Text.size (hrest.symm.trans hsplit)
          rw [Text.size_append, Text.size_cons] at hsize
          rw [hspan, spanTo_of_append hsplit]
          show c.toCode.offset + Text.size s ≤ Text.size (y :: c.toCode.passed) + Text.size t
          rw [Text.size_cons, offset]
          omega
  | case4 c y t hrest found hnext =>
      cases hx : (look c.toCode).1 with
      | none =>
          rw [show found = [] from congrArg Option.toList hx]
          exact .nil
      | some x =>
          rw [show found = [x] from congrArg Option.toList hx]
          exact List.pairwise_singleton _ x

end FindsSpans

/-! ## In step with a scan -/

/-- Whether visits resume only where a scan that is at the place visited comes by later. -/
def KeepsStep (look : Cursor → Option α × Next) : Prop :=
  ∀ (c : Cursor) (n : Nat), (look c).2 = .resume n →
    ∃ d rs, rs ≠ [] ∧ c.Reaches d rs ∧ d.offset = n

/-- **Visits that keep step** find everything at characters of code of the scan. -/
theorem exists_reaches_of_mem_visit (hstep : KeepsStep look) {c : Cursor} {x : α}
    (h : x ∈ visit look c) :
    ∃ e rs y t, c.Reaches e rs ∧ runs e.rest = .code y :: t ∧ (look e).1 = some x := by
  induction hn : c.rest.length using Nat.strongRecOn generalizing c with
  | ind n ih =>
      subst hn
      cases hrest : c.toCode.rest with
      | nil =>
          rw [visit_of_nil hrest] at h
          exact absurd h List.not_mem_nil
      | cons y t =>
          have hcode := runs_toCode hrest
          have hle := length_rest_toCode c
          have hfound (hx : x ∈ (look c.toCode).1.toList) :
              ∃ e rs y t, c.Reaches e rs ∧ runs e.rest = .code y :: t ∧ (look e).1 = some x :=
            ⟨c.toCode, _, y, _, c.reaches_toCode, hcode, Option.mem_toList.mp hx⟩
          -- what is found further on is found from a place that the scan reaches
          have honward {d : Cursor} {rs : List Run} (hd : c.toCode.Reaches d rs) (hne : rs ≠ [])
              (hx : x ∈ visit look ⟨d.passed, d.rest, .code⟩) :
              ∃ e rs y t, c.Reaches e rs ∧ runs e.rest = .code y :: t ∧ (look e).1 = some x := by
            have hlt := hd.length_rest_lt hne
            obtain ⟨e, ss, z, u, he, hruns, hlook⟩ := ih _ (by simp only; omega) hx rfl
            have hd' : c.toCode.Reaches ⟨d.passed, d.rest, .code⟩ rs := ⟨hd.passed, hd.ahead⟩
            exact ⟨e, _, z, u, (c.reaches_toCode.trans hd').trans he, hruns, hlook⟩
          cases hnext : (look c.toCode).2 with
          | onward =>
              rw [visit_of_onward hrest (Prod.ext rfl hnext)] at h
              rcases List.mem_append.mp h with h | h
              · exact hfound h
              · have hbehind : c.toCode.Reaches ⟨y :: c.toCode.passed, t, .code⟩ [.code y] :=
                  ⟨rfl, hcode⟩
                exact honward hbehind (List.cons_ne_nil _ _) h
          | resume offset =>
              obtain ⟨d, rs, hne, hd, rfl⟩ := hstep _ _ hnext
              rw [visit_of_resume hd hne (Prod.ext rfl hnext)] at h
              rcases List.mem_append.mp h with h | h
              · exact hfound h
              · exact honward hd hne h
          | stop =>
              rw [visit_of_cons hrest, hnext] at h
              exact hfound h

end Visits

end Cursor

/-! ## Steps of the scan -/

/-- Runs side by side, the first of which begins at byte `n`, each with its span. -/
def Run.placed (n : Nat) : List Run → List (Span × Run)
  | [] => []
  | r :: rs => (⟨n, n + Text.size r.text⟩, r) :: placed (n + Text.size r.text) rs

theorem Run.placed_append (n : Nat) (rs ss : List Run) :
    placed n (rs ++ ss) = placed n rs ++ placed (n + Text.size (join rs)) ss := by
  induction rs generalizing n with
  | nil => rfl
  | cons r rs ih =>
      rw [List.cons_append, placed, placed, ih, join_cons, Text.size_append, Nat.add_assoc]
      rfl

namespace Cursor

/-- The steps of a scan pass over the runs ahead. -/
theorem scan_eq_placed (c : Cursor) : c.scan.1 = Run.placed c.offset (runs c.rest) := by
  fun_induction scan c with
  | case1 c h =>
      cases hrest : c.rest with
      | nil =>
          rw [runs_nil]
          rfl
      | cons x t => exact absurd h (by simp [step?_of_cons hrest])
  | case2 c r d h ih =>
      have hruns : runs c.rest = r :: runs d.rest := by
        cases hrest : c.rest with
        | nil => exact absurd h (by simp [step?_of_nil hrest])
        | cons x t =>
            rw [step?_of_cons hrest, Option.some.injEq, Prod.mk.injEq] at h
            rw [runs_cons, ← h.1, ← h.2]
            rfl
      rw [hruns, Run.placed, ← offset_of_step? h, ih]

/-- The run ahead of a cursor that a scan reaches is one of the steps. -/
theorem Reaches.mem_scan {c d : Cursor} {rs : List Run} (h : c.Reaches d rs) {r : Run}
    {ss : List Run} (hr : runs d.rest = r :: ss) :
    (⟨d.offset, d.offset + Text.size r.text⟩, r) ∈ c.scan.1 := by
  rw [scan_eq_placed, h.ahead, Run.placed_append, ← h.offset_eq, hr, Run.placed]
  exact List.mem_append_right _ List.mem_cons_self

end Cursor

end ScriptSurvey
