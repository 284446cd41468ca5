import ScriptSurvey.Proofs.Lexical.Rescan
import ScriptSurvey.Proofs.Lexical.Scan

/-!
# Texts without their comments

A text with one space in place of each comment is scanned as what is left of it. The runs are those
of the text, and the comments among them are spaces, because

* a string is followed by a line feed, or by nothing, only if it was before: neither is ever put in
  or taken out;
* a `/` is followed by no `/` or `*` that was not there before: what stood behind a comment now
  stands behind its space.

So a reader that goes over the text run by run meets the same things in both.
-/

namespace ScriptSurvey

/-- Results that are related in turn, step by step. -/
theorem rel_bind {α α' β β' : Type} {R : α → α' → Prop} {S : β → β' → Prop} {o : Option α}
    {o' : Option α'} {f : α → Option β} {f' : α' → Option β'} (h : Option.Rel R o o')
    (hf : ∀ x x', o = some x → o' = some x' → R x x' → Option.Rel S (f x) (f' x')) :
    Option.Rel S (o.bind f) (o'.bind f') := by
  cases h with
  | none => exact .none
  | some hx => exact hf _ _ rfl rfl hx

theorem stripComments_nil : stripComments [] = [] := by
  rw [stripComments, runs_nil]
  rfl

/-- The first run, or its space, stands in front of the rest without its comments. -/
theorem stripComments_cons (c : Char) (t : Text) :
    stripComments (c :: t) =
      (Step.first c t).run.blankComment.text ++ stripComments (Step.first c t).rest := by
  rw [stripComments, runs_cons]
  rfl

theorem stripComments_append {s : Text} (h : s.Sealed) (t : Text) :
    stripComments (s ++ t) = stripComments s ++ stripComments t := by
  rw [stripComments, h.runs_append, List.map_append, Run.join_append]
  rfl

theorem stripComments_cons_of_isPlain {c : Char} (h : Text.isPlain c = true) (t : Text) :
    stripComments (c :: t) = c :: stripComments t := by
  rw [stripComments_cons, Text.first_of_isPlain h]
  rfl

theorem stripComments_append_of_isPlain {s : Text} (h : ∀ c ∈ s, Text.isPlain c = true) (t : Text) :
    stripComments (s ++ t) = s ++ stripComments t := by
  induction s with
  | nil => rfl
  | cons c s ih =>
      rw [List.cons_append, stripComments_cons_of_isPlain (h c List.mem_cons_self),
        ih fun d hd => h d (List.mem_cons_of_mem c hd)]
      rfl

/-- A text begins as before, unless it begins with a comment. -/
theorem head?_stripComments (t : Text) :
    (stripComments t).head? = t.head? ∨
      t.head? = some '/' ∧ (stripComments t).head? = some ' ' := by
  cases t with
  | nil =>
      rw [stripComments_nil]
      exact .inl rfl
  | cons c t =>
      rw [stripComments_cons]
      have hs := Step.isFirst c t
      generalize Step.first c t = s at hs ⊢
      cases hs with
      | line t => exact .inr ⟨rfl, rfl⟩
      | block t => exact .inr ⟨rfl, rfl⟩
      | literal kind t => exact .inl rfl
      | code _ _ => exact .inl rfl

theorem head?_of_stripComments {t : Text} {x : Char} (hx : x ≠ ' ')
    (h : (stripComments t).head? = some x) : t.head? = some x := by
  rcases head?_stripComments t with hsame | ⟨-, hspace⟩
  · rw [← hsame, h]
  · exact absurd (Option.some.inj (h.symm.trans hspace)) hx

theorem head?_stripComments_of_ne {t : Text} (h : t.head? ≠ some '/') :
    (stripComments t).head? = t.head? :=
  (head?_stripComments t).resolve_right fun hs => h hs.1

theorem head?_stripComments_iff {t : Text} {x : Char} (hspace : x ≠ ' ') (hslash : x ≠ '/') :
    (stripComments t).head? = some x ↔ t.head? = some x := by
  refine ⟨head?_of_stripComments hspace, fun h => ?_⟩
  rw [head?_stripComments_of_ne, h]
  rw [h, Ne, Option.some.injEq]
  exact hslash

theorem stripComments_eq_nil_iff {t : Text} : stripComments t = [] ↔ t = [] := by
  constructor
  · intro h
    have hhead := head?_stripComments t
    rw [h] at hhead
    rcases hhead with hhead | ⟨-, hhead⟩
    · exact List.head?_eq_none_iff.mp hhead.symm
    · exact absurd hhead (by simp)
  · rintro rfl
    exact stripComments_nil

/-- A text of plain characters in front, none of them a space, was there before. -/
theorem exists_of_stripComments {s t v : Text} (hs : ∀ c ∈ s, Text.isPlain c = true ∧ c ≠ ' ')
    (h : stripComments t = s ++ v) : ∃ u, t = s ++ u ∧ v = stripComments u := by
  induction s generalizing t with
  | nil => exact ⟨t, rfl, h.symm⟩
  | cons c s ih =>
      obtain ⟨hplain, hspace⟩ := hs c List.mem_cons_self
      obtain ⟨u, rfl⟩ := List.head?_eq_some_iff.mp
        (head?_of_stripComments hspace (by rw [h]; rfl))
      rw [stripComments_cons_of_isPlain hplain, List.cons_append, List.cons.injEq] at h
      obtain ⟨w, rfl, hw⟩ := ih (fun d hd => hs d (List.mem_cons_of_mem c hd)) h.2
      exact ⟨w, rfl, hw⟩

/-! ## The runs -/

/-- The step over what is left of the first run. A comment without its end becomes a space like any
other. -/
def Step.blanked (s : Step) : Step :=
  ⟨s.run.blankComment, stripComments s.rest, s.isOpen && !s.run.mode.isComment⟩

theorem Step.exists_first_stripComments (c : Char) (t : Text) :
    ∃ d u, stripComments (c :: t) = d :: u ∧ first d u = (first c t).blanked := by
  rw [stripComments_cons]
  have hs := isFirst c t
  generalize first c t = s at hs ⊢
  cases hs with
  | line t => exact ⟨' ', _, rfl, Text.first_of_isPlain (by decide) _⟩
  | block t =>
      refine ⟨' ', _, rfl, (Text.first_of_isPlain (by decide) _).trans ?_⟩
      simp [blanked, ofBody, Run.blankComment, Run.mode, Mode.isComment]
  | literal kind t =>
      obtain ⟨htext, hrest, hclosed⟩ := Body.ofLiteral_again kind t
        (u := stripComments (Body.ofLiteral kind t).rest) stripComments_eq_nil_iff.mpr
        fun hline => .inr ((head?_stripComments_of_ne (by rw [hline]; decide)).trans hline)
      refine ⟨kind.delimiter, (Body.ofLiteral kind t).text ++ _, rfl, ?_⟩
      rw [Text.first_delimiter]
      simp [blanked, ofBody, Run.blankComment, Run.mode, Mode.isComment, htext, hrest,
        hclosed stripComments_eq_nil_iff.mp]
  | code hkind hslash =>
      refine ⟨_, _, rfl, first_code hkind fun hc => ?_⟩
      exact ⟨fun h => (hslash hc).1 (head?_of_stripComments (by decide) h),
        fun h => (hslash hc).2 (head?_of_stripComments (by decide) h)⟩

/-- **The runs without comments** are those of the text, with a space for each comment. -/
theorem runs_stripComments (t : Text) :
    runs (stripComments t) = (runs t).map Run.blankComment := by
  fun_induction runs t with
  | case1 => rw [stripComments_nil, runs_nil, List.map_nil]
  | case2 c t ih =>
      obtain ⟨d, u, hcons, hfirst⟩ := Step.exists_first_stripComments c t
      rw [hcons, runs_cons, hfirst, List.map_cons]
      exact congrArg _ ih

namespace Run

theorem isTrivia_blankComment (r : Run) : r.blankComment.isTrivia = r.isTrivia := by
  cases r with
  | code c => rfl
  | comment kind t => exact (by decide : Text.isWhiteSpace ' ' = true)
  | literal kind t => rfl

theorem blankComment_blankComment (r : Run) : r.blankComment.blankComment = r.blankComment := by
  cases r <;> rfl

end Run

/-- Without comments there are none to take out. -/
theorem stripComments_stripComments (t : Text) :
    stripComments (stripComments t) = stripComments t := by
  rw [stripComments, runs_stripComments, List.map_map, stripComments]
  exact congrArg _ (List.map_congr_left fun r _ => r.blankComment_blankComment)

/-! ## The scan -/

/-- What a scan is left in once the comments are taken out. -/
def Mode.uncommented (m : Mode) : Mode :=
  if m.isComment then .code else m

namespace Run

theorem blankComment_eq (r : Run) : r.blankComment = if r.mode.isComment then code ' ' else r := by
  cases r <;> rfl

theorem isComment_blankComment (r : Run) : r.blankComment.mode.isComment = false := by
  cases r <;> rfl

/-- Comments are no literals, and neither are their spaces. -/
theorem filter_isLiteral_map_blankComment (rs : List Run) :
    (rs.map blankComment).filter (fun r => r.mode.isLiteral) =
      rs.filter fun r => r.mode.isLiteral := by
  induction rs with
  | nil => rfl
  | cons r rs ih =>
      rw [List.map_cons, List.filter_cons, List.filter_cons, ih]
      cases r <;> rfl

end Run

theorem Step.leaves_blanked (s : Step) : s.blanked.leaves = s.leaves.uncommented := by
  obtain ⟨run, rest, isOpen⟩ := s
  cases isOpen <;> cases run <;> rfl

/-- A scan that would end in a comment ends in code instead, and any other ends as before. -/
theorem finalMode_stripComments (t : Text) :
    finalMode (stripComments t) = (finalMode t).uncommented := by
  fun_induction finalMode t with
  | case1 =>
      rw [stripComments_nil, finalMode]
      rfl
  | case2 c t s hempty =>
      obtain ⟨d, u, hcons, hfirst⟩ := Step.exists_first_stripComments c t
      have hrest : s.blanked.rest.isEmpty = true :=
        List.isEmpty_iff.mpr (stripComments_eq_nil_iff.mpr (List.isEmpty_iff.mp hempty))
      rw [hcons, finalMode]
      simp only [hfirst]
      rw [if_pos hrest, Step.leaves_blanked]
  | case3 c t s hempty ih =>
      obtain ⟨d, u, hcons, hfirst⟩ := Step.exists_first_stripComments c t
      have hrest : ¬s.blanked.rest.isEmpty = true := fun hnil =>
        hempty (List.isEmpty_iff.mpr (stripComments_eq_nil_iff.mp (List.isEmpty_iff.mp hnil)))
      rw [hcons, finalMode]
      simp only [hfirst]
      rw [if_neg hrest]
      exact ih

/-- **A scan without comments** finds the runs of the text, with a run of one space for each comment and
every other run as it is, and ends in a string without its end only if it did before. So no comment is
left, the literals are the same, and there is nothing to take out a second time. -/
theorem scan_stripComments (t : Text) :
    ((Cursor.ofText (stripComments t)).scan.1.map Prod.snd =
      (Cursor.ofText t).scan.1.map fun step =>
        if step.2.mode.isComment then Run.code ' ' else step.2) ∧
    (Cursor.ofText (stripComments t)).scan.2.mode = (Cursor.ofText t).scan.2.mode.uncommented ∧
    (∀ step ∈ (Cursor.ofText (stripComments t)).scan.1, step.2.mode.isComment = false) ∧
    ((Cursor.ofText (stripComments t)).scan.1.map Prod.snd).filter (fun r => r.mode.isLiteral) =
      ((Cursor.ofText t).scan.1.map Prod.snd).filter (fun r => r.mode.isLiteral) ∧
    stripComments (stripComments t) = stripComments t := by
  have hruns (u : Text) : (Cursor.ofText u).scan.1.map Prod.snd = runs u := Cursor.map_snd_scan _
  -- steps and last mode of a scan are those of the text, so all parts are about runs
  have hmode (u : Text) : (Cursor.ofText u).scan.2.mode = finalMode u := by
    rw [Cursor.mode_scan, Cursor.ofText]
    split
    · next hnil => rw [show u = [] from hnil, finalMode]
    · rfl
  refine ⟨?_, ?_, fun step hstep => ?_, ?_, stripComments_stripComments t⟩
  · rw [hruns, runs_stripComments, ← hruns, List.map_map]
    exact List.map_congr_left fun step _ => step.2.blankComment_eq
  · rw [hmode, hmode, finalMode_stripComments]
  · have hmem : step.2 ∈ runs (stripComments t) := by
      rw [← hruns]
      exact List.mem_map_of_mem hstep
    rw [runs_stripComments, List.mem_map] at hmem
    obtain ⟨r, -, hr⟩ := hmem
    rw [← hr, r.isComment_blankComment]
  · rw [hruns, hruns, runs_stripComments, Run.filter_isLiteral_map_blankComment]

/-- A slash on either side of a comment, a string ended by its line, and a comment without its end. -/
example : stripComments "a/ /**// 'b\n/*'c".toList = "a/  / 'b\n ".toList := by
  decide +kernel

end ScriptSurvey
