import Mathlib.Algebra.Group.Nat.Defs
import ScriptSurvey.Proofs.Lexical.Visits

/-!
# Places in words

Where the ends of a span are kept in words of 32 bits, an offset from `2 ^ 32` on loses what it has above
that. A reader that resumes at the end of what it finds, as it is kept, would then go on at a place that it
has passed, and so behind the character visited.

No offset in a text of fewer than `2 ^ 32` bytes is as large. A reader that looks at such a text and keeps
what it finds in words therefore finds the same, and visits the same places.
-/

namespace ScriptSurvey

/-- The span with its ends in words of 32 bits. -/
def Span.inWords (s : Span) : Span :=
  ⟨(UInt32.ofNat s.start).toNat, (UInt32.ofNat s.stop).toNat⟩

theorem Span.inWords_eq {s : Span} (hstart : s.start < 2 ^ 32) (hstop : s.stop < 2 ^ 32) :
    s.inWords = s := by
  rw [inWords, UInt32.toNat_ofNat_of_lt' hstart, UInt32.toNat_ofNat_of_lt' hstop]

namespace Cursor

variable {α β : Type} {look : Cursor → Option α × Next} {look' : Cursor → Option β × Next} {f : α → β}

/-- **Two readers that see the same** from all places ahead find the same, each in its own way. -/
theorem visit_eq_map {c : Cursor} (h : ∀ e, c.IsAhead e → look' e = ((look e).1.map f, (look e).2)) :
    visit look' c = (visit look c).map f := by
  have hcode (c : Cursor) : c.IsAhead c.toCode := c.reaches_toCode.isAhead
  fun_induction visit look c with
  | case1 c hrest => exact visit_of_nil hrest
  | case2 c y t hrest behind found hnext ih =>
      rw [visit_of_cons hrest, h _ (hcode c), hnext, List.map_append, Option.toList_map]
      exact congrArg (_ ++ ·) (ih fun e he => h e ((isAhead_behind hrest).trans he))
  | case3 c y t hrest behind found n hnext ih =>
      rw [visit_of_cons hrest, h _ (hcode c), hnext, List.map_append, Option.toList_map]
      have hjump := (isAhead_behind hrest).trans (isAhead_advanceTo n behind)
      exact congrArg (_ ++ ·) (ih fun e he => h e (hjump.trans he))
  | case4 c y t hrest found hnext =>
      rw [visit_of_cons hrest, h _ (hcode c), hnext, Option.toList_map]

/-- A reader that keeps step with a scan is asked at places that the scan comes by, and only what it sees
there counts. -/
theorem visit_eq_map_of_keepsStep (hstep : KeepsStep look) {c : Cursor}
    (h : ∀ e rs, c.Reaches e rs → look' e = ((look e).1.map f, (look e).2)) :
    visit look' c = (visit look c).map f := by
  induction hn : c.rest.length using Nat.strongRecOn generalizing c with
  | ind n ih =>
      subst hn
      cases hrest : c.toCode.rest with
      | nil => rw [visit_of_nil hrest, visit_of_nil hrest, List.map_nil]
      | cons y t =>
          have hsame := h _ _ c.reaches_toCode
          have hle := length_rest_toCode c
          have honward {d : Cursor} {rs : List Run} (hd : c.toCode.Reaches d rs) (hne : rs ≠ []) :
              visit look' ⟨d.passed, d.rest, .code⟩ = (visit look ⟨d.passed, d.rest, .code⟩).map f := by
            have hlt := hd.length_rest_lt hne
            have hd' : c.toCode.Reaches ⟨d.passed, d.rest, .code⟩ rs := ⟨hd.passed, hd.ahead⟩
            exact ih _ (by simp only; omega)
              (fun e ss he => h e _ ((c.reaches_toCode.trans hd').trans he)) rfl
          cases hnext : (look c.toCode).2 with
          | onward =>
              rw [hnext] at hsame
              have hbehind : c.toCode.Reaches ⟨y :: c.toCode.passed, t, .code⟩ [.code y] :=
                ⟨rfl, runs_toCode hrest⟩
              rw [visit_of_onward hrest hsame, visit_of_onward hrest (Prod.ext rfl hnext),
                List.map_append, Option.toList_map]
              exact congrArg (_ ++ ·) (honward hbehind (List.cons_ne_nil _ _))
          | resume offset =>
              obtain ⟨d, rs, hne, hd, rfl⟩ := hstep _ _ hnext
              rw [hnext] at hsame
              rw [visit_of_resume hd hne hsame, visit_of_resume hd hne (Prod.ext rfl hnext),
                List.map_append, Option.toList_map]
              exact congrArg (_ ++ ·) (honward hd hne)
          | stop =>
              rw [hnext] at hsame
              rw [visit_of_cons hrest, visit_of_cons hrest, hsame, hnext, Option.toList_map]

/-- What is found in a text of fewer than `2 ^ 32` bytes has its place in words. -/
theorem FindsSpans.inWords_eq {span : α → Span} (h : FindsSpans span look) {c : Cursor} {x : α}
    (hsize : Text.size c.text < 2 ^ 32) (hx : (look c).1 = some x) : (span x).inWords = span x := by
  obtain ⟨-, s, rest, -, hrest, hspan⟩ := h c x hx
  rw [text, hrest, Text.size_append, Text.size_append, Text.size_reverse] at hsize
  have hoffset : c.offset = Text.size c.passed := rfl
  rw [hspan, spanTo_of_append hrest]
  exact Span.inWords_eq (by simp only; omega) (by simp only; omega)

end Cursor

end ScriptSurvey
