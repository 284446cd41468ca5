import Mathlib.Data.List.Basic
import ScriptSurvey.Proofs.Lexical.Sealed

/-!
# Texts without comments

What a program writes has strings in it, but no comments. A scan of such a text finds single
characters of code and strings that have their end, so it finds the same in front of any other text,
and nothing is lost when the comments are taken out.
-/

namespace ScriptSurvey.Text

/-- A text without comments, in which every string has its end and every character of code satisfies
`P`. -/
inductive Uncommented (P : Char → Prop) : Text → Prop
  | nil : Uncommented P []
  | code {c : Char} {t : Text} : isPlain c = true → P c → Uncommented P t → Uncommented P (c :: t)
  | literal {kind : LiteralKind} {body t : Text} : Body.ofLiteral kind body = ⟨body, [], true⟩ →
      Uncommented P t → Uncommented P (kind.delimiter :: body ++ t)

namespace Uncommented

variable {P Q : Char → Prop} {s t : Text}

theorem of_forall (h : ∀ c ∈ t, isPlain c = true ∧ P c) : Uncommented P t := by
  induction t with
  | nil => exact .nil
  | cons c t ih =>
      obtain ⟨hplain, hc⟩ := h c List.mem_cons_self
      exact .code hplain hc (ih fun d hd => h d (List.mem_cons_of_mem c hd))

theorem append (hs : Uncommented P s) (ht : Uncommented P t) : Uncommented P (s ++ t) := by
  induction hs with
  | nil => exact ht
  | code hplain hc _ ih => exact .code hplain hc ih
  | literal hbody _ ih =>
      rw [List.append_assoc]
      exact .literal hbody ih

theorem mono (h : ∀ c, P c → Q c) (ht : Uncommented P t) : Uncommented Q t := by
  induction ht with
  | nil => exact .nil
  | code hplain hc _ ih => exact .code hplain (h _ hc) ih
  | literal hbody _ ih => exact .literal hbody ih

theorem intercalate {sep : Text} (hsep : Uncommented P sep) {ts : List Text}
    (h : ∀ t ∈ ts, Uncommented P t) : Uncommented P (List.intercalate sep ts) := by
  induction ts with
  | nil => exact .nil
  | cons t ts ih =>
      have ht := h t List.mem_cons_self
      have hts := ih fun u hu => h u (List.mem_cons_of_mem t hu)
      cases ts with
      | nil =>
          rw [List.intercalate_singleton]
          exact ht
      | cons u ts =>
          rw [List.intercalate_cons_cons]
          exact (ht.append hsep).append hts

theorem commaJoin (hcomma : P ',') (hspace : P ' ') {ts : List Text}
    (h : ∀ t ∈ ts, Uncommented P t) : Uncommented P (commaJoin ts) :=
  intercalate (.code (by decide) hcomma (.code (by decide) hspace .nil)) h

theorem sealed (h : Uncommented P t) : t.Sealed := by
  induction h with
  | nil => exact .nil
  | @code c t hplain _ _ ih =>
      intro u
      rw [List.cons_append, runs_cons_of_isPlain hplain, runs_cons_of_isPlain hplain, ih u]
      rfl
  | literal hbody _ ih => exact (sealed_literal hbody).append ih

/-- The characters of code are those that may be there. -/
theorem of_mem_runs (h : Uncommented P t) {c : Char} (hc : Run.code c ∈ runs t) : P c := by
  induction h with
  | nil =>
      rw [runs_nil] at hc
      exact absurd hc List.not_mem_nil
  | @code d t hplain hd _ ih =>
      rw [runs_cons_of_isPlain hplain] at hc
      rcases List.mem_cons.mp hc with he | hc
      · rw [Run.code.inj he]
        exact hd
      · exact ih hc
  | literal hbody _ ih =>
      rw [runs_literal_append hbody] at hc
      rcases List.mem_cons.mp hc with he | hc
      · exact absurd he (by simp)
      · exact ih hc

/-- There is nothing to take out. -/
theorem stripComments (h : Uncommented P t) : stripComments t = t := by
  have hkeep : (runs t).map Run.blankComment = runs t := by
    induction h with
    | nil =>
        rw [runs_nil]
        rfl
    | code hplain _ _ ih =>
        rw [runs_cons_of_isPlain hplain, List.map_cons, ih]
        rfl
    | literal hbody _ ih =>
        rw [runs_literal_append hbody, List.map_cons, ih]
        rfl
  rw [ScriptSurvey.stripComments, hkeep, join_runs]

end Uncommented

end ScriptSurvey.Text
