import ScriptSurvey.Proofs.Lexical.Ends
import ScriptSurvey.Proofs.Lexical.Reach
import ScriptSurvey.Proofs.Text.Identifier

/-!
# Texts without the blanks behind them

A reader that trims the blanks from the end of a text and scans what is left finds the same runs in it,
up to the last ones. Most blanks are runs of their own; others are the end of a line comment, or of a
string without its closing quote, and what is left of that is a comment or a string still. So no bracket
comes or goes with the blanks.
-/

namespace ScriptSurvey

namespace Run

variable {r : Run} {rs : List Run} {s g : Text}

theorem shift_of_not_code {r : Run} (h : r.mode.isCode = false) (e : Bool) : r.shift e = .stays := by
  cases r with
  | code c => exact absurd h Bool.noConfusion
  | comment kind text => rfl
  | literal kind text => rfl

theorem shift_of_isBlank {c : Char} (h : Text.isBlank c = true) (e : Bool) :
    (code c).shift e = .stays := by
  unfold shift
  split <;> first | rfl | exact absurd h (by simp_all +decide)

theorem shift_of_not_isPlain {c : Char} (h : Text.isPlain c = false) (e : Bool) :
    (code c).shift e = .stays := by
  unfold shift
  split <;> first | rfl | exact absurd h (by simp_all +decide)

/-- What is left of a comment or a string that ends in blanks is one run without them, and no bracket. -/
theorem exists_runs_of_cut (h : Stable (r :: rs)) (hr : r.mode.isCode = false) (hcut : r.text = s ++ g)
    (hg : Text.IsBlanks g) (hne : g ≠ []) : ∃ q, runs s = [q] ∧ ∀ e, q.shift e = .stays := by
  obtain ⟨o, u, htext, ho⟩ := exists_text_eq_cons h hr
  obtain ⟨c, t, hfirst, hrest, -⟩ := h.exists_first
  have happend := Step.first_append c t
  rw [hfirst, hrest] at happend
  cases s with
  | nil =>
      -- the first character is no blank
      have hblank := hg o (by rw [← List.nil_append g, ← hcut, htext]; exact List.mem_cons_self)
      rw [Text.isPlain_of_isBlank hblank] at ho
      exact Bool.noConfusion ho
  | cons x s =>
      rw [htext, List.cons_append] at hcut
      obtain ⟨rfl, rfl⟩ := List.cons.inj hcut
      rw [htext, List.cons_append, List.append_assoc] at happend
      obtain ⟨rfl, rfl⟩ := List.cons.inj happend
      have hwhole : (Step.first o s).rest = [] := by
        by_contra hmore
        have hagain := Step.first_append_of_rest hmore (g ++ join rs)
        have hlength := congrArg List.length (Step.first_append o s)
        rw [hagain] at hfirst
        have hrun : (Step.first o s).run = r := hfirst
        rw [hrun, htext, List.length_append, List.length_cons, List.length_append,
          List.length_cons] at hlength
        have hpos := List.length_pos_iff.mpr hne
        omega
      refine ⟨(Step.first o s).run, by rw [runs_cons, hwhole, runs_nil], fun e => ?_⟩
      have hone := Step.first_append o s
      cases hrun : (Step.first o s).run with
      | code c =>
          rw [hrun] at hone
          rw [(List.cons.inj hone).1]
          exact shift_of_not_isPlain ho e
      | comment kind text => rfl
      | literal kind text => rfl

/-- Where a text that begins with a run ends: behind that run, or in it. -/
theorem text_append_or (hjoin : join (r :: rs) = s ++ g) :
    (∃ s', s = r.text ++ s' ∧ join rs = s' ++ g) ∨
      ∃ g', r.text = s ++ g' ∧ g = g' ++ join rs ∧ g' ≠ [] := by
  rcases List.append_eq_append_iff.mp hjoin with ⟨s', hs, hrest⟩ | ⟨g', hs, hrest⟩
  · exact .inl ⟨s', hs, hrest⟩
  · by_cases hnil : g' = []
    · rw [hnil, List.append_nil] at hs
      rw [hnil, List.nil_append] at hrest
      exact .inl ⟨[], by rw [hs, List.append_nil], hrest.symm⟩
    · exact .inr ⟨g', hs, hrest, hnil⟩

/-- The first run is still there when the text is cut behind it. -/
theorem runs_text_append (h : Stable (r :: rs)) (hs : s <+: join rs) :
    runs (r.text ++ s) = r :: runs s := by
  obtain ⟨c, t, hfirst, hbehind, -⟩ := h.exists_first
  have hprefix : s <+: (Step.first c t).rest := by rwa [hbehind]
  obtain ⟨x, v, hcons, hrun, htail⟩ := Step.exists_first_of_prefix c t hprefix
  rw [hfirst] at hcons hrun
  rw [hcons, runs_cons, hrun, htail]

/-- Nothing is left of a character that is cut. -/
theorem eq_nil_of_cut_code (hr : r.mode.isCode = true) (hcut : r.text = s ++ g) (hne : g ≠ []) : s = [] := by
  obtain ⟨c, rfl⟩ := exists_eq_code hr
  have hlength := congrArg List.length hcut
  have hpos := List.length_pos_iff.mpr hne
  rw [List.length_append, Run.text, List.length_singleton] at hlength
  exact List.length_eq_zero_iff.mp (by omega)

/-- **Without the blanks behind it,** a text has the same runs, up to some that are no brackets. -/
theorem exists_runs_of_append_blanks (h : Stable rs) (hjoin : join rs = s ++ g) (hg : Text.IsBlanks g) :
    ∃ p q b, runs s = p ++ q ∧ rs = p ++ b ∧ ∀ r ∈ q ++ b, ∀ e, r.shift e = .stays := by
  have hblank {rs : List Run} (hrs : ∀ c ∈ join rs, Text.isBlank c = true) :
      ∀ r ∈ rs, ∀ e, r.shift e = .stays := by
    intro r hr e
    cases r with
    | code c =>
        refine shift_of_isBlank (hrs c ?_) e
        rw [join, List.mem_flatMap]
        exact ⟨code c, hr, List.mem_singleton_self c⟩
    | comment kind text => rfl
    | literal kind text => rfl
  induction rs generalizing s with
  | nil =>
      refine ⟨[], [], [], ?_, rfl, by simp⟩
      rw [(List.append_eq_nil_iff.mp hjoin.symm).1, runs_nil]
      rfl
  | cons r rs ih =>
      have hrs : Stable rs := h.of_append_right (p := [r])
      rcases text_append_or hjoin with ⟨s', rfl, hrest⟩ | ⟨g', hcut, rfl, hne⟩
      · obtain ⟨p, q, b, hs, rfl, hstays⟩ := ih hrs hrest
        exact ⟨r :: p, q, b, by rw [runs_text_append h ⟨g, hrest.symm⟩, hs]; rfl, rfl, hstays⟩
      · -- the cut is in the first run, and all that stands behind is blank
        have hg' : Text.IsBlanks g' := fun c hc => hg c (List.mem_append_left _ hc)
        have hbehind := hblank fun c hc => hg c (List.mem_append_right g' hc)
        cases hcode : r.mode.isCode with
        | true =>
            have hs := eq_nil_of_cut_code hcode hcut hne
            refine ⟨[], [], r :: rs, by rw [hs, runs_nil]; rfl, rfl, hblank fun c hc => ?_⟩
            rw [List.nil_append, join_cons, hcut, hs, List.nil_append] at hc
            exact hg c hc
        | false =>
            obtain ⟨q, hq, hstill⟩ := exists_runs_of_cut h hcode hcut hg' hne
            refine ⟨[], [q], r :: rs, hq, rfl, ?_⟩
            simp only [List.singleton_append, List.forall_mem_cons]
            exact ⟨hstill, shift_of_not_code hcode, hbehind⟩

end Run

end ScriptSurvey
