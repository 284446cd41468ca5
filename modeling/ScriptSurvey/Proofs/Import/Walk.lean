import ScriptSurvey.Proofs.Import.Spelling
import ScriptSurvey.Proofs.Lexical.Reach

/-!
# Cursors over tokens and trivia

How a cursor moves over a text that spells tokens: it skips the trivia in front of a token, it tells
a keyword from any other word, and it finds the `from` that ends a clause.
-/

namespace ScriptSurvey

namespace Cursor

/-! ## Over trivia -/

theorem skipTrivia_gap {g t : Text} (hg : Text.IsTrivia g) (p : Text) :
    skipTrivia ⟨p, g ++ t, .code⟩ = skipTrivia ⟨g.reverse ++ p, t, .code⟩ := by
  induction hg using Text.IsTrivia.run_induction generalizing p with
  | nil => rfl
  | run r g _ _ hr hleads ih =>
      have htrivia : r.isTrivia = true := by
        rcases hr with hr | ⟨c, rfl, hc⟩
        · cases r with
          | code c => exact absurd hr (by simp [Run.mode, Mode.isComment])
          | comment kind x => rfl
          | literal kind x => exact absurd hr (by simp [Run.mode, Mode.isComment])
        · rw [Run.isTrivia, Text.isWhiteSpace, hc, Bool.true_or]
      rw [List.append_assoc, skipTrivia_of_leads (hleads t), if_pos htrivia, ih,
        List.reverse_append, List.append_assoc]

/-- A token stops a cursor that skips trivia. -/
theorem skipTrivia_token {IsGap : Text → Prop} {k : Token} {ks : List Token} {t : Text}
    (h : Spells IsGap (k :: ks) t) (p : Text) : skipTrivia ⟨p, t, .code⟩ = ⟨p, t, .code⟩ := by
  obtain ⟨g, u, rfl, -⟩ := h.exists_cons
  obtain ⟨r, s, hk, hleads, hr⟩ := k.exists_run
  rw [hk, List.append_assoc, skipTrivia_of_leads (hleads _), if_neg (by rw [hr]; simp)]

/-! ## Keywords -/

/-- Whether a keyword can begin behind the characters, given nearest first. -/
def AllowsWord (p : Text) : Prop :=
  ∀ c, p.head? = some c → Text.IsApart c

theorem allowsWord_cons {c : Char} (h : Text.IsApart c) (p : Text) : AllowsWord (c :: p) := by
  intro d hd
  exact Option.some.inj hd ▸ h

/-- Trivia lets a keyword begin, unless there is none of it. -/
theorem allowsWord_gap {g p : Text} (hg : Text.IsTrivia g) (h : g = [] → AllowsWord p) :
    AllowsWord (g.reverse ++ p) := by
  intro c hc
  rw [List.head?_append, List.head?_reverse] at hc
  cases hlast : g.getLast? with
  | none =>
      rw [hlast, Option.none_or] at hc
      exact h (List.getLast?_eq_none_iff.mp hlast) c hc
  | some d =>
      rw [hlast, Option.some_or, Option.some.injEq] at hc
      exact hc ▸ hg.isApart.2 d hlast

/-- A keyword is a word of its own: one can begin in front of it, and none goes on behind it. -/
theorem atKeyword_iff {word : Text} {c : Cursor} :
    c.atKeyword word = true ↔
      AllowsWord c.passed ∧ ∃ after, c.rest = word ++ after ∧ Text.EndsWord after := by
  rw [atKeyword]
  cases hfront : List.isPrefixOf? word c.rest with
  | none =>
      refine ⟨fun h => absurd h Bool.false_ne_true, ?_⟩
      rintro ⟨-, after, hrest, -⟩
      rw [hrest, Text.isPrefixOf?_append] at hfront
      exact absurd hfront (by simp)
  | some after =>
      -- the text behind the word is unique, so the last condition is about it
      have hrest := List.append_eq_of_isPrefixOf?_eq_some hfront
      have hahead : (∃ u, c.rest = word ++ u ∧ Text.EndsWord u) ↔ Text.EndsWord after := by
        constructor
        · rintro ⟨u, hu, hends⟩
          exact List.append_cancel_left (hrest.trans hu) ▸ hends
        · exact fun hends => ⟨after, hrest.symm, hends⟩
      rw [hahead]
      refine Bool.and_eq_true_iff.trans (and_congr ?_ ?_)
      · cases c.passed with
        | nil => simp [AllowsWord]
        | cons d p => simp [AllowsWord, Text.IsApart, and_assoc]
      · cases after with
        | nil => simp [Text.EndsWord]
        | cons d t => simp [Text.EndsWord]

theorem atKeyword_self {w : Name} {p t : Text} (hp : AllowsWord p) (ht : Text.EndsWord t) :
    atKeyword w.text ⟨p, w.text ++ t, .code⟩ = true :=
  atKeyword_iff.mpr ⟨hp, t, rfl, ht⟩

theorem atKeyword_of_spells {w : Name} {ks : List Token} {p t : Text} (hp : AllowsWord p)
    (h : Spells Text.IsTrivia (.word w :: ks) t) : atKeyword w.text ⟨p, t, .code⟩ = true := by
  obtain ⟨g, u, rfl, hg, hmeet, hu⟩ := h.exists_cons
  exact atKeyword_self hp (hu.endsWord hg hmeet)

/-- A word that the keyword does not equal is not the keyword. -/
theorem atKeyword_of_ne {v w : Name} {p t : Text} (hne : w.text ≠ v.text) (ht : Text.EndsWord t) :
    atKeyword v.text ⟨p, w.text ++ t, .code⟩ = false := by
  rw [Bool.eq_false_iff]
  intro h
  obtain ⟨-, after, hsplit, hafter⟩ := atKeyword_iff.mp h
  rcases List.append_eq_append_iff.mp hsplit with ⟨s, hv, hs⟩ | ⟨s, hw, hs⟩
  · -- the keyword goes on where the word ends
    cases s with
    | nil => exact hne (by rw [hv, List.append_nil])
    | cons c s =>
        have hpart := v.isPart (c := c) (by rw [hv]; simp)
        exact Bool.false_ne_true ((ht c (by rw [hs]; rfl)).symm.trans hpart)
  · -- the word goes on where the keyword ends
    cases s with
    | nil => exact hne (by rw [hw, List.append_nil])
    | cons c s =>
        have hpart := w.isPart (c := c) (by rw [hw]; simp)
        exact Bool.false_ne_true ((hafter c (by rw [hs]; rfl)).symm.trans hpart)

theorem atKeyword_inside {v : Name} {c : Char} (h : Text.isIdentifierPart c = true) (p t : Text) :
    atKeyword v.text ⟨c :: p, t, .code⟩ = false := by
  rw [Bool.eq_false_iff]
  intro hword
  have hapart := (atKeyword_iff.mp hword).1 c rfl
  exact Bool.false_ne_true (hapart.1.symm.trans h)

theorem atKeyword_of_endsWord {v : Name} {c : Cursor} (h : Text.EndsWord c.rest) :
    c.atKeyword v.text = false := by
  rw [Bool.eq_false_iff]
  intro hword
  obtain ⟨-, after, hrest, -⟩ := atKeyword_iff.mp hword
  obtain ⟨d, s, hv, hd⟩ := v.exists_cons
  exact Bool.false_ne_true ((h d (by rw [hrest, hv]; rfl)).symm.trans hd)

end Cursor

end ScriptSurvey
