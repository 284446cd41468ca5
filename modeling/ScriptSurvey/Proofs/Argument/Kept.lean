import ScriptSurvey.Proofs.Argument.Layout
import ScriptSurvey.Proofs.Argument.ReadBack
import ScriptSurvey.Proofs.Lexical.Brackets
import ScriptSurvey.Proofs.Lexical.Rescan

/-!
# Brackets that are kept

Reading takes runs apart and writing puts texts together again. A text is **kept** for some runs if
it is settled and has their brackets, and texts kept for parts make up a text kept for the whole:
between brackets of one kind, with plain characters between them, as a list. So what an argument is
written as has the brackets of what was read, as far as the reading was right about their pairs.
-/

namespace ScriptSurvey

open Run Nesting ScriptSurvey.Bracket

namespace Text

theorem isBlank_or_mem_trim {t : Text} {c : Char} (h : c ∈ t) : isBlank c = true ∨ c ∈ trim t := by
  have hfront := List.takeWhile_append_dropWhile (p := isBlank) (l := t)
  have hback := List.takeWhile_append_dropWhile (p := isBlank) (l := (trimStart t).reverse)
  rw [← hfront, List.mem_append] at h
  rcases h with h | h
  · exact Or.inl (List.mem_takeWhile_imp h)
  · have hr : c ∈ (trimStart t).reverse := List.mem_reverse.mpr h
    rw [← hback, List.mem_append] at hr
    rcases hr with hr | hr
    · exact Or.inl (List.mem_takeWhile_imp hr)
    · exact Or.inr (List.mem_reverse.mpr hr)

/-- A text of path characters and blanks, as callees are. -/
def IsNameText (t : Text) : Prop :=
  ∀ c ∈ t, isPathChar c = true ∨ isBlank c = true

theorem IsNameText.isPlain {t : Text} (h : t.IsNameText) : ∀ c ∈ t, isPlain c = true :=
  fun c hc => (h c hc).elim isPlain_of_isPathChar isPlain_of_isBlank

theorem IsNameText.not_mem_chars {t : Text} (h : t.IsNameText) : ∀ c ∈ t, c ∉ Bracket.chars := by
  have hpath : ∀ c ∈ Bracket.chars, isPathChar c = false ∧ isBlank c = false := by decide
  intro c hc hm
  rcases h c hc with hp | hp
  · rw [(hpath c hm).1] at hp
    exact Bool.noConfusion hp
  · rw [(hpath c hm).2] at hp
    exact Bool.noConfusion hp

theorem IsNameText.of_trim {t : Text} (h : (trim t).IsNameText) : t.IsNameText :=
  fun c hc => (isBlank_or_mem_trim hc).elim Or.inr (h c)

theorem IsNameText.of_isIdentifier {t : Text} (h : isIdentifier t = true) : t.IsNameText :=
  fun _ hc => Or.inl (isPathChar_of_mem (isDottedPath_of_isIdentifier h) hc)

theorem IsNameText.of_isCallee {t : Text} (h : Form.isCallee t = true) : t.IsNameText := by
  unfold Form.isCallee at h
  split at h
  · next path hpre =>
      have hnew : ∀ c ∈ ['n', 'e', 'w', ' '], isPathChar c = true ∨ isBlank c = true := by
        decide
      rw [← List.append_eq_of_isPrefixOf?_eq_some hpre]
      intro c hc
      rcases List.mem_append.mp hc with hc | hc
      · exact hnew c hc
      · rw [← List.takeWhile_append_dropWhile (p := isBlank) (l := path), List.mem_append] at hc
        rcases hc with hc | hc
        · exact Or.inr (List.mem_takeWhile_imp hc)
        · exact Or.inl (isPathChar_of_mem h hc)
  · exact fun c hc => Or.inl (isPathChar_of_mem h hc)

/-- Settled texts with commas between them are settled, and their runs are joined alike. -/
theorem runs_commaJoin_of_settled {ts : List Text} (h : ∀ t ∈ ts, t.Settled) :
    (commaJoin ts).Settled ∧ runs (commaJoin ts) = joinPieces (ts.map runs) := by
  have hcomma : IsJoiner [',', ' '] := ⟨by decide, by decide, by decide⟩
  refine runs_commaJoin .nil (fun t u ht hu => ⟨ht.append hcomma hu, ?_⟩) h
  exact runs_joiner ht hcomma u

end Text

/-- A text that stands for some runs: settled, with the same brackets. -/
structure Kept (t : Text) (rs : List Run) : Prop where
  settled : t.Settled
  same : Same (runs t) rs

namespace Kept

theorem trans {t : Text} {p q : List Run} (h : Kept t p) (hs : Same p q) : Kept t q :=
  ⟨h.settled, h.same.trans hs⟩

/-- Sound runs without trivia at their end, as a text. -/
theorem join {rs : List Run} (hs : Sound rs)
    (hlast : ∀ r, rs.getLast? = some r → r.isTrivia = false) :
    Kept (Run.join rs) rs := by
  refine ⟨Text.settled_join hs fun r hr hmode => ?_, ?_⟩
  · have := hlast r hr
    cases r with
    | code c => exact absurd hmode (by simp [Run.mode])
    | comment k t => exact absurd this (by simp [isTrivia])
    | literal k t => exact absurd hmode (by simp [Run.mode])
  · rw [hs.stable]
    exact .refl rs

theorem join_trim {rs : List Run} (hs : Sound rs) : Kept (Run.join (Run.trim rs)) rs :=
  (join (hs.of_isInfix (isInfix_trim rs)) (last_trim rs)).trans (same_trim rs)

/-- A text without brackets for runs without brackets. -/
theorem of_isNameText {t : Text} (h : t.IsNameText) {rs : List Run}
    (hrs : (Run.join rs).IsNameText) : Kept t rs := by
  refine ⟨.of_isPlain h.isPlain, Whole.same ?_ (whole_of_join hrs.not_mem_chars)⟩
  rw [Text.runs_of_isPlain h.isPlain]
  exact whole_map_code h.not_mem_chars

/-- Two texts with plain characters between them, for runs with anything whole between them. -/
theorem append {s m t : Text} {p w q : List Run} (hs : Kept s p) (hm : m.IsJoiner)
    (hmw : Whole (m.map code)) (hw : Whole w) (ht : Kept t q) :
    Kept (s ++ (m ++ t)) (p ++ (w ++ q)) := by
  refine ⟨hs.settled.append hm ht.settled, ?_⟩
  rw [Text.runs_joiner hs.settled hm]
  exact hs.same.append ((hmw.same hw).append ht.same)

/-- A text in brackets, for runs in the same brackets. -/
theorem bracketed {o c : Char} (h : (o, c) ∈ bracketPairs) {t : Text} {rs : List Run}
    (ht : Kept t rs) : Kept ([o] ++ (t ++ [c])) (code o :: (rs ++ [code c])) := by
  have hc : Text.IsJoiner [c] := by
    refine ⟨by simpa using (Text.isPlain_bracket h).2, by simp, ?_⟩
    simp only [bracketPairs, List.mem_cons, Prod.mk.injEq, List.not_mem_nil, or_false] at h
    rcases h with ⟨_, rfl⟩ | ⟨_, rfl⟩ | ⟨_, rfl⟩ | ⟨_, rfl⟩ <;> decide
  have ho : ∀ d ∈ [o], Text.isPlain d = true := by simpa using (Text.isPlain_bracket h).1
  have htail := ht.settled.append hc .nil
  have hruns := Text.runs_joiner ht.settled hc []
  rw [List.append_nil] at htail hruns
  refine ⟨.cons_plain ho htail, ?_⟩
  rw [Text.runs_append_of_isPlain ho, hruns, runs_nil]
  exact Same.cons (code o) (ht.same.append (.refl _))

/-- A list of texts, for runs one after another. -/
theorem commaJoin {α : Type} {as : List α} {f : α → Text} {g : α → List Run}
    (h : ∀ a ∈ as, Kept (f a) (g a)) :
    Kept (Text.commaJoin (as.map f)) (as.map g).flatten := by
  have hsettled : ∀ t ∈ as.map f, t.Settled := by
    intro t ht
    obtain ⟨a, ha, rfl⟩ := List.mem_map.mp ht
    exact (h a ha).settled
  obtain ⟨hs, hr⟩ := Text.runs_commaJoin_of_settled hsettled
  refine ⟨hs, ?_⟩
  rw [hr, List.map_map]
  exact (same_joinPieces _).trans (same_flatten fun a ha => (h a ha).same)

/-- Pieces between commas are sound, and end in no trivia. -/
theorem sound_of_mem_splitAtCommas {rs p : List Run} (hs : Sound rs)
    (hp : p ∈ Run.splitAtCommas rs) :
    Sound p ∧ ∀ r, p.getLast? = some r → r.isTrivia = false := by
  refine ⟨hs.of_isInfix (isInfix_of_mem_splitAtCommas hp), ?_⟩
  rw [Run.splitAtCommas, List.mem_filter, List.mem_map] at hp
  obtain ⟨⟨q, _, rfl⟩, _⟩ := hp
  exact last_trim q

/-- A list written piece by piece, for the runs it was split from. -/
theorem pieces {rs : List Run} (hs : Sound rs) {f : List Run → Text}
    (h : ∀ p ∈ Run.splitAtCommas rs, Sound p →
      (∀ r, p.getLast? = some r → r.isTrivia = false) → Kept (f p) p) :
    Kept (Text.commaJoin ((Run.splitAtCommas rs).map f)) rs := by
  have hlist := commaJoin (g := id) fun p hp =>
    h p hp (sound_of_mem_splitAtCommas hs hp).1 (sound_of_mem_splitAtCommas hs hp).2
  rw [List.map_id] at hlist
  exact hlist.trans (same_splitAtCommas rs)

end Kept

end ScriptSurvey
