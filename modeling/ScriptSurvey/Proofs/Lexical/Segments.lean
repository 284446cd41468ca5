import Mathlib.Data.List.Forall2
import ScriptSurvey.Proofs.Lexical.Cuts
import ScriptSurvey.Proofs.Lexical.Pieces
import ScriptSurvey.Proofs.Lexical.Rescan

/-!
# Segments of a list

A split at commas scans a text, cuts its runs at the commas outside brackets and trims what lies
between. Each segment is a text of its own then, and is scanned again by whoever reads it. Nothing
of that depends on where the segment stood:

* **nothing is lost**: the runs of the segments are the runs of the text, without the commas at depth
  zero and the trivia at the ends of what lies between them;
* **a segment is one segment**: trimming and splitting it again gives it back;
* **a written list is split as it was**: with a comma and a space between the segments, a split finds
  them again, unless a string that a line feed has ended stands where its line now goes on.

The text need not make sense. A closing bracket too many leaves the depth at zero, and a bracket or
a string that is never closed is in the last segment.
-/

namespace ScriptSurvey

open Run Nesting

/-! ## Strings in front of a comma -/

namespace Body

/-- A closed literal that line feeds do not end is closed by its own delimiter. -/
theorem ofLiteral_text_of_closed {kind : LiteralKind} (hkind : kind.endsAtLineFeed = false)
    {t : Text} (h : (ofLiteral kind t).closed = true) :
    ofLiteral kind (ofLiteral kind t).text = ⟨(ofLiteral kind t).text, [], true⟩ := by
  induction t using literal_induction kind with
  | nil => exact absurd h (by simp [ofLiteral])
  | lone => exact absurd h (by simp [ofLiteral])
  | escape c t ih =>
      rw [ofLiteral_escape] at h ⊢
      show ofLiteral kind ('\\' :: c :: (ofLiteral kind t).text) = _
      rw [ofLiteral_escape, ih h]
      rfl
  | delimiter t =>
      rw [ofLiteral_delimiter]
      exact ofLiteral_delimiter kind []
  | lineFeed t hk =>
      rw [hk] at hkind
      exact Bool.noConfusion hkind
  | inside c t hc hd hn ih =>
      rw [ofLiteral_inside hc hd hn] at h ⊢
      show ofLiteral kind (c :: (ofLiteral kind t).text) = _
      rw [ofLiteral_inside hc hd hn, ih h]
      rfl

end Body

namespace Run

/-- A closed run is found in front of a comma. -/
theorem leads_comma {r : Run} (h : Stable [r]) (hclosed : r.isClosed = true)
    (htrivia : r.isTrivia = false) (u : Text) : r.Leads (',' :: u) := by
  obtain ⟨c, t, hr, _, _⟩ := h.exists_first
  rw [← hr] at hclosed ⊢
  refine leads_first hclosed ?_
  rw [hr]
  cases r with
  | code d => exact fun _ => ⟨by simp, by simp⟩
  | comment kind t => exact absurd htrivia (by simp [isTrivia])
  | literal kind t => trivial

/-- Whether the run is a string in single or double quotes that lacks its closing quote. -/
def isOpenQuote : Run → Bool
  | literal kind t => kind.endsAtLineFeed && !(literal kind t).isClosed
  | _ => false

/-- Of the runs with something behind them, only such a string lacks its end. -/
theorem isClosed_of_stable {r : Run} {rs : List Run} (h : Stable (r :: rs)) (hne : rs ≠ [])
    (hquote : r.isOpenQuote = false) (htrivia : r.isTrivia = false) : r.isClosed = true := by
  -- with runs behind it, the run was not cut off by the end of the text
  obtain ⟨c, t, hr, hrest, hs⟩ := h.exists_first
  have hrest : (Step.first c t).rest ≠ [] := by
    intro hnil
    rw [hrest] at hnil
    rw [Stable, hnil, runs_nil] at hs
    exact hne hs.symm
  have hf := Step.isFirst c t
  generalize Step.first c t = s at hf hr hrest
  subst hr
  cases hf with
  | line t => exact absurd htrivia (by simp [isTrivia])
  | block t => exact absurd htrivia (by simp [Step.ofBody, isTrivia])
  | literal kind t =>
      have hclosed : (Body.ofLiteral kind t).closed = true := by
        by_contra ho
        exact hrest (Body.ofLiteral_rest_of_open (by simpa using ho))
      cases hk : kind.endsAtLineFeed with
      | true => simpa [Step.ofBody, isOpenQuote, hk] using hquote
      | false =>
          have := Body.ofLiteral_text_of_closed hk hclosed
          simpa [Step.ofBody, isClosed] using this
  | code _ _ => rfl

end Run

/-! ## The commas at depth zero -/

namespace Nesting

/-- Runs that begin with some nesting, and the pieces between their commas at depth zero. -/
inductive CutsAtCommas : Nesting → List Run → List (List Run) → Prop where
  | last {n : Nesting} {p : List Run}
      (inner : ∀ a b, p = a ++ code ',' :: b → (n.after a).depth ≠ 0) :
      CutsAtCommas n p [p]
  | comma {n : Nesting} {p rs : List Run} {ps : List (List Run)}
      (inner : ∀ a b, p = a ++ code ',' :: b → (n.after a).depth ≠ 0)
      (zero : (n.after p).depth = 0)
      (rest : CutsAtCommas (n.after (p ++ [code ','])) rs ps) :
      CutsAtCommas n (p ++ code ',' :: rs) (p :: ps)

/-- Behind a comma at depth zero a walk is where it began. -/
theorem after_comma {n : Nesting} {p : List Run} (h : (n.after p).depth = 0) :
    n.after (p ++ [code ',']) = outermost := by
  rw [after_append, after_cons, behind_of_isFlat rfl, h]
  rfl

theorem cutsAtCommas_pieces (n : Nesting) (rs : List Run) : n.CutsAtCommas rs (n.pieces rs) := by
  induction rs generalizing n with
  | nil => exact .last fun a b h => absurd h (by simp)
  | cons r rs ih =>
      have hrest := ih (n.behind r)
      rw [pieces]
      split
      · next hcomma =>
          have hr : r = code ',' := by simpa [isChar] using hcomma.2
          have hafter : n.after ([] ++ [code ',']) = n.behind r := by rw [hr]; rfl
          rw [hr] at hrest ⊢
          exact .comma (p := []) (fun a b h => absurd h (by simp)) hcomma.1 hrest
      · next hcomma =>
          -- the first run joins the first piece, and is no comma at depth zero itself
          have hinner {p : List Run}
              (h : ∀ a b, p = a ++ code ',' :: b → ((n.behind r).after a).depth ≠ 0) (a b : List Run)
              (hp : r :: p = a ++ code ',' :: b) : (n.after a).depth ≠ 0 := by
            cases a with
            | nil =>
                obtain ⟨rfl, -⟩ := List.cons.inj hp
                exact fun hz => hcomma ⟨hz, rfl⟩
            | cons s a =>
                obtain ⟨rfl, rfl⟩ := List.cons.inj hp
                exact h a b rfl
          revert hrest
          generalize (n.behind r).pieces rs = found
          intro hrest
          cases hrest with
          | last inner => exact .last (hinner inner)
          | comma inner zero rest => exact .comma (p := r :: _) (hinner inner) zero rest

/-- A cut at a character finds none exactly if each of them stands behind an open bracket. -/
theorem cutAtFirst_eq_none_iff {w : Char} {n : Nesting} {p : List Run} :
    n.cutAtFirst [w] p = none ↔ ∀ a b, p = a ++ code w :: b → (n.after a).depth ≠ 0 := by
  induction p generalizing n with
  | nil => exact iff_of_true rfl fun a b h => absurd h (by simp)
  | cons r p ih =>
      rw [cutAtFirst_cons_eq_none_iff, dropCode?_singleton_iff, ih]
      constructor
      · rintro ⟨hr, hrest⟩ a b hp
        cases a with
        | nil => exact hr.resolve_left (not_not.mpr (List.cons.inj hp).1)
        | cons s a =>
            obtain ⟨rfl, rfl⟩ := List.cons.inj hp
            exact hrest a b rfl
      · intro h
        refine ⟨?_, fun a b hp => h (r :: a) b (by rw [hp]; rfl)⟩
        by_cases hr : r = code w
        · exact .inr (h [] p (by rw [hr]; rfl))
        · exact .inl hr

end Nesting

namespace Run

/-! ## What a split at commas finds -/

/-- The pieces without trivia at their ends, and without those of which nothing is left. -/
def segments (pieces : List (List Run)) : List (List Run) :=
  (pieces.map trim).filter fun p => !p.isEmpty

theorem segments_cons (p : List Run) (ps : List (List Run)) :
    segments (p :: ps) = if trim p = [] then segments ps else trim p :: segments ps := by
  rw [segments, List.map_cons, List.filter_cons]
  cases h : trim p with
  | nil => rfl
  | cons r q => rfl

theorem lacksComma_trim {p : List Run}
    (inner : ∀ a b, p = a ++ code ',' :: b → (outermost.after a).depth ≠ 0) :
    Lacks [','] (trim p) :=
  (losesTrivia_trim p).lacksComma_iff.mp (cutAtFirst_eq_none_iff.mpr inner)

/-- What is left of the pieces between commas is what a split finds between commas. -/
theorem areSegments_of_cutsAtCommas {n : Nesting} {rs : List Run} {ps : List (List Run)}
    (h : n.CutsAtCommas rs ps) (hn : n = outermost) : AreSegments (segments ps) := by
  induction h with
  | last inner =>
      subst hn
      rw [segments_cons]
      split
      · exact .nil
      · next ht => exact .cons (lacksComma_trim inner) (trimmed_trim ht) (absurd rfl) .nil
  | @comma n p _ _ inner zero rest ih =>
      subst hn
      have hrest := ih (after_comma zero)
      have hdepth := (losesTrivia_trim p).depth_after.symm.trans zero
      rw [segments_cons]
      split
      · exact hrest
      · next ht => exact .cons (lacksComma_trim inner) (trimmed_trim ht) (fun _ => hdepth) hrest

/-- Each segment but the last has something behind it. -/
theorem exists_behind_segment {n : Nesting} {rs : List Run} {ps : List (List Run)}
    (h : n.CutsAtCommas rs ps) {q : List Run} (hq : q ∈ (segments ps).dropLast) :
    ∃ x y, rs = x ++ (q ++ y) ∧ y ≠ [] := by
  induction h with
  | last inner =>
      rw [segments_cons] at hq
      split at hq <;> exact absurd hq List.not_mem_nil
  | @comma n p rs ps inner zero rest ih =>
      have hthere (hq : q ∈ (segments ps).dropLast) :
          ∃ x y, p ++ code ',' :: rs = x ++ (q ++ y) ∧ y ≠ [] := by
        obtain ⟨x, y, rfl, hy⟩ := ih hq
        exact ⟨p ++ code ',' :: x, y, by simp, hy⟩
      rw [segments_cons] at hq
      split at hq
      · exact hthere hq
      · cases hs : segments ps with
        | nil =>
            rw [hs] at hq
            exact absurd hq List.not_mem_nil
        | cons s ss =>
            rw [hs, List.dropLast_cons_cons, List.mem_cons, ← hs] at hq
            rcases hq with rfl | hq
            · obtain ⟨a, b, hp, _⟩ := exists_trim p
              refine ⟨a, b ++ code ',' :: rs, ?_, by simp⟩
              rw [← List.append_assoc (trim p), ← List.append_assoc a, ← hp]
            · exact hthere hq

theorem areSegments_splitAtCommas (rs : List Run) : AreSegments (splitAtCommas rs) :=
  areSegments_of_cutsAtCommas (cutsAtCommas_pieces outermost rs) rfl

/-- Each segment is the runs of its own text. -/
theorem stable_of_mem_splitAtCommas {t : Text} {q : List Run}
    (h : q ∈ splitAtCommas (runs t)) : Stable q :=
  (stable_runs t).of_isInfix (isInfix_of_mem_splitAtCommas h)

/-- With something behind it, trimmed runs are found again in front of a comma, unless they end in a
string without its closing quote. -/
theorem runs_append_comma {x q y : List Run} (h : Stable (x ++ (q ++ y))) (hy : y ≠ [])
    (ht : Trimmed q) (hquote : ∀ r, q.getLast? = some r → r.isOpenQuote = false) (u : Text) :
    runs (join q ++ ',' :: u) = q ++ code ',' :: runs u := by
  have hq := h.of_append_right
  rw [hq.of_append_left.runs_append_of_last, Text.runs_cons_of_isPlain (by decide)]
  intro r hr
  obtain ⟨q', rfl⟩ := List.getLast?_eq_some_iff.mp hr
  rw [List.append_assoc] at hq
  have hlast : Stable ([r] ++ y) := hq.of_append_right
  have htrivia := ht.last r hr
  exact leads_comma hlast.of_append_left (isClosed_of_stable hlast hy (hquote r hr) htrivia) htrivia u

end Run

namespace Text

/-- Whether the text ends in a string in single or double quotes that lacks its closing quote. -/
def EndsInOpenQuote (t : Text) : Prop :=
  ∃ r, (runs t).getLast? = some r ∧ r.isOpenQuote = true

instance (t : Text) : Decidable t.EndsInOpenQuote :=
  decidable_of_iff ((runs t).getLast?.any isOpenQuote = true) (Option.any_eq_true ..)

end Text

namespace Run

/-- Segments of a text, with a comma and a space between them, have the runs they had. -/
theorem runs_commaJoin_segments {t : Text} {qs : List (List Run)}
    (hqs : ∀ q ∈ qs, Stable q ∧ Trimmed q)
    (hplace : ∀ q ∈ qs.dropLast, ∃ x y, runs t = x ++ (q ++ y) ∧ y ≠ [])
    (hquote : ∀ q ∈ qs.dropLast, ¬Text.EndsInOpenQuote (join q)) :
    runs (Text.commaJoin (qs.map join)) = joinPieces qs := by
  induction qs with
  | nil => exact runs_nil
  | cons p qs ih =>
      obtain ⟨hstable, htrimmed⟩ := hqs p List.mem_cons_self
      cases qs with
      | nil =>
          rw [joinPieces_singleton, List.map_singleton, Text.commaJoin, List.intercalate_singleton]
          exact hstable
      | cons q qs =>
          rw [List.dropLast_cons_cons, List.forall_mem_cons] at hplace hquote
          have hrest := ih (fun s hs => hqs s (List.mem_cons_of_mem p hs)) hplace.2 hquote.2
          have hjoin : Text.commaJoin ((p :: q :: qs).map join) =
              join p ++ ',' :: (' ' :: Text.commaJoin ((q :: qs).map join)) := by
            rw [List.map_cons, List.map_cons, Text.commaJoin, List.intercalate_cons_cons,
              List.append_assoc]
            rfl
          -- in the text something stood behind the segment, and it has no open string: now a comma may follow
          obtain ⟨x, y, hx, hy⟩ := hplace.1
          rw [hjoin, runs_append_comma (hx ▸ stable_runs t) hy htrimmed,
            Text.runs_cons_of_isPlain (by decide), hrest, joinPieces_cons_cons]
          intro r hr
          by_contra ho
          refine hquote.1 ⟨r, ?_, by simpa using ho⟩
          rw [hstable]
          exact hr

theorem map_runs_splitAtCommas (t : Text) :
    (ScriptSurvey.splitAtCommas t).map runs = splitAtCommas (runs t) := by
  rw [ScriptSurvey.splitAtCommas, List.map_map]
  refine (List.map_congr_left fun q hq => ?_).trans (List.map_id _)
  exact stable_of_mem_splitAtCommas hq

end Run

/-- **A split at commas loses nothing and comes out the same when it is made again.** Its segments
are what lies between the commas at depth zero, without trivia at the ends and as the same runs; each
of them is split and trimmed already; and a list of them is split into the same ones, if no segment
but the last ends in a string that lacks its closing quote. -/
theorem splitAtCommas_lossless (t : Text) :
    (∀ s ∈ splitAtCommas t, s ≠ [] ∧ trimTrivia s = s ∧ splitAtCommas s = [s]) ∧
    (∃ pieces cores, outermost.CutsAtCommas (runs t) pieces ∧ List.Forall₂ LosesTrivia pieces cores ∧
      (splitAtCommas t).map runs = cores.filter fun q => !q.isEmpty) ∧
    ((∀ s ∈ (splitAtCommas t).dropLast, ¬s.EndsInOpenQuote) →
      splitAtCommas (Text.commaJoin (splitAtCommas t)) = splitAtCommas t) := by
  have hcuts := cutsAtCommas_pieces outermost (runs t)
  have hsegments := areSegments_splitAtCommas (runs t)
  refine ⟨?_, ?_, ?_⟩
  · intro s hs
    obtain ⟨q, hq, rfl⟩ := List.mem_map.mp hs
    have hruns : runs (join q) = q := stable_of_mem_splitAtCommas hq
    have ht := hsegments.trimmed q hq
    have htrim := trim_of_trimmed ht
    refine ⟨?_, ?_, ?_⟩
    · intro hnil
      rw [hnil, runs_nil] at hruns
      exact ht.ne_nil hruns.symm
    · rw [trimTrivia, hruns, htrim]
    · rw [splitAtCommas, hruns, splitAtCommas_of_lacks (hsegments.lacksComma q hq), htrim]
      · rfl
      · rw [htrim]
        exact ht.ne_nil
  · refine ⟨_, _, hcuts, ?_, map_runs_splitAtCommas t⟩
    exact List.forall₂_map_right_iff.mpr (List.forall₂_same.mpr fun p _ => losesTrivia_trim p)
  · intro hquote
    have hruns := runs_commaJoin_segments (t := t)
      (fun q hq => ⟨stable_of_mem_splitAtCommas hq, hsegments.trimmed q hq⟩)
      (fun q hq => exists_behind_segment hcuts hq)
      (fun q hq => hquote _ (by
        rw [splitAtCommas, ← List.map_dropLast]
        exact List.mem_map_of_mem hq))
    have hagain := (hsegments.lists (a := []) (b := []) (by simp) (by simp)).splitAtCommas
    rw [List.nil_append, List.append_nil, ← hruns] at hagain
    rw [splitAtCommas, splitAtCommas, hagain]

/-- A bracket too many, and a string and a bracket that are left open at the end. -/
theorem splitAtCommas_lossless_unclosed :
    let t := "f(a, b), /* c */ d], 'e' // f\n, [g, 'h".toList
    (∀ s ∈ (splitAtCommas t).dropLast, ¬s.EndsInOpenQuote) ∧
      splitAtCommas (Text.commaJoin (splitAtCommas t)) = splitAtCommas t := by
  intro t
  have h : ∀ s ∈ (splitAtCommas t).dropLast, ¬s.EndsInOpenQuote := by decide +kernel
  exact ⟨h, (splitAtCommas_lossless t).2.2 h⟩

/-- The first segment takes in the second where the line feed behind its string is gone. -/
example : splitAtCommas "'a\n, b".toList = ["'a".toList, "b".toList] ∧
    splitAtCommas "'a, b".toList = ["'a, b".toList] := by
  decide +kernel

end ScriptSurvey
