import ScriptSurvey.Proofs.Argument.Balance
import ScriptSurvey.Proofs.Call.Outermost
import ScriptSurvey.Proofs.Lexical.Partner

/-!
# Where a call ends

In a balanced text, the parenthesis that opens the arguments of a call has a partner, the one that closes
it when brackets nest by kind. The reader looks for it by a count that `<` and `>` share with the other
brackets. **A call ends behind the partner, and its arguments are what stands between the two, exactly if
that count comes back to zero at the partner and does not fall below zero before.** So it is wherever all
four kinds nest in the arguments. In `f(a > b)` it is not: there `>` closes the call.
-/

namespace ScriptSurvey

open Run

namespace CallSite

/-- The runs that a call is made of, up to where the search for its end begins, and what that finds. -/
theorem LiesAt.exists_enclosed {site : CallSite} {c b d : Cursor} {gap inner : List Run}
    (h : LiesAt site c b d gap inner) :
    ∃ u, runs c.rest = site.callee.map code ++ (gap ++ code '(' :: runs u) ∧
      enclosed (runs u) = some (inner, runs d.rest) := by
  obtain ⟨u, hu⟩ := List.head?_eq_some_iff.mp h.opens
  refine ⟨u, ?_, ?_⟩
  · rw [h.reaches.ahead, hu, Text.runs_cons_of_isPlain (by decide), List.append_assoc]
  · have := Cursor.enclosedFrom_eq 0 false (b.forward 1)
    rw [← Cursor.bracketed?, h.encloses, Cursor.forward, hu] at this
    exact this.symm

/-- Where a call ends, in bytes. -/
theorem LiesAt.stop_eq {site : CallSite} {c b d : Cursor} {gap inner : List Run}
    (h : LiesAt site c b d gap inner) :
    site.span.stop = c.offset + (Text.size site.callee +
      (Text.size (join gap) + (1 + (Text.size (join inner) + 1)))) := by
  obtain ⟨x, hx, hreaches⟩ := h.exists_reaches
  have hparen : Char.utf8Size '(' = 1 := rfl
  simpa [h.span, join_map_code, Run.text, utf8Size_of_mem_closers hx, hparen]
    using hreaches.offset_eq

/-- The parentheses of a call, by kind: its name stands behind `front`, the opening one behind that with
trivia at most between, and `inner` is what stands between it and its partner. -/
structure HasPartner (site : CallSite) (source front gap inner after : Text) : Prop where
  runs_eq : runs source = runs front ++ (site.callee.map code ++
    (runs gap ++ code '(' :: (runs inner ++ code ')' :: runs after)))
  start : site.span.start = Text.size front
  isTrivia : ∀ r ∈ runs gap, r.isTrivia = true
  nested : Bracket.Nested (runs inner)

/-- Whether a call ends with the partner of its parenthesis, and has what stands between the two for its
arguments. -/
def EndsWithPartner (site : CallSite) (front gap inner : Text) : Prop :=
  site.span.stop = Text.size (front ++ (site.callee ++ (gap ++ '(' :: (inner ++ [')'])))) ∧
    site.arguments = parseArguments inner

end CallSite

open CallSite

/-- **A call without type arguments ends with the partner of its parenthesis** exactly if the count of
brackets of all four kinds comes back to zero there and does not fall below zero before; so it does if
all four kinds nest in its arguments. -/
theorem findCalls_endsWithPartner_iff {cs : Callees} {source : Text} (hsource : source.IsBalanced)
    {site : CallSite} (hsite : site ∈ findCalls cs source) (hplain : site.typeArguments = none) :
    ∃ front gap inner after, site.HasPartner source front gap inner after ∧
      (site.EndsWithPartner front gap inner ↔ openBehind 0 false (runs inner) = some 0) ∧
      ((∃ e, BracketStack.empty.walk (runs inner) = some ⟨[], e⟩) →
        openBehind 0 false (runs inner) = some 0) := by
  rw [findCalls_eq] at hsite
  obtain ⟨-, c, b, d, front, gap, found, hfront, hlies⟩ :=
    exists_liesAt_of_mem_candidates ((keepApart_sublist 0 _).mem hsite)
  obtain ⟨u, hahead, hfound⟩ := hlies.exists_enclosed
  have hruns : runs source = front ++ (site.callee.map code ++ (gap ++ code '(' :: runs u)) := by
    rw [← hahead]
    exact hfront.ahead
  have hstart : c.offset = Text.size (join front) := by
    have := hfront.offset_eq
    rwa [Cursor.offset_ofText, Nat.zero_add] at this
  have hnested := hsource.2
  rw [hruns, ← List.append_assoc, ← List.append_assoc] at hnested
  obtain ⟨inner, after, hpartner, hinner⟩ := hnested.exists_partner
  -- the parts of the text, scanned alone, are the parts of its scan
  have hstable := stable_runs source
  rw [hruns, hpartner] at hstable
  have hfront' : Stable front := hstable.of_append_left
  have hgap : Stable gap := hstable.of_append_right.of_append_right.of_append_left
  have hparts : Stable (inner ++ ([code ')'] ++ after)) := by
    have := stable_runs u
    rwa [hpartner] at this
  have hinner' : Stable inner := hparts.of_append_left
  have hafter : Stable after := hparts.of_append_right.of_append_right
  refine ⟨join front, join gap, join inner, join after, ?_, ?_, ?_⟩
  · constructor
    · rw [hfront', hgap, hinner', hafter, hruns, hpartner]
    · rw [hlies.span, ← hstart]
    · rw [hgap]
      exact hlies.gap hplain
    · rw [hinner']
      exact hinner
  · rw [hinner', ← eq_iff_of_enclosed (hpartner ▸ hfound), EndsWithPartner]
    have hstop := hlies.stop_eq
    have hopening : Char.utf8Size '(' = 1 := rfl
    have hclosing : Char.utf8Size ')' = 1 := rfl
    simp only [hstart, Text.size_append, Text.size_cons, Text.size_nil, hopening, hclosing]
      at hstop ⊢
    constructor
    · rintro ⟨hsame, -⟩
      obtain ⟨x, -, hclose⟩ := eq_of_enclosed hfound
      exact eq_of_size_join hclose hpartner (by omega)
    · rintro rfl
      exact ⟨hstop, hlies.arguments⟩
  · rintro ⟨e, hwalk⟩
    exact BracketStack.openBehind_of_walk hwalk

/-- `f(g<a>(b), (c) => c)` ends with the parenthesis at byte 19. -/
theorem findCalls_endsWithPartner_nested :
    ∃ site ∈ findCalls ⟨[['f']]⟩ "f(g<a>(b), (c) => c)".toList, site.span.stop = 20 ∧
      ∃ front gap inner after,
        site.HasPartner "f(g<a>(b), (c) => c)".toList front gap inner after ∧
        (site.EndsWithPartner front gap inner ↔ openBehind 0 false (runs inner) = some 0) ∧
        ((∃ e, BracketStack.empty.walk (runs inner) = some ⟨[], e⟩) →
          openBehind 0 false (runs inner) = some 0) := by
  have hbalanced : Text.IsBalanced "f(g<a>(b), (c) => c)".toList := by decide +kernel
  obtain ⟨site, hsite, hstop, hplain⟩ :
      ∃ site ∈ findCalls ⟨[['f']]⟩ "f(g<a>(b), (c) => c)".toList,
        site.span.stop = 20 ∧ site.typeArguments = none := by
    decide +kernel
  exact ⟨site, hsite, hstop, findCalls_endsWithPartner_iff hbalanced hsite hplain⟩

/-- `f(a > b)` is a balanced text, and the call in it ends behind its `>`, three bytes before the
parenthesis. -/
theorem call_closed_by_comparison :
    Text.IsBalanced "f(a > b)".toList ∧
      ∃ site ∈ findCalls ⟨[['f']]⟩ "f(a > b)".toList, site.typeArguments = none ∧
        site.HasPartner "f(a > b)".toList [] [] "a > b".toList [] ∧ site.span = ⟨0, 5⟩ ∧
        ¬site.EndsWithPartner [] [] "a > b".toList := by
  refine ⟨by decide +kernel, ?_⟩
  obtain ⟨site, hsite, hplain, hcallee, hspan⟩ :
      ∃ site ∈ findCalls ⟨[['f']]⟩ "f(a > b)".toList,
        site.typeArguments = none ∧ site.callee = ['f'] ∧ site.span = ⟨0, 5⟩ := by
    decide +kernel
  have hpartner : runs "f(a > b)".toList = runs [] ++ (['f'].map code ++
      (runs [] ++ code '(' :: (runs "a > b".toList ++ code ')' :: runs []))) := by
    decide +kernel
  refine ⟨site, hsite, hplain, ⟨?_, ?_, ?_, by decide +kernel⟩, hspan, fun h => ?_⟩
  · rw [hcallee]
    exact hpartner
  · rw [hspan]
    rfl
  · rw [runs_nil]
    exact fun r hr => absurd hr List.not_mem_nil
  · have hstop := h.1
    rw [hcallee, hspan] at hstop
    exact absurd hstop (by decide)

end ScriptSurvey
