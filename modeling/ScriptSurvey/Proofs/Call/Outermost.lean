import ScriptSurvey.Proofs.Call.Candidates

/-!
# The outermost calls

**The calls that are found are the candidates taken from left to right**, each that begins at or behind
the end of the one taken before it. So they lie apart, in the order of the text, and each candidate that
is not among them begins inside one that is.

The reader visits the code of the text, and jumps over names and over the calls it finds. No jump loses
a candidate that would have been taken: inside a dotted path there is none, and the candidates inside a
call begin before its end. And each jump ends where a scan of the whole text comes by, so the visits
behind it are those that the scan would make.
-/

namespace ScriptSurvey

open Run

namespace CallSite

/-! ## Taking calls from left to right -/

/-- From left to right, each of the calls that begins at `n` or behind, where `n` is the end of the one
kept before. -/
def keepApart (n : Nat) : List CallSite → List CallSite
  | [] => []
  | site :: sites =>
    if n ≤ site.span.start then site :: keepApart site.span.stop sites else keepApart n sites

/-- Calls that begin too early are passed over. -/
theorem keepApart_append {n : Nat} {early : List CallSite} (h : ∀ site ∈ early, site.span.start < n)
    (sites : List CallSite) : keepApart n (early ++ sites) = keepApart n sites := by
  induction early with
  | nil => rfl
  | cons site early ih =>
      have hsite := h site List.mem_cons_self
      rw [List.cons_append, keepApart, if_neg (by omega)]
      exact ih fun s hs => h s (List.mem_cons_of_mem site hs)

theorem keepApart_sublist (n : Nat) (sites : List CallSite) : (keepApart n sites).Sublist sites := by
  induction sites generalizing n with
  | nil => exact .slnil
  | cons site sites ih =>
      rw [keepApart]
      split
      · exact (ih _).cons_cons site
      · exact (ih n).cons site

theorem le_start_of_mem_keepApart {n : Nat} {sites : List CallSite}
    (hspan : ∀ site ∈ sites, site.span.start < site.span.stop) {site : CallSite}
    (h : site ∈ keepApart n sites) : n ≤ site.span.start := by
  induction sites generalizing n with
  | nil => exact absurd h List.not_mem_nil
  | cons s sites ih =>
      obtain ⟨hs, hsites⟩ := List.forall_mem_cons.mp hspan
      rw [keepApart] at h
      split at h
      · rcases List.mem_cons.mp h with rfl | h
        · assumption
        · have := ih hsites h
          omega
      · exact ih hsites h

/-- What is kept lies apart. -/
theorem pairwise_keepApart {sites : List CallSite}
    (hspan : ∀ site ∈ sites, site.span.start < site.span.stop) (n : Nat) :
    (keepApart n sites).Pairwise fun a b => a.span.stop ≤ b.span.start := by
  induction sites generalizing n with
  | nil => exact List.Pairwise.nil
  | cons s sites ih =>
      obtain ⟨-, hsites⟩ := List.forall_mem_cons.mp hspan
      rw [keepApart]
      split
      · exact List.pairwise_cons.mpr
          ⟨fun b hb => le_start_of_mem_keepApart hsites hb, ih hsites _⟩
      · exact ih hsites n

/-- What is not kept begins inside what is, unless it begins too early. -/
theorem mem_keepApart_or {sites : List CallSite}
    (hstarts : sites.Pairwise fun a b => a.span.start < b.span.start) (n : Nat) {site : CallSite}
    (h : site ∈ sites) :
    site ∈ keepApart n sites ∨ site.span.start < n ∨
      ∃ kept ∈ keepApart n sites,
        kept.span.start < site.span.start ∧ site.span.start < kept.span.stop := by
  induction sites generalizing n with
  | nil => exact absurd h List.not_mem_nil
  | cons s sites ih =>
      obtain ⟨hfirst, hothers⟩ := List.pairwise_cons.mp hstarts
      rw [keepApart]
      split
      · next hn =>
          rcases List.mem_cons.mp h with rfl | h
          · exact .inl List.mem_cons_self
          · -- what is kept moves the bound to its end, and what begins before that begins inside it
            rcases ih hothers s.span.stop h with hkept | hearly | ⟨kept, hkept, hinside⟩
            · exact .inl (List.mem_cons_of_mem s hkept)
            · exact .inr (.inr ⟨s, List.mem_cons_self, hfirst site h, hearly⟩)
            · exact .inr (.inr ⟨kept, List.mem_cons_of_mem s hkept, hinside⟩)
      · next hn =>
          rcases List.mem_cons.mp h with rfl | h
          · exact .inr (.inl (by omega))
          · exact ih hothers n h

/-! ## The visits -/

/-- The calls at the candidates from a cursor on. -/
def candidatesFrom (cs : Callees) (c : Cursor) : List CallSite :=
  (Run.codeOffsets c.offset (runs c.rest)).filterMap (candidateAt? c.text cs)

theorem candidatesFrom_of_reaches (cs : Callees) {c d : Cursor} {rs : List Run}
    (h : c.Reaches d rs) :
    candidatesFrom cs c =
      (Run.codeOffsets c.offset rs).filterMap (candidateAt? c.text cs) ++ candidatesFrom cs d := by
  rw [candidatesFrom, h.codeOffsets_eq, List.filterMap_append, candidatesFrom, h.text_eq]

theorem candidatesFrom_toCode (cs : Callees) (c : Cursor) :
    candidatesFrom cs c.toCode = candidatesFrom cs c := by
  have hskipped : Run.codeOffsets c.offset ((runs c.rest).takeWhile fun r => !r.mode.isCode) = [] :=
    Run.codeOffsets_of_forall (fun r hr => by simpa using List.mem_takeWhile_imp hr) _
  rw [candidatesFrom_of_reaches cs c.reaches_toCode, hskipped]
  rfl

/-- If no candidate stands at the first character of a dotted path, none stands at the others. -/
theorem filterMap_candidateAt?_path (cs : Callees) {s u : Text}
    (hs : ∀ y ∈ s, Text.isPathChar y = true) {c : Cursor} (hc : c.rest = s ++ u)
    (hnone : candidateAt? c.text cs c.offset = none) :
    (Run.codeOffsets c.offset (s.map code)).filterMap (candidateAt? c.text cs) = [] := by
  -- from the second character on there is none by itself: one of the path stands in front
  induction s generalizing c with
  | nil => rfl
  | cons y s ih =>
      let d : Cursor := ⟨y :: c.passed, s ++ u, .code⟩
      have htext : d.text = c.text := by
        rw [Cursor.text, Cursor.text, hc]
        simp [d]
      have hoffset : d.offset = c.offset + Text.size [y] := by
        rw [Cursor.offset, Cursor.offset, Text.size_cons, Nat.add_comm]
        rfl
      have hinside := candidateAt?_eq_none cs (c := d) rfl (hs y List.mem_cons_self)
      have htail := ih (fun z hz => hs z (List.mem_cons_of_mem y hz)) (c := d) rfl hinside
      rw [htext, hoffset] at htail
      rw [List.map_cons, Run.codeOffsets]
      exact (List.filterMap_cons_none hnone).trans htail

/-- What one visit does: it passes over no candidate, or over one that it finds and over others that
begin before the end of that. -/
inductive Visits (cs : Callees) (c : Cursor) : Cursor → Prop where
  | passesOver {d : Cursor} : c.visit (look cs) = d.visit (look cs) →
      candidatesFrom cs c = candidatesFrom cs d → Visits cs c d
  | found {d : Cursor} {site : CallSite} {inner : List CallSite} :
      c.visit (look cs) = site :: d.visit (look cs) →
      candidatesFrom cs c = site :: (inner ++ candidatesFrom cs d) →
      c.offset ≤ site.span.start → site.span.stop = d.offset →
      (∀ s ∈ inner, s.span.start < site.span.stop) → Visits cs c d

theorem visits_of_no_word (cs : Callees) {c : Cursor} {x : Char} {t : Text}
    (h : c.toCode.rest = x :: t)
    (hword : Text.dottedPath c.toCode.rest = [] ∨ c.toCode.startsWord = false) :
    ∃ d rs, c.toCode.Reaches d rs ∧ rs ≠ [] ∧ Visits cs c d := by
  have hbehind : c.toCode.Reaches ⟨x :: c.toCode.passed, t, .code⟩ [code x] :=
    ⟨rfl, Cursor.runs_toCode h⟩
  have hnone : candidateAt? c.toCode.text cs c.toCode.offset = none := by
    rw [candidateAt?_offset, if_neg]
    rintro ⟨hname, hstarts, -⟩
    rcases hword with hword | hword
    · exact hname hword
    · exact absurd (hstarts.symm.trans hword) (by simp)
  refine ⟨_, _, hbehind, List.cons_ne_nil _ _,
    .passesOver (Cursor.visit_of_onward h (look_of_no_word hword)) ?_⟩
  rw [← candidatesFrom_toCode, candidatesFrom_of_reaches cs hbehind]
  exact congrArg (· ++ candidatesFrom cs _) (List.filterMap_cons_none hnone)

theorem visits_of_no_call {cs : Callees} {c : Cursor}
    (hname : Text.dottedPath c.toCode.rest ≠ []) (hword : c.toCode.startsWord = true)
    (hnone : candidateAt? c.toCode.text cs c.toCode.offset = none) :
    ∃ d rs, c.toCode.Reaches d rs ∧ rs ≠ [] ∧ Visits cs c d := by
  obtain ⟨u, hu⟩ := Text.dottedPath_prefix c.toCode.rest
  have hreaches := Cursor.reaches_forward hu.symm fun y hy => isPlain_of_mem_dottedPath hy
  have hne : (Text.dottedPath c.toCode.rest).map code ≠ [] := by simpa using hname
  have hoffset := hreaches.offset_eq
  have hlook := look_of_no_call hname hword hnone
  rw [join_map_code] at hoffset
  rw [← hoffset] at hlook
  refine ⟨⟨_, _, .code⟩, _, ⟨hreaches.passed, hreaches.ahead⟩, hne,
    .passesOver (Cursor.visit_of_resume hreaches hne hlook) ?_⟩
  rw [← candidatesFrom_toCode, candidatesFrom_of_reaches cs hreaches, filterMap_candidateAt?_path cs
    (fun y hy => Text.isPathChar_of_mem_dottedPath hy) hu.symm hnone]
  rfl

theorem visits_of_call {cs : Callees} {c : Cursor} {site : CallSite}
    (hcandidate : candidateAt? c.toCode.text cs c.toCode.offset = some site) :
    ∃ d rs, c.toCode.Reaches d rs ∧ rs ≠ [] ∧ Visits cs c d := by
  obtain ⟨-, hcallee, b, d, gap, inner, hlies⟩ := exists_liesAt_of_candidateAt? hcandidate
  obtain ⟨y, -, hreaches⟩ := hlies.exists_reaches
  obtain ⟨z, w, hcons⟩ := List.exists_cons_of_ne_nil hcallee
  rw [hcons, List.map_cons, List.cons_append] at hreaches
  generalize w.map code ++ (gap ++ code '(' :: (inner ++ [code y])) = rs at hreaches
  have hstop : site.span.stop = d.offset := by rw [hlies.span]
  have hlook := look_of_call hcandidate
  rw [hstop] at hlook
  have hvisit := Cursor.visit_of_resume hreaches (List.cons_ne_nil _ _) hlook
  have hcandidates : candidatesFrom cs c = site ::
      ((Run.codeOffsets (c.toCode.offset + Text.size [z]) rs).filterMap
        (candidateAt? c.toCode.text cs) ++ candidatesFrom cs d) := by
    rw [← candidatesFrom_toCode, candidatesFrom_of_reaches cs hreaches, Run.codeOffsets]
    exact congrArg (· ++ candidatesFrom cs d) (List.filterMap_cons_some hcandidate)
  refine ⟨⟨_, _, .code⟩, _, ⟨hreaches.passed, hreaches.ahead⟩, List.cons_ne_nil _ _,
    .found hvisit hcandidates ?_ hstop fun s hs => ?_⟩
  · rw [hlies.span, c.reaches_toCode.offset_eq]
    exact Nat.le_add_right _ _
  · -- the others begin behind the first character and before the end
    obtain ⟨p, hp, hs⟩ := List.mem_filterMap.mp hs
    have hlt := (lt_of_mem_codeOffsets hp).2
    rw [start_of_candidateAt? hs, hstop, hreaches.offset_eq, join_cons, Text.size_append,
      ← Nat.add_assoc]
    exact hlt

/-- **One visit** goes on further ahead. -/
theorem exists_visits (cs : Callees) {c : Cursor} {x : Char} {t : Text}
    (h : c.toCode.rest = x :: t) :
    ∃ d, d.rest.length < c.rest.length ∧ c.offset ≤ d.offset ∧ Visits cs c d := by
  have hreaches : ∃ d rs, c.toCode.Reaches d rs ∧ rs ≠ [] ∧ Visits cs c d := by
    by_cases hname : Text.dottedPath c.toCode.rest = []
    · exact visits_of_no_word cs h (.inl hname)
    · cases hword : c.toCode.startsWord with
      | false => exact visits_of_no_word cs h (.inr hword)
      | true =>
          cases hcandidate : candidateAt? c.toCode.text cs c.toCode.offset with
          | none => exact visits_of_no_call hname hword hcandidate
          | some site => exact visits_of_call hcandidate
  obtain ⟨d, rs, hd, hne, hvisits⟩ := hreaches
  have hlength := hd.length_rest_lt hne
  have hle := Cursor.length_rest_toCode c
  have hoffset := hd.offset_eq
  have hstart := c.reaches_toCode.offset_eq
  exact ⟨d, by omega, by omega, hvisits⟩

/-- **The visits from a cursor find the candidates from there on that lie apart.** -/
theorem visit_look (cs : Callees) {c : Cursor} {n : Nat} (hn : n ≤ c.offset) :
    c.visit (look cs) = keepApart n (candidatesFrom cs c) := by
  induction hlength : c.rest.length using Nat.strongRecOn generalizing c n with
  | ind length ih =>
      subst hlength
      cases hrest : c.toCode.rest with
      | nil =>
          rw [Cursor.visit_of_nil hrest, ← candidatesFrom_toCode, candidatesFrom, hrest, runs_nil]
          rfl
      | cons x t =>
          obtain ⟨d, hshorter, hlater, hvisits⟩ := exists_visits cs hrest
          cases hvisits with
          | passesOver hvisit hcandidates =>
              rw [hvisit, hcandidates]
              exact ih _ hshorter (Nat.le_trans hn hlater) rfl
          | @found site inner hvisit hcandidates hstart hstop hinner =>
              -- the end of the call is the new bound, and where the visits go on
              rw [hvisit, hcandidates, keepApart, if_pos (Nat.le_trans hn hstart),
                keepApart_append hinner]
              exact congrArg (site :: ·) (ih _ hshorter (Nat.le_of_eq hstop) rfl)

theorem findCalls_eq (cs : Callees) (source : Text) :
    findCalls cs source = keepApart 0 (candidates source cs) := by
  have hfrom : candidates source cs = candidatesFrom cs (.ofText source) := by
    rw [candidates, codeOffsets_eq]
    rfl
  rw [findCalls]
  split
  · next hempty =>
      -- without callees nothing is visited, and no name is registered
      have hnone : candidates source cs = [] := by
        refine List.filterMap_eq_nil_iff.mpr fun p _ => ?_
        rw [candidateAt?]
        refine if_neg fun h => ?_
        have hcontains := h.2.2.1
        rw [Callees.contains, List.isEmpty_iff.mp hempty] at hcontains
        exact absurd hcontains (by simp)
      rw [hnone]
      rfl
  · rw [hfrom]
    exact visit_look cs (Nat.zero_le _)

end CallSite

open CallSite

/-- **The calls that are found are the candidates taken from left to right.** They lie apart, each is a
piece of the text that begins with its name, and a candidate that is not found begins inside a call that
is. The name that is looked up at an offset, and so that of a candidate, is the longest dotted path that
stands there. -/
theorem findCalls_outermost (cs : Callees) (source : Text) :
    findCalls cs source = keepApart 0 (candidates source cs) ∧
      ((findCalls cs source).Pairwise fun a b => a.span.stop ≤ b.span.start) ∧
      (∀ site ∈ findCalls cs source, site.span.start < site.span.stop ∧
        ∃ behind, site.span.slice? source = some (site.callee ++ behind)) ∧
      (∀ site ∈ candidates source cs, site ∈ findCalls cs source ∨
        ∃ kept ∈ findCalls cs source,
          kept.span.start < site.span.start ∧ site.span.start < kept.span.stop) ∧
      (∀ p name, Text.IsLongestPath name (Cursor.place source p).rest ↔
        name ≠ [] ∧ Text.dottedPath (Cursor.place source p).rest = name) ∧
      ∀ site ∈ candidates source cs,
        Text.IsLongestPath site.callee (Cursor.place source site.span.start).rest := by
  rw [findCalls_eq]
  refine ⟨rfl, ?_, fun site hsite => ?_, fun site hsite => ?_, fun _ _ => Text.isLongestPath_iff,
    fun site => isLongestPath_of_mem_candidates⟩
  · exact pairwise_keepApart (fun site hsite => (slice?_of_mem_candidates hsite).1) 0
  · exact slice?_of_mem_candidates ((keepApart_sublist 0 _).mem hsite)
  · rcases mem_keepApart_or (pairwise_candidates source cs) 0 hsite with hkept | hearly | hinside
    · exact .inl hkept
    · exact absurd hearly (Nat.not_lt_zero _)
    · exact .inr hinside

example : (candidates "f(f(a)), g.f(b), f /**/ <c>(d)".toList ⟨[['f']]⟩).map CallSite.span =
      [⟨0, 7⟩, ⟨2, 6⟩, ⟨17, 30⟩] ∧
    (findCalls ⟨[['f']]⟩ "f(f(a)), g.f(b), f /**/ <c>(d)".toList).map CallSite.span =
      [⟨0, 7⟩, ⟨17, 30⟩] := by
  decide +kernel

end ScriptSurvey
