import Mathlib.Data.List.DropRight
import ScriptSurvey.Proofs.Call.Outermost
import ScriptSurvey.Proofs.Lexical.Ends
import ScriptSurvey.Proofs.Lexical.Partner
import ScriptSurvey.Proofs.Lexical.Slices

/-!
# What the reader sees in front of a name

A registered name with arguments behind it is a call wherever it stands. Whether it is a candidate, the
reader decides from the characters in front of it: no path may go on there, and they may not end in the
word `function`, blanks apart. The characters are those of the text, comments and strings included. Said
of the runs in front of the name:

* a path goes on if and only if the last run is a character of paths;
* the characters end in the word if and only if the runs do, once blanks are taken away from their end,
  or if a comment or a string is the last of them then and its own text ends in the word.
-/

namespace ScriptSurvey

open Run

/-! ## The word at the end of a text -/

/-- The word that a declaration begins with. -/
def functionWord : Text := ['f', 'u', 'n', 'c', 't', 'i', 'o', 'n']

theorem toList_function : "function".toList = functionWord := rfl

theorem of_mem_functionWord :
    ∀ c ∈ functionWord, Text.isPlain c = true ∧ Text.isBlank c = false ∧ c ≠ '\n' ∧ c ≠ ' ' := by
  decide

/-- Whether a text ends in the word `function`, blanks apart. -/
def Text.EndsInFunction (t : Text) : Prop :=
  ∃ u g, t = u ++ (functionWord ++ g) ∧ IsBlanks g ∧
    ∀ c, u.getLast? = some c → isIdentifierPart c = false

theorem Cursor.followsFunctionKeyword_iff (c : Cursor) :
    c.followsFunctionKeyword = true ↔ Text.EndsInFunction c.passed.reverse := by
  have hpassed := List.takeWhile_append_dropWhile (p := Text.isBlank) (l := c.passed)
  have hblanks : Text.IsBlanks (c.passed.takeWhile Text.isBlank).reverse := fun d hd =>
    List.mem_takeWhile_imp (List.mem_reverse.mp hd)
  constructor
  · intro h
    obtain ⟨u, hword, hu⟩ : ∃ u, List.isPrefixOf? functionWord.reverse (Text.trimStart c.passed) =
        some u ∧ ∀ d, u.head? = some d → Text.isIdentifierPart d = false := by
      unfold Cursor.followsFunctionKeyword at h
      rw [toList_function] at h
      split at h
      · exact absurd h Bool.false_ne_true
      · next hword => exact ⟨[], hword, by simp⟩
      · next d u hword => exact ⟨d :: u, hword, by simpa using h⟩
    rw [← Text.trimStart, ← List.isPrefixOf?_eq_some_iff_append_eq.mp hword] at hpassed
    refine ⟨u.reverse, _, ?_, hblanks, by simpa using hu⟩
    conv_lhs => rw [← hpassed]
    simp
  · rintro ⟨u, g, htext, hg, hu⟩
    have hreverse : c.passed = g.reverse ++ (functionWord.reverse ++ u.reverse) := by
      rw [← List.reverse_reverse c.passed, htext]
      simp
    have hword : List.isPrefixOf? functionWord.reverse (Text.trimStart c.passed) =
        some u.reverse := by
      rw [hreverse, Text.trimStart_append fun d hd => hg d (List.mem_reverse.mp hd)]
      · exact Text.isPrefixOf?_append _ _
      · intro d hd
        obtain rfl : 'n' = d := Option.some.inj hd
        decide
    unfold Cursor.followsFunctionKeyword
    rw [toList_function, hword]
    cases hlast : u.reverse with
    | nil => rfl
    | cons d v =>
        have hd := hu d (by rw [List.getLast?_eq_head?_reverse, hlast]; rfl)
        simp [hd]

instance (t : Text) : Decidable t.EndsInFunction :=
  decidable_of_iff ((⟨t.reverse, [], .code⟩ : Cursor).followsFunctionKeyword = true)
    ((Cursor.followsFunctionKeyword_iff _).trans (by rw [List.reverse_reverse]))

namespace Text

theorem endsInFunction_append_iff {t g : Text} (hg : IsBlanks g) :
    (t ++ g).EndsInFunction ↔ t.EndsInFunction := by
  constructor
  · rintro ⟨u, g', htext, hg', hu⟩
    rw [← List.append_assoc] at htext
    rcases List.append_eq_append_iff.mp htext with ⟨s, hfront, hback⟩ | ⟨s, rfl, rfl⟩
    · -- the word would end among the blanks
      cases s using List.reverseRecOn with
      | nil => exact ⟨u, [], by simpa using hfront.symm, .nil, hu⟩
      | append_singleton s d =>
          have hn : d = 'n' := by
            have := congrArg List.getLast? hfront
            simpa [functionWord] using this.symm
          exact absurd (hg d (by rw [hback]; simp)) (by rw [hn]; decide)
    · exact ⟨u, s, by rw [List.append_assoc], fun c hc => hg' c (List.mem_append_left g hc), hu⟩
  · rintro ⟨u, g', rfl, hg', hu⟩
    refine ⟨u, g' ++ g, by simp, fun c hc => ?_, hu⟩
    exact (List.mem_append.mp hc).elim (hg' c) (hg c)

end Text

/-! ## The word at the end of runs -/

namespace Run

/-- Whether the run is a blank character of code. -/
def isBlank : Run → Bool
  | code c => Text.isBlank c
  | _ => false

/-- Whether runs end in the word `function`, as code. -/
def EndsInFunction (rs : List Run) : Prop :=
  ∃ q, rs = q ++ functionWord.map code ∧
    ∀ c, q.getLast? = some (code c) → Text.isIdentifierPart c = false

/-- Runs from whose end those that satisfy `p` are taken away. -/
theorem exists_eq_append_of_last (p : Run → Bool) (rs : List Run) :
    ∃ q bs, rs = q ++ bs ∧ (∀ r ∈ bs, p r = true) ∧ ∀ r, q.getLast? = some r → p r = false := by
  refine ⟨rs.rdropWhile p, rs.rtakeWhile p, List.rdropWhile_append_rtakeWhile.symm,
    fun r hr => List.mem_rtakeWhile_imp hr, fun r hr => ?_⟩
  have hne : rs.rdropWhile p ≠ [] := by
    intro hnil
    rw [hnil] at hr
    exact absurd hr (by simp)
  rw [List.getLast?_eq_some_getLast hne] at hr
  rw [← Option.some.inj hr]
  simpa using List.rdropWhile_last_not p rs hne

theorem isBlanks_join {bs : List Run} (h : ∀ r ∈ bs, r.isBlank = true) : Text.IsBlanks (join bs) := by
  intro c hc
  obtain ⟨r, hr, hcr⟩ := List.mem_flatMap.mp hc
  have hblank := h r hr
  cases r with
  | code d =>
      rw [List.mem_singleton.mp hcr]
      exact hblank
  | comment kind t => exact absurd hblank Bool.false_ne_true
  | literal kind t => exact absurd hblank Bool.false_ne_true

theorem endsInFunction_join_append_iff {p bs : List Run} (h : ∀ r ∈ bs, r.isBlank = true) :
    (join (p ++ bs)).EndsInFunction ↔ (join p).EndsInFunction := by
  rw [join_append]
  exact Text.endsInFunction_append_iff (isBlanks_join h)

/-- In front of code, the last character is plain only if it is the last run. -/
theorem getLast?_join_iff {q : List Run} {d : Char} (h : Stable (q ++ [code d])) (hd : d ≠ '\n')
    {c : Char} (hc : Text.isPlain c = true) :
    (join q).getLast? = some c ↔ q.getLast? = some (code c) := by
  constructor
  · intro hlast
    obtain ⟨t, ht⟩ := List.getLast?_eq_some_iff.mp hlast
    obtain ⟨p, rfl, -⟩ := exists_eq_append_code h hd hc ht
    exact List.getLast?_concat
  · intro hlast
    obtain ⟨p, rfl⟩ := List.getLast?_eq_some_iff.mp hlast
    simp [text]

/-- Behind code that is not blank, the characters end in the word if and only if the runs do. -/
theorem endsInFunction_join_code_iff {q : List Run} {d : Char} (h : Stable (q ++ [code d]))
    (hd : Text.isBlank d = false) :
    (join (q ++ [code d])).EndsInFunction ↔ EndsInFunction (q ++ [code d]) := by
  constructor
  · rintro ⟨u, g, htext, hg, hu⟩
    rw [join_append, join_cons, join_nil, List.append_nil, ← List.append_assoc] at htext
    -- no blank is behind the word, since the last character is none
    obtain rfl : g = [] := by
      rcases List.eq_nil_or_concat g with rfl | ⟨g, e, rfl⟩
      · rfl
      · rw [List.concat_eq_append, ← List.append_assoc] at htext
        have he := (List.append_inj' htext rfl).2
        have hblank := hg e (by simp)
        rw [← (List.cons.inj he).1] at hblank
        exact absurd hblank (by rw [hd]; exact Bool.false_ne_true)
    have hword : functionWord = functionWord.dropLast ++ ['n'] := rfl
    rw [List.append_nil, hword, ← List.append_assoc] at htext
    obtain ⟨hfront, hlast⟩ := List.append_inj' htext rfl
    obtain rfl := (List.cons.inj hlast).1
    obtain ⟨p, rfl, hp⟩ := exists_eq_append_map_code h (by decide)
      (fun c hc => by
        obtain ⟨hplain, -, hline, -⟩ := of_mem_functionWord c (List.dropLast_subset _ hc)
        exact ⟨hplain, hline⟩) hfront
    refine ⟨p, by rw [List.append_assoc, hword, List.map_append]; rfl, fun c hc => hu c ?_⟩
    obtain ⟨p', rfl⟩ := List.getLast?_eq_some_iff.mp hc
    rw [← hp]
    simp [text]
  · rintro ⟨p, hp, hlast⟩
    rw [hp] at h ⊢
    have hfront : Stable (p ++ [code 'f']) := by
      rw [show functionWord.map code = [code 'f'] ++ functionWord.tail.map code from rfl,
        ← List.append_assoc] at h
      exact h.of_append_left
    refine ⟨join p, [], by simp [join_map_code], .nil, fun c hc => ?_⟩
    cases hpart : Text.isIdentifierPart c with
    | false => rfl
    | true =>
        have hplain := Text.isPlain_of_isIdentifierPart hpart
        rw [hlast c ((getLast?_join_iff hfront (by decide) hplain).mp hc)] at hpart
        exact absurd hpart Bool.false_ne_true

/-- Behind a comment or a string, the characters end in the word if and only if its own do. -/
theorem endsInFunction_join_concat_iff {q : List Run} {r : Run} (h : Stable (q ++ [r]))
    (hr : r.mode.isCode = false) :
    (join (q ++ [r])).EndsInFunction ↔ r.text.EndsInFunction := by
  obtain ⟨o, s, hs, ho⟩ := exists_text_eq_cons h.of_append_right hr
  have hout {g : Text} (hg : Text.IsBlanks g) : o ∉ functionWord ++ g := by
    intro hm
    rcases List.mem_append.mp hm with hm | hm
    · exact absurd ho (by rw [(of_mem_functionWord o hm).1]; exact Bool.noConfusion)
    · exact absurd ho (by rw [Text.isPlain_of_isBlank (hg o hm)]; exact Bool.noConfusion)
  rw [join_append, join_cons, join_nil, List.append_nil, hs]
  constructor
  · rintro ⟨u, g, htext, hg, hu⟩
    rcases List.append_eq_append_iff.mp htext with ⟨a, rfl, htail⟩ | ⟨a, -, htail⟩
    · refine ⟨a, g, htail, hg, fun c hc => hu c ?_⟩
      rw [List.getLast?_append, hc]
      rfl
    · -- the delimiter in front is no part of the word, nor of the blanks
      exact absurd (by rw [htail]; simp) (hout hg)
  · rintro ⟨u, g, htext, hg, hu⟩
    refine ⟨join q ++ u, g, by rw [htext, List.append_assoc], hg, fun c hc => hu c ?_⟩
    cases u using List.reverseRecOn with
    | nil => exact absurd (by rw [List.nil_append] at htext; rw [← htext]; simp) (hout hg)
    | append_singleton u d => simpa using hc

end Run

/-- A word starts where the last run in front is no character of paths. -/
theorem Cursor.startsWord_iff {c : Cursor} {rs : List Run} (hc : c.passed = (join rs).reverse)
    {x : Char} (h : Stable (rs ++ [code x])) (hx : x ≠ '\n') :
    c.startsWord = true ↔ ∀ d, rs.getLast? = some (code d) → Text.isPathChar d = false := by
  have hword : c.startsWord = true ↔
      ∀ d, (join rs).getLast? = some d → Text.isPathChar d = false := by
    rw [Cursor.startsWord, List.getLast?_eq_head?_reverse, ← hc]
    cases c.passed with
    | nil => simp
    | cons d p => simp [Text.isPathChar, and_comm]
  rw [hword]
  constructor
  · intro hlast d hd
    obtain ⟨q, rfl⟩ := List.getLast?_eq_some_iff.mp hd
    exact hlast d (by simp [Run.text])
  · intro hlast d hd
    cases hpath : Text.isPathChar d with
    | false => rfl
    | true =>
        have hplain := Text.isPlain_of_isPathChar hpath
        rw [hlast d ((getLast?_join_iff h hx hplain).mp hd)] at hpath
        exact absurd hpath Bool.false_ne_true

/-! ## Calls with anything in front of them -/

namespace CallSite

section Calls

variable (source : Text)

/-- The call of a registered name at byte `p`, whatever stands in front of it. -/
def calledAt? (cs : Callees) (p : Nat) : Option CallSite :=
  let name := Text.dottedPath (Cursor.place source p).rest
  if name ≠ [] ∧ cs.contains name = true then callAt? source name p else none

/-- The calls of registered names in the code of a text, whatever stands in front of them. -/
def calls (cs : Callees) : List CallSite :=
  (codeOffsets source).filterMap (calledAt? source cs)

/-- Whether the reader sees nothing in front of byte `p` that keeps a name there from being called. -/
def isFree (p : Nat) : Bool :=
  (Cursor.place source p).startsWord && !(Cursor.place source p).followsFunctionKeyword

end Calls

theorem start_of_calledAt? {source : Text} {cs : Callees} {p : Nat} {site : CallSite}
    (h : calledAt? source cs p = some site) : site.span.start = p := by
  simp only [calledAt?] at h
  split at h
  · exact start_of_callAt? h
  · exact absurd h (by simp)

theorem calledAt?_offset (cs : Callees) (c : Cursor) :
    calledAt? c.text cs c.offset =
      if Text.dottedPath c.rest ≠ [] ∧ cs.contains (Text.dottedPath c.rest) = true then
        at? (Text.dottedPath c.rest) c
      else none := by
  obtain ⟨t, ht⟩ := Text.dottedPath_prefix c.rest
  rw [at?_eq ht.symm fun x hx => isPlain_of_mem_dottedPath hx, calledAt?, Cursor.place_offset]

/-- **The candidates are the calls with nothing in front of them** that keeps their names from being
called. -/
theorem candidates_eq_filter (source : Text) (cs : Callees) :
    candidates source cs = (calls source cs).filter fun site => isFree source site.span.start := by
  rw [calls, List.filter_filterMap]
  refine List.filterMap_congr fun p _ => ?_
  have hsame : candidateAt? source cs p = if isFree source p then calledAt? source cs p else none := by
    simp only [candidateAt?, calledAt?, isFree, Bool.and_eq_true, Bool.not_eq_true']
    split <;> split <;> simp_all
  rw [hsame]
  cases hcalled : calledAt? source cs p with
  | none => simp
  | some site =>
      rw [Option.filter_some, start_of_calledAt? hcalled]

theorem mem_candidates_iff {source : Text} {cs : Callees} {site : CallSite} :
    site ∈ candidates source cs ↔ site ∈ calls source cs ∧ isFree source site.span.start = true := by
  rw [candidates_eq_filter, List.mem_filter]

/-- A candidate is found, or begins inside a call that is. -/
theorem mem_findCalls_or {source : Text} {cs : Callees} {site : CallSite}
    (h : site ∈ candidates source cs) :
    site ∈ findCalls cs source ∨ ∃ kept ∈ findCalls cs source,
      kept.span.start < site.span.start ∧ site.span.start < kept.span.stop := by
  rw [findCalls_eq]
  rcases mem_keepApart_or (pairwise_candidates source cs) 0 h with hkept | hearly | hinside
  · exact .inl hkept
  · exact absurd hearly (Nat.not_lt_zero _)
  · exact .inr hinside

theorem pairwise_calls (source : Text) (cs : Callees) :
    (calls source cs).Pairwise fun a b => a.span.start < b.span.start := by
  rw [calls, codeOffsets_eq, List.pairwise_filterMap]
  refine (pairwise_codeOffsets 0 (runs source)).imp fun hlt a ha b hb => ?_
  rwa [start_of_calledAt? ha, start_of_calledAt? hb]

/-- A call stands in front of the run that its name begins with. -/
theorem exists_of_mem_calls {source : Text} {cs : Callees} {site : CallSite}
    (h : site ∈ calls source cs) :
    ∃ front x after, runs source = front ++ code x :: after ∧ Text.isPathChar x = true ∧
      site.span.start = Text.size (join front) := by
  obtain ⟨p, hp, hsite⟩ := List.mem_filterMap.mp h
  obtain ⟨c, front, hreaches, rfl⟩ := exists_reaches_of_mem_codeOffsets hp
  have hstart := start_of_calledAt? hsite
  rw [hreaches.offset_eq, Cursor.offset_ofText, Nat.zero_add] at hstart
  rw [← Cursor.text_ofText source, ← hreaches.text_eq, calledAt?_offset] at hsite
  split at hsite
  · next hname =>
      obtain ⟨t, ht⟩ := Text.dottedPath_prefix c.rest
      obtain ⟨x, s, hx⟩ := List.exists_cons_of_ne_nil hname.1
      have hpath : Text.isPathChar x = true :=
        Text.isPathChar_of_mem_dottedPath (t := c.rest) (by rw [hx]; exact List.mem_cons_self)
      refine ⟨front, x, runs (s ++ t), ?_, hpath, hstart⟩
      rw [show runs source = front ++ runs c.rest from hreaches.ahead, ← ht, hx, List.cons_append,
        Text.runs_cons_of_isPlain (Text.isPlain_of_isPathChar hpath)]
  · exact absurd hsite (by simp)

/-- What the reader sees in front of a call, said of the runs there. -/
theorem isFree_iff {source : Text} {cs : Callees} {site : CallSite} (h : site ∈ calls source cs)
    {rs after : List Run} (hrs : runs source = rs ++ after)
    (hstart : site.span.start = Text.size (join rs)) :
    isFree source site.span.start = true ↔
      (∀ d, rs.getLast? = some (code d) → Text.isPathChar d = false) ∧
        ¬(join rs).EndsInFunction := by
  obtain ⟨front, x, behind, hruns, hpath, hoffset⟩ := exists_of_mem_calls h
  obtain rfl : front = rs := eq_of_size_join hruns hrs (hoffset.symm.trans hstart)
  have hline : x ≠ '\n' := Text.ne_of_isPathChar hpath (by decide)
  rw [isFree, hstart, Cursor.place_of_runs hruns, Bool.and_eq_true,
    Cursor.startsWord_iff rfl (stable_front_concat hruns) hline, Bool.not_eq_true',
    ← Bool.not_eq_true, Cursor.followsFunctionKeyword_iff, List.reverse_reverse]

end CallSite

end ScriptSurvey
