import ScriptSurvey.Proofs.Lexical.Offsets
import ScriptSurvey.Proofs.Text.DottedPath

/-!
# Places where a call stands

A place in the code of a text is a **candidate** if a registered name begins there, as a whole and not
as the name of a declaration, and what follows it, with white space and comments before and between, is
an argument list that is closed, or type arguments that are closed and then such a list.

That is said here by offsets, of one place at a time, without a walk over the text. The reader says the
same of each place that it comes to, and the runs of the call that it finds there are the next runs of
the text: behind the call the reader is in step with a scan.
-/

namespace ScriptSurvey

open Run

namespace CallSite

section Candidates

variable (source : Text)

/-- The offset behind the white space and the comments at byte `p`. -/
def behindTrivia (p : Nat) : Nat :=
  p + Text.size (join ((runs (Cursor.place source p).rest).takeWhile isTrivia))

/-- What the bracket `o` at byte `p` encloses, and the offset behind the one that closes it. -/
def enclosedAt? (o : Char) (p : Nat) : Option (Text × Nat) :=
  if (Cursor.place source p).rest.head? = some o then
    (closingOffset source p).bind fun q =>
      ((Span.mk (p + 1) q).slice? source).map fun inner => (inner, q + 1)
  else none

/-- The call of the name that stands at byte `p`. -/
def callAt? (name : Text) (p : Nat) : Option CallSite :=
  let opening := behindTrivia source (p + Text.size name)
  match enclosedAt? source '<' opening with
  | none =>
    (enclosedAt? source '(' opening).map fun list => ⟨name, ⟨p, list.2⟩, none, parseArguments list.1⟩
  | some types =>
    (enclosedAt? source '(' (behindTrivia source types.2)).map fun list =>
      ⟨name, ⟨p, list.2⟩, some (parseArguments types.1), parseArguments list.1⟩

/-- The call at byte `p`, if that is a candidate: the longest dotted path there is registered, neither
a dot nor a part of an identifier stands in front of it, and it is not declared there. -/
def candidateAt? (cs : Callees) (p : Nat) : Option CallSite :=
  let c := Cursor.place source p
  let name := Text.dottedPath c.rest
  if name ≠ [] ∧ c.startsWord = true ∧ cs.contains name = true ∧ c.followsFunctionKeyword = false then
    callAt? source name p
  else none

/-- The offsets at which a scan finds code. -/
def codeOffsets : List Nat :=
  ((Cursor.ofText source).scan.1.filter fun step => step.2.mode.isCode).map fun step => step.1.start

/-- The calls at all candidates, from left to right. -/
def candidates (cs : Callees) : List CallSite :=
  (codeOffsets source).filterMap (candidateAt? source cs)

end Candidates

/-- A call begins where its name stands. -/
theorem start_of_callAt? {source name : Text} {p : Nat} {site : CallSite}
    (h : callAt? source name p = some site) : site.span.start = p := by
  simp only [callAt?] at h
  split at h
  · obtain ⟨list, -, rfl⟩ := Option.map_eq_some_iff.mp h
    rfl
  · obtain ⟨list, -, rfl⟩ := Option.map_eq_some_iff.mp h
    rfl

theorem start_of_candidateAt? {source : Text} {cs : Callees} {p : Nat} {site : CallSite}
    (h : candidateAt? source cs p = some site) : site.span.start = p := by
  simp only [candidateAt?] at h
  split at h
  · exact start_of_callAt? h
  · exact absurd h (by simp)

/-! ## What the reader finds in brackets -/

theorem behindTrivia_offset (c : Cursor) : behindTrivia c.text c.offset = c.skipTrivia.offset := by
  rw [behindTrivia, Cursor.place_offset, c.reaches_skipTrivia.offset_eq]

/-- Behind a bracket, what it encloses comes first and then the one that closes it. -/
theorem exists_reaches_bracketed? {c d : Cursor} {o : Char} {t : Text} {p : List Run}
    (hc : c.rest = o :: t) (ho : isOpeningBracket o = true) (h : c.bracketed? = some (p, d)) :
    ∃ x ∈ closers, c.Reaches d (code o :: (p ++ [code x])) := by
  have hplain : ∀ x ∈ [o], Text.isPlain x = true := by
    simpa using isPlain_of_isOpeningBracket ho
  obtain ⟨x, hx, hreaches⟩ := Cursor.exists_reaches_enclosedFrom h
  exact ⟨x, hx, (Cursor.reaches_forward hc hplain).trans hreaches⟩

/-- What a bracket encloses is found again when it is scanned alone. -/
theorem stable_of_bracketed? {c d : Cursor} {o : Char} {t : Text} {p : List Run}
    (hc : c.rest = o :: t) (ho : isOpeningBracket o = true) (h : c.bracketed? = some (p, d)) :
    Stable p := by
  obtain ⟨x, -, hreaches⟩ := exists_reaches_bracketed? hc ho h
  have hstable := stable_runs c.rest
  rw [hreaches.ahead, List.cons_append, List.append_assoc] at hstable
  exact (show Stable ([code o] ++ (p ++ _)) from hstable).of_append_right.of_append_left

theorem parseArguments_join {p : List Run} (h : Stable p) :
    parseArguments (join p) = (Run.splitAtCommas p).map Element.ofRuns := by
  rw [parseArguments, h]

/-- At the place of the cursor, the bracket encloses what the cursor finds. -/
theorem enclosedAt?_of_cons {c : Cursor} {o : Char} {t : Text} (hc : c.rest = o :: t)
    (ho : isOpeningBracket o = true) :
    enclosedAt? c.text o c.offset = c.bracketed?.map fun p => (join p.1, p.2.offset) := by
  have hcut : Text.cutAt? c.offset c.text = some (c.passed.reverse, o :: t) := by
    have := Text.cutAt?_append c.passed.reverse c.rest
    rw [Text.size_reverse, ← Cursor.text, hc] at this
    exact this
  have hforward : c.forward 1 = ⟨o :: c.passed, t, .code⟩ := by
    rw [Cursor.forward, hc]
    rfl
  have hruns := Cursor.enclosedFrom_eq 0 false (c.forward 1)
  rw [hforward] at hruns
  rw [enclosedAt?, Cursor.place_offset, hc, List.head?_cons, if_pos rfl, closingOffset, hcut,
    Option.bind_some, ScriptSurvey.bracketed, if_pos ho, enclosed, ← hruns, ← hforward,
    ← Cursor.bracketed?]
  cases hfound : c.bracketed? with
  | none => rfl
  | some found =>
      obtain ⟨p, d⟩ := found
      obtain ⟨x, hx, hreaches⟩ := exists_reaches_bracketed? hc ho hfound
      have hone := utf8Size_of_isOpeningBracket ho
      -- both brackets are one byte wide, so what stands between them is what they enclose
      have hslice : (Span.mk (c.offset + 1) (c.offset + 1 + Text.size (join p))).slice? c.text =
          some (join p) := by
        have hfront : Text.size (c.passed.reverse ++ [o]) = c.offset + 1 := by
          rw [Text.size_append, Text.size_reverse, Text.size_cons, hone]
          rfl
        have hsplit : c.text = (c.passed.reverse ++ [o]) ++ (join p ++ x :: d.rest) := by
          rw [Cursor.text, hreaches.rest_eq]
          simp [text]
        rw [hsplit, ← hfront]
        exact Span.slice?_append _ (join p) (x :: d.rest)
      have hoffset : d.offset = c.offset + 1 + Text.size (join p) + 1 := by
        have hx := utf8Size_of_mem_closers hx
        have := hreaches.offset_eq
        simp only [join_cons, join_append, join_nil, text, Text.size_append, Text.size_cons,
          Text.size_nil, hx, hone] at this
        omega
      simp only [Option.map_some, Option.bind_some, hslice, hoffset]

theorem enclosedAt?_of_head? {c : Cursor} {o : Char} (h : c.rest.head? ≠ some o) :
    enclosedAt? c.text o c.offset = none := by
  rw [enclosedAt?, Cursor.place_offset]
  exact if_neg h

/-- The arguments that the reader finds, and where they end. -/
theorem map_arguments? {α : Type} (f : List Element → Nat → α) (c : Cursor) :
    (arguments? c).map (fun list => f list.1 list.2.offset) =
      (enclosedAt? c.text '(' c.offset).map fun list => f (parseArguments list.1) list.2 := by
  unfold arguments?
  split
  · next t hc =>
      rw [enclosedAt?_of_cons hc rfl, Option.map_map, Option.map_map]
      cases hfound : c.bracketed? with
      | none => rfl
      | some found =>
          have hread := parseArguments_join (stable_of_bracketed? hc rfl hfound)
          simp only [Option.map_some, Function.comp_apply, hread]
  · next hne =>
      have hhead : c.rest.head? ≠ some '(' := by
        intro h
        obtain ⟨t, ht⟩ := List.head?_eq_some_iff.mp h
        exact hne t ht
      rw [enclosedAt?_of_head? hhead]
      rfl

theorem typeArguments?_of_cons {c : Cursor} {t : Text} (h : c.rest = '<' :: t) :
    typeArguments? c = c.bracketed?.map fun p =>
      (some ((Run.splitAtCommas p.1).map Element.ofRuns), p.2.skipTrivia) := by
  rw [typeArguments?, h]
  rfl

theorem typeArguments?_of_head? {c : Cursor} (h : c.rest.head? ≠ some '<') :
    typeArguments? c = some (none, c) := by
  unfold typeArguments?
  split
  · next t hc => exact absurd (by rw [hc]; rfl) h
  · rfl

/-- **The reader finds the call that stands at a place**, and reads its arguments as what is enclosed
there. -/
theorem at?_eq {name t : Text} {c : Cursor} (hc : c.rest = name ++ t)
    (hname : ∀ x ∈ name, Text.isPlain x = true) : at? name c = callAt? c.text name c.offset := by
  have hbehind := Cursor.reaches_forward hc hname
  have hopening : behindTrivia c.text (c.offset + Text.size name) =
      (c.forward name.length).skipTrivia.offset := by
    have := behindTrivia_offset (c.forward name.length)
    rwa [hbehind.text_eq, hbehind.offset_eq, join_map_code] at this
  have htext : (c.forward name.length).skipTrivia.text = c.text :=
    (Cursor.reaches_skipTrivia _).text_eq.trans hbehind.text_eq
  rw [at?, callAt?, hopening, ← htext]
  generalize (c.forward name.length).skipTrivia = b
  by_cases hhead : b.rest.head? = some '<'
  -- behind a `<` that is not closed there is no call either, since it is no parenthesis
  · obtain ⟨t, hb⟩ := List.head?_eq_some_iff.mp hhead
    rw [typeArguments?_of_cons hb, enclosedAt?_of_cons hb rfl]
    cases hfound : b.bracketed? with
    | none =>
        have hround : b.rest.head? ≠ some '(' := by
          rw [hhead]
          decide
        rw [Option.map_none, Option.map_none, enclosedAt?_of_head? hround]
        rfl
    | some found =>
        obtain ⟨p, d⟩ := found
        obtain ⟨x, -, hreaches⟩ := exists_reaches_bracketed? hb rfl hfound
        have hread := parseArguments_join (stable_of_bracketed? hb rfl hfound)
        have hstop := behindTrivia_offset d
        have htext := d.reaches_skipTrivia.text_eq
        rw [hreaches.text_eq] at hstop htext
        simp only [Option.map_some, hstop, ← hread]
        rw [← htext]
        exact map_arguments? (fun list stop =>
          (⟨name, ⟨c.offset, stop⟩, some (parseArguments (join p)), list⟩ : CallSite)) d.skipTrivia
  · rw [typeArguments?_of_head? hhead, enclosedAt?_of_head? hhead]
    exact map_arguments? (fun list stop => (⟨name, ⟨c.offset, stop⟩, none, list⟩ : CallSite)) b

theorem exists_of_arguments? {c d : Cursor} {list : List Element}
    (h : arguments? c = some (list, d)) :
    ∃ p : List Run, c.rest.head? = some '(' ∧ c.bracketed? = some (p, d) ∧
      list = parseArguments (join p) := by
  unfold arguments? at h
  split at h
  · next u hc =>
      obtain ⟨⟨p, e⟩, hfound, he⟩ := Option.map_eq_some_iff.mp h
      obtain ⟨rfl, rfl⟩ := Prod.mk.inj he
      exact ⟨p, by rw [hc]; rfl, hfound,
        (parseArguments_join (stable_of_bracketed? hc rfl hfound)).symm⟩
  · exact absurd h (by simp)

/-- How a call lies in the text: it begins with its name where `c` is, its arguments open where `b` is,
behind a gap, and it ends where `d` is, behind the bracket that closes them. -/
structure LiesAt (site : CallSite) (c b d : Cursor) (gap inner : List Run) : Prop where
  reaches : c.Reaches b (site.callee.map code ++ gap)
  opens : b.rest.head? = some '('
  encloses : b.bracketed? = some (inner, d)
  span : site.span = ⟨c.offset, d.offset⟩
  arguments : site.arguments = parseArguments (join inner)
  gap : site.typeArguments = none → ∀ r ∈ gap, r.isTrivia = true

/-- A call is made of runs of the text. -/
theorem LiesAt.exists_reaches {site : CallSite} {c b d : Cursor} {gap inner : List Run}
    (h : LiesAt site c b d gap inner) :
    ∃ x ∈ closers,
      c.Reaches d (site.callee.map code ++ (gap ++ code '(' :: (inner ++ [code x]))) := by
  obtain ⟨u, hu⟩ := List.head?_eq_some_iff.mp h.opens
  obtain ⟨x, hx, hreaches⟩ := exists_reaches_bracketed? hu rfl h.encloses
  refine ⟨x, hx, ?_⟩
  have := h.reaches.trans hreaches
  rwa [List.append_assoc] at this

theorem exists_liesAt_of_at? {name t : Text} {c : Cursor} {site : CallSite}
    (hc : c.rest = name ++ t) (hname : ∀ x ∈ name, Text.isPlain x = true)
    (h : at? name c = some site) :
    site.callee = name ∧ ∃ b d gap inner, LiesAt site c b d gap inner := by
  have hbehind := Cursor.reaches_forward hc hname
  have hskip := (c.forward name.length).reaches_skipTrivia
  have hopening := hbehind.trans hskip
  rw [at?] at h
  generalize (c.forward name.length).skipTrivia = b at h hopening
  -- with type arguments or without them, the parenthesis is reached over runs
  by_cases hhead : b.rest.head? = some '<'
  · obtain ⟨v, hb⟩ := List.head?_eq_some_iff.mp hhead
    rw [typeArguments?_of_cons hb] at h
    cases hfound : b.bracketed? with
    | none =>
        rw [hfound] at h
        exact absurd h (by simp)
    | some found =>
        obtain ⟨q, e⟩ := found
        rw [hfound] at h
        obtain ⟨⟨list, d⟩, hlist, rfl⟩ := Option.map_eq_some_iff.mp h
        obtain ⟨x, -, htypes⟩ := exists_reaches_bracketed? hb rfl hfound
        obtain ⟨p, hround, hbracketed, hread⟩ := exists_of_arguments? hlist
        have hreaches := (hopening.trans htypes).trans e.reaches_skipTrivia
        rw [List.append_assoc, List.append_assoc] at hreaches
        exact ⟨rfl, _, d, _, p, hreaches, hround, hbracketed, rfl, hread, fun h => nomatch h⟩
  · rw [typeArguments?_of_head? hhead] at h
    obtain ⟨⟨list, d⟩, hlist, rfl⟩ := Option.map_eq_some_iff.mp h
    obtain ⟨p, hround, hbracketed, hread⟩ := exists_of_arguments? hlist
    exact ⟨rfl, b, d, _, p, hopening, hround, hbracketed, rfl, hread,
      fun _ r hr => List.mem_takeWhile_imp hr⟩

/-! ## What the reader does at a candidate -/

theorem isPlain_of_mem_dottedPath {t : Text} {x : Char} (h : x ∈ Text.dottedPath t) :
    Text.isPlain x = true :=
  Text.isPlain_of_isPathChar (Text.isPathChar_of_mem_dottedPath h)

/-- Where a cursor stands, a candidate is what begins a word there, is registered, is not declared and
is called. -/
theorem candidateAt?_offset (cs : Callees) (c : Cursor) :
    candidateAt? c.text cs c.offset =
      if Text.dottedPath c.rest ≠ [] ∧ c.startsWord = true ∧
          cs.contains (Text.dottedPath c.rest) = true ∧ c.followsFunctionKeyword = false then
        at? (Text.dottedPath c.rest) c
      else none := by
  obtain ⟨t, ht⟩ := Text.dottedPath_prefix c.rest
  rw [at?_eq ht.symm fun x hx => isPlain_of_mem_dottedPath hx, candidateAt?, Cursor.place_offset]
  rfl

/-- The call at a candidate lies in the text from there on. -/
theorem exists_liesAt_of_candidateAt? {cs : Callees} {c : Cursor} {site : CallSite}
    (h : candidateAt? c.text cs c.offset = some site) :
    site.callee = Text.dottedPath c.rest ∧ site.callee ≠ [] ∧
      ∃ b d gap inner, LiesAt site c b d gap inner := by
  rw [candidateAt?_offset] at h
  split at h
  · next hcandidate =>
      obtain ⟨t, ht⟩ := Text.dottedPath_prefix c.rest
      obtain ⟨hcallee, hlies⟩ :=
        exists_liesAt_of_at? ht.symm (fun x hx => isPlain_of_mem_dottedPath hx) h
      exact ⟨hcallee, hcallee ▸ hcandidate.1, hlies⟩
  · exact absurd h (by simp)

theorem look_of_no_word {cs : Callees} {c : Cursor}
    (h : Text.dottedPath c.rest = [] ∨ c.startsWord = false) : look cs c = (none, .onward) := by
  rw [look, if_pos]
  rcases h with h | h <;> simp [h]

theorem look_of_call {cs : Callees} {c : Cursor} {site : CallSite}
    (h : candidateAt? c.text cs c.offset = some site) :
    look cs c = (some site, .resume site.span.stop) := by
  rw [candidateAt?_offset] at h
  split at h
  · next hcandidate =>
      obtain ⟨hname, hword, hregistered, hdeclared⟩ := hcandidate
      have hstarts : ¬((Text.dottedPath c.rest).isEmpty || !c.startsWord) = true := by
        simp [hname, hword]
      have hcalled : ¬(!cs.contains (Text.dottedPath c.rest) || c.followsFunctionKeyword) = true := by
        simp [hregistered, hdeclared]
      simp only [look, if_neg hstarts, if_neg hcalled, h]
  · exact absurd h (by simp)

theorem look_of_no_call {cs : Callees} {c : Cursor} (hname : Text.dottedPath c.rest ≠ [])
    (hword : c.startsWord = true) (h : candidateAt? c.text cs c.offset = none) :
    look cs c = (none, .resume (c.offset + Text.size (Text.dottedPath c.rest))) := by
  have hstarts : ¬((Text.dottedPath c.rest).isEmpty || !c.startsWord) = true := by
    simp [hname, hword]
  simp only [look, if_neg hstarts]
  split
  · rfl
  · next hcalled =>
      rw [Bool.or_eq_true, not_or, Bool.not_eq_true, Bool.not_eq_true, Bool.not_eq_false'] at hcalled
      rw [candidateAt?_offset, if_pos ⟨hname, hword, hcalled⟩] at h
      rw [h]

/-- Inside a dotted path there is no candidate, since what stands in front belongs to a name. -/
theorem candidateAt?_eq_none (cs : Callees) {c : Cursor} {x : Char} {p : Text}
    (hp : c.passed = x :: p) (hx : Text.isPathChar x = true) :
    candidateAt? c.text cs c.offset = none := by
  have hword : c.startsWord = false := by
    rw [Text.isPathChar, Bool.or_eq_true, beq_iff_eq] at hx
    rw [Cursor.startsWord, hp]
    rcases hx with hx | rfl
    · simp [hx]
    · rfl
  rw [candidateAt?_offset, if_neg]
  simp [hword]

/-! ## Where the candidates lie -/

theorem codeOffsets_eq (source : Text) : codeOffsets source = Run.codeOffsets 0 (runs source) :=
  Cursor.codeOffsets_scan (.ofText source)

theorem exists_reaches_of_mem_codeOffsets {source : Text} {p : Nat} (h : p ∈ codeOffsets source) :
    ∃ c front, (Cursor.ofText source).Reaches c front ∧ c.offset = p := by
  rw [codeOffsets_eq] at h
  obtain ⟨front, x, after, hruns, rfl⟩ := exists_of_mem_codeOffsets h
  refine ⟨_, front, Cursor.reaches_of_runs_eq hruns, ?_⟩
  rw [Nat.zero_add]
  exact Text.size_reverse _

/-- A candidate lies in the text where the scan comes by. -/
theorem exists_liesAt_of_mem_candidates {source : Text} {cs : Callees} {site : CallSite}
    (h : site ∈ candidates source cs) :
    site.callee ≠ [] ∧ ∃ c b d front gap inner,
      (Cursor.ofText source).Reaches c front ∧ LiesAt site c b d gap inner := by
  obtain ⟨p, hp, hsite⟩ := List.mem_filterMap.mp h
  obtain ⟨c, front, hreaches, rfl⟩ := exists_reaches_of_mem_codeOffsets hp
  rw [← Cursor.text_ofText source, ← hreaches.text_eq] at hsite
  obtain ⟨-, hcallee, b, d, gap, inner, hlies⟩ := exists_liesAt_of_candidateAt? hsite
  exact ⟨hcallee, c, b, d, front, gap, inner, hreaches, hlies⟩

/-- The name of a candidate is the longest dotted path where it begins. -/
theorem isLongestPath_of_mem_candidates {source : Text} {cs : Callees} {site : CallSite}
    (h : site ∈ candidates source cs) :
    Text.IsLongestPath site.callee (Cursor.place source site.span.start).rest := by
  obtain ⟨p, hp, hsite⟩ := List.mem_filterMap.mp h
  obtain ⟨c, front, hreaches, rfl⟩ := exists_reaches_of_mem_codeOffsets hp
  obtain rfl : c.text = source := by rw [hreaches.text_eq, Cursor.text_ofText]
  rw [start_of_candidateAt? hsite, Cursor.place_offset]
  obtain ⟨hcallee, hne, -⟩ := exists_liesAt_of_candidateAt? hsite
  exact Text.isLongestPath_iff.mpr ⟨hne, hcallee.symm⟩

/-- A candidate is a piece of the text that begins with the name that is called. -/
theorem slice?_of_mem_candidates {source : Text} {cs : Callees} {site : CallSite}
    (h : site ∈ candidates source cs) :
    site.span.start < site.span.stop ∧
      ∃ behind, site.span.slice? source = some (site.callee ++ behind) := by
  obtain ⟨hcallee, c, b, d, front, gap, inner, hfront, hlies⟩ := exists_liesAt_of_mem_candidates h
  obtain ⟨x, -, hreaches⟩ := hlies.exists_reaches
  have hslice := hreaches.slice?_eq
  have hoffset := hreaches.offset_eq
  have hpos := Text.size_pos hcallee
  rw [join_append, join_map_code] at hslice hoffset
  rw [hfront.text_eq, Cursor.text_ofText] at hslice
  rw [Text.size_append] at hoffset
  rw [hlies.span]
  refine ⟨?_, _, hslice⟩
  show c.offset < d.offset
  omega

theorem pairwise_candidates (source : Text) (cs : Callees) :
    (candidates source cs).Pairwise fun a b => a.span.start < b.span.start := by
  rw [candidates, codeOffsets_eq, List.pairwise_filterMap]
  refine (pairwise_codeOffsets 0 (runs source)).imp fun hlt a ha b hb => ?_
  rwa [start_of_candidateAt? ha, start_of_candidateAt? hb]

end CallSite

end ScriptSurvey
