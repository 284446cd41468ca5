import ScriptSurvey.Proofs.Call.LookBehind

/-!
# Members and declarations

A name with arguments behind it is no call where it belongs to what stands in front of it, up to white
space and comments: behind a single dot it is a member, and behind `function`, or `function` and a star,
it is declared. The reader looks for such a **tie** among the characters in front of the name.

* It sees a dot that stands directly in front, and the word `function` with blanks behind it. **No name
  with such a tie is found.**
* It sees no dot through a gap, no `function` through a comment or a byte order mark, and no star at all.
  **A name with such a tie is a candidate**, like one without any.
-/

namespace ScriptSurvey

open Run

/-- What makes a name belong to what stands in front of it. -/
inductive Tie where
  /-- A member, as in `x.name` and `x?.name`. -/
  | member
  /-- A function that is declared, as in `function name`. -/
  | declared
  /-- A generator that is declared, as in `function* name`. -/
  | generator
deriving DecidableEq, Repr

namespace Tie

/-- Whether runs end in what ties a name to them. Three dots do not: they spread a value. -/
def Ends (rs : List Run) : Tie → Prop
  | member => ∃ q, rs = q ++ [code '.'] ∧ q.getLast? ≠ some (code '.')
  | declared => EndsInFunction rs
  | generator => ∃ q gap, rs = q ++ (gap ++ [code '*']) ∧ EndsInFunction q ∧
      ∀ r ∈ gap, r.isTrivia = true

/-- Whether the reader sees it through the gap in front of the name. -/
def IsSeen (gap : List Run) : Tie → Prop
  | member => gap = []
  | declared => ∀ r ∈ gap, r.isBlank = true
  | generator => False

end Tie

/-- What stands in front of byte `p` of a text: runs that do not end in trivia, and a gap of trivia. -/
structure InFront (source : Text) (front gap : List Run) (p : Nat) : Prop where
  ahead : ∃ after, runs source = front ++ gap ++ after
  offset : p = Text.size (join (front ++ gap))
  isTrivia : ∀ r ∈ gap, r.isTrivia = true
  last : ∀ r, front.getLast? = some r → r.isTrivia = false

theorem InFront.stable {source : Text} {front gap : List Run} {p : Nat}
    (h : InFront source front gap p) : Stable (front ++ gap) := by
  obtain ⟨after, hruns⟩ := h.ahead
  exact stable_front hruns

namespace CallSite

theorem exists_inFront {source : Text} {cs : Callees} {site : CallSite}
    (h : site ∈ calls source cs) : ∃ front gap, InFront source front gap site.span.start := by
  obtain ⟨rs, x, after, hruns, -, hstart⟩ := exists_of_mem_calls h
  obtain ⟨front, gap, rfl, hgap, hlast⟩ := exists_eq_append_of_last isTrivia rs
  exact ⟨front, gap, ⟨⟨_, hruns⟩, hstart, hgap, hlast⟩⟩

end CallSite

/-! ## What is seen -/

theorem Run.EndsInFunction.getLast? {rs : List Run} (h : EndsInFunction rs) :
    rs.getLast? = some (code 'n') := by
  obtain ⟨q, rfl, -⟩ := h
  rw [List.getLast?_append]
  rfl

/-- Where a tie is seen, a path goes on or the characters end in the word. -/
theorem Tie.IsSeen.blocks {tie : Tie} {front gap : List Run} (hseen : tie.IsSeen gap)
    (hends : tie.Ends front) (hstable : Stable front) :
    (front ++ gap).getLast? = some (code '.') ∨ (join (front ++ gap)).EndsInFunction := by
  cases tie with
  | member =>
      obtain ⟨q, rfl, -⟩ := hends
      rw [show gap = [] from hseen, List.append_nil]
      exact .inl List.getLast?_concat
  | declared =>
      refine .inr ((endsInFunction_join_append_iff hseen).mpr ?_)
      obtain ⟨q, rfl⟩ := List.getLast?_eq_some_iff.mp (EndsInFunction.getLast? hends)
      exact (endsInFunction_join_code_iff hstable (by decide)).mpr hends
  | generator => exact hseen.elim

/-- The last run in front of a name whose tie is not seen is a star, or trivia. -/
theorem Tie.last_of_not_isSeen {tie : Tie} {front gap : List Run} (hseen : ¬tie.IsSeen gap)
    (hends : tie.Ends front) (hgap : ∀ r ∈ gap, r.isTrivia = true) {d : Char}
    (hd : (front ++ gap).getLast? = some (code d)) : d = '*' ∨ Text.isWhiteSpace d = true := by
  rcases List.eq_nil_or_concat gap with rfl | ⟨g, r, rfl⟩
  · rw [List.append_nil] at hd
    cases tie with
    | member => exact absurd rfl hseen
    | declared => exact absurd (fun r hr => absurd hr List.not_mem_nil) hseen
    | generator =>
        obtain ⟨q, g, rfl, -, -⟩ := hends
        rw [← List.append_assoc, List.getLast?_concat] at hd
        exact .inl (code.inj (Option.some.inj hd)).symm
  · rw [List.concat_eq_append] at hd hgap
    rw [← List.append_assoc, List.getLast?_concat] at hd
    have hr := hgap r (by simp)
    rw [Option.some.inj hd] at hr
    exact .inr hr

/-- Where a tie is not seen, the characters end in the word only if those of a comment do. -/
theorem Tie.not_endsInFunction {tie : Tie} {front gap : List Run} (hseen : ¬tie.IsSeen gap)
    (hends : tie.Ends front) (hgap : ∀ r ∈ gap, r.isTrivia = true)
    (hcomment : ∀ r ∈ gap, ¬r.text.EndsInFunction) (hstable : Stable (front ++ gap)) :
    ¬(join (front ++ gap)).EndsInFunction := by
  have hcode {q : List Run} {d : Char} (h : Stable (q ++ [code d])) (hd : Text.isBlank d = false)
      (hn : d ≠ 'n') : ¬(join (q ++ [code d])).EndsInFunction := by
    rw [endsInFunction_join_code_iff h hd]
    intro hword
    have hlast := EndsInFunction.getLast? hword
    rw [List.getLast?_concat] at hlast
    exact hn (code.inj (Option.some.inj hlast))
  -- what decides is the last run that is not blank: in the gap, or else in front of it
  obtain ⟨g, bs, rfl, hblank, hlast⟩ := exists_eq_append_of_last isBlank gap
  rw [← List.append_assoc] at hstable ⊢
  rw [endsInFunction_join_append_iff hblank]
  have hstable := hstable.of_append_left
  rcases List.eq_nil_or_concat g with rfl | ⟨g, r, rfl⟩
  · -- the gap is blank, and in front of it stands a dot or a star
    rw [List.append_nil] at hstable ⊢
    cases tie with
    | member =>
        obtain ⟨q, rfl, -⟩ := hends
        exact hcode hstable (by decide) (by decide)
    | declared => exact absurd hblank hseen
    | generator =>
        obtain ⟨q, g, rfl, -, -⟩ := hends
        rw [← List.append_assoc] at hstable ⊢
        exact hcode hstable (by decide) (by decide)
  · rw [List.concat_eq_append] at hgap hcomment hlast hstable ⊢
    rw [← List.append_assoc] at hstable ⊢
    have hr := hgap r (by simp)
    cases r with
    | code d =>
        refine hcode hstable (hlast _ List.getLast?_concat) fun hn => ?_
        rw [hn] at hr
        exact absurd hr (by decide)
    | comment kind t =>
        rw [endsInFunction_join_concat_iff hstable rfl]
        exact hcomment _ (by simp)
    | literal kind t => exact absurd hr Bool.false_ne_true

/-! ## What is found -/

namespace CallSite

variable {source : Text} {cs : Callees} {site : CallSite} {front gap : List Run}

theorem not_isFree_of_isSeen (h : site ∈ calls source cs)
    (hfront : InFront source front gap site.span.start) {tie : Tie} (hends : tie.Ends front)
    (hseen : tie.IsSeen gap) : isFree source site.span.start = false := by
  obtain ⟨after, hruns⟩ := hfront.ahead
  rw [← Bool.not_eq_true, isFree_iff h hruns hfront.offset]
  rintro ⟨hpath, hword⟩
  rcases hseen.blocks hends hfront.stable.of_append_left with hdot | hfunction
  · exact absurd (hpath '.' hdot) (by decide)
  · exact hword hfunction

theorem isFree_of_not_isSeen (h : site ∈ calls source cs)
    (hfront : InFront source front gap site.span.start)
    (hcomment : ∀ r ∈ gap, ¬r.text.EndsInFunction) {tie : Tie} (hends : tie.Ends front)
    (hseen : ¬tie.IsSeen gap) : isFree source site.span.start = true := by
  obtain ⟨after, hruns⟩ := hfront.ahead
  refine (isFree_iff h hruns hfront.offset).mpr ⟨fun d hd => ?_,
    Tie.not_endsInFunction hseen hends hfront.isTrivia hcomment hfront.stable⟩
  rcases Tie.last_of_not_isSeen hseen hends hfront.isTrivia hd with rfl | hspace
  · decide
  · cases hpath : Text.isPathChar d with
    | false => rfl
    | true =>
        rw [Text.isWhiteSpace_of_isPathChar hpath] at hspace
        exact absurd hspace Bool.false_ne_true

/-- Whether the name that is called is tied to what stands in front of it. -/
def IsTied (source : Text) (site : CallSite) : Prop :=
  ∃ front gap, InFront source front gap site.span.start ∧ ∃ tie : Tie, tie.Ends front

end CallSite

open CallSite

/-- **No name is found whose tie is seen, and a name whose tie is not seen is taken for a call**: it is
found, or stands inside a call that is. Only a comment in front of it that itself ends in the word
`function` can keep it from that. -/
theorem findCalls_ties (cs : Callees) (source : Text) :
    (∀ site ∈ findCalls cs source, (∃ front gap, InFront source front gap site.span.start) ∧
      ∀ front gap, InFront source front gap site.span.start →
        ∀ tie : Tie, tie.Ends front → ¬tie.IsSeen gap) ∧
    ∀ site ∈ calls source cs, ∀ front gap, InFront source front gap site.span.start →
      (∀ r ∈ gap, ¬r.text.EndsInFunction) → ∀ tie : Tie, tie.Ends front → ¬tie.IsSeen gap →
        site ∈ findCalls cs source ∨ ∃ kept ∈ findCalls cs source,
          kept.span.start < site.span.start ∧ site.span.start < kept.span.stop := by
  constructor
  · intro site hsite
    rw [findCalls_eq] at hsite
    obtain ⟨hcalled, hfree⟩ := mem_candidates_iff.mp ((keepApart_sublist 0 _).mem hsite)
    refine ⟨exists_inFront hcalled, fun front gap hfront tie hends hseen => ?_⟩
    rw [not_isFree_of_isSeen hcalled hfront hends hseen] at hfree
    exact Bool.false_ne_true hfree
  · intro site hsite front gap hfront hcomment tie hends hseen
    exact mem_findCalls_or
      (mem_candidates_iff.mpr ⟨hsite, isFree_of_not_isSeen hsite hfront hcomment hends hseen⟩)

/-- In `x.f(a), x. f(b)`, the name behind the first dot is not found, and the one behind the second dot
is taken for a call. -/
theorem findCalls_ties_spaced :
    let source := "x.f(a), x. f(b)".toList
    let front := runs "x.f(a), x.".toList
    (findCalls ⟨[['f']]⟩ source).map (·.span.start) = [11] ∧
      ∃ site ∈ calls source ⟨[['f']]⟩, InFront source front [code ' '] site.span.start ∧
        Tie.member.Ends front ∧ ¬Tie.member.IsSeen [code ' '] ∧
        (site ∈ findCalls ⟨[['f']]⟩ source ∨ ∃ kept ∈ findCalls ⟨[['f']]⟩ source,
          kept.span.start < site.span.start ∧ site.span.start < kept.span.stop) := by
  intro source front
  obtain ⟨site, hsite, hstart⟩ : ∃ site ∈ calls source ⟨[['f']]⟩, site.span.start = 11 := by
    decide +kernel
  have hfront : InFront source front [code ' '] site.span.start :=
    ⟨⟨runs "f(b)".toList, by decide +kernel⟩, hstart.trans (by decide +kernel), by decide,
      by decide +kernel⟩
  have hends : Tie.member.Ends front := ⟨runs "x.f(a), x".toList, by decide +kernel, by decide +kernel⟩
  have hseen : ¬Tie.member.IsSeen [code ' '] := List.cons_ne_nil _ _
  exact ⟨by decide +kernel, site, hsite, hfront, hends, hseen,
    (findCalls_ties ⟨[['f']]⟩ source).2 site hsite front _ hfront (by decide +kernel) _ hends hseen⟩

/-- In `function* f(a) {}`, `x. f(a)` and `function /**/ f(a) {}`, the name that is declared or belongs
to `x` is found as a call. -/
theorem tied_names_found :
    (∃ site ∈ findCalls ⟨[['f']]⟩ "function* f(a) {}".toList, site.IsTied "function* f(a) {}".toList) ∧
    (∃ site ∈ findCalls ⟨[['f']]⟩ "x. f(a)".toList, site.IsTied "x. f(a)".toList) ∧
    ∃ site ∈ findCalls ⟨[['f']]⟩ "function /**/ f(a) {}".toList,
      site.IsTied "function /**/ f(a) {}".toList := by
  have hcode (d : Char) (q : List Run) (hd : Text.isWhiteSpace d = false) :
      ∀ r, (q ++ [code d]).getLast? = some r → r.isTrivia = false := by
    intro r hr
    rw [List.getLast?_concat] at hr
    rw [← Option.some.inj hr]
    exact hd
  have hword : EndsInFunction (functionWord.map code) := ⟨[], rfl, by simp⟩
  refine ⟨?_, ?_, ?_⟩
  · obtain ⟨site, hsite, hstart⟩ : ∃ site ∈ findCalls ⟨[['f']]⟩ "function* f(a) {}".toList,
        site.span.start = 10 := by
      decide +kernel
    refine ⟨site, hsite, functionWord.map code ++ [code '*'], [code ' '],
      ⟨⟨runs "f(a) {}".toList, by decide +kernel⟩, hstart, by decide, hcode _ _ (by decide)⟩,
      .generator, functionWord.map code, [], rfl, hword, by simp⟩
  · obtain ⟨site, hsite, hstart⟩ : ∃ site ∈ findCalls ⟨[['f']]⟩ "x. f(a)".toList,
        site.span.start = 3 := by
      decide +kernel
    refine ⟨site, hsite, [code 'x', code '.'], [code ' '],
      ⟨⟨runs "f(a)".toList, by decide +kernel⟩, hstart, by decide, hcode _ [code 'x'] (by decide)⟩,
      .member, [code 'x'], rfl, by decide⟩
  · obtain ⟨site, hsite, hstart⟩ : ∃ site ∈ findCalls ⟨[['f']]⟩ "function /**/ f(a) {}".toList,
        site.span.start = 14 := by
      decide +kernel
    refine ⟨site, hsite, functionWord.map code,
      [code ' ', .comment .block "/**/".toList, code ' '],
      ⟨⟨runs "f(a) {}".toList, by decide +kernel⟩, hstart, by decide,
        hcode 'n' (functionWord.dropLast.map code) (by decide)⟩, .declared, hword⟩

end ScriptSurvey
