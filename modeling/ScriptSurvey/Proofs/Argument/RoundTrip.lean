import ScriptSurvey.Proofs.Argument.ReadBack

/-!
# The round trip

A list of canonical elements is read back from its text exactly when its functions keep apart from
the name `as`. In one direction the proof goes along the grammar: every kind of element is read back
as that kind, so the parts decide, and a function keeps its kind because no ` as ` stands outside
its brackets. In the other direction an ` as ` outside the brackets of a function makes an assertion
of it, and that is not what was written.
-/

namespace ScriptSurvey

open Run Nesting

namespace Element

section Canonical

variable {allowed : Option ArrowTypes → Element → Prop}

/-! ## What stands behind an arrow -/

/-- What stands in front in the runs of a body. -/
inductive Front : Element → List Run → Prop
  /-- The one word that it is. -/
  | word {t : Text} : t.IsWord → Front (leaf t) (runs t)
  /-- The bracket of an array, or that of the parameters of a function. -/
  | bracket {e : Element} {o : Char} {rs : List Run} : o = '[' ∨ o = '(' →
      (∀ name b, Text.isIdentifier name = true → e ≠ arrow [leaf name] none b) →
      Front e (code o :: rs)
  /-- The name that is applied. -/
  | applied {e : Element} {name : Text} {o c : Char} {rs : List Run} : IsName name →
      (o, c) ∈ bracketPairs → (∀ params types b, e ≠ arrow params types b) →
      Front e (runs name ++ code o :: rs)
  /-- The one parameter of a function. -/
  | parameter {name : Text} {b : Element} {rs : List Run} : Text.isIdentifier name = true →
      Front (arrow [leaf name] none b) (runs name ++ code ' ' :: rs)

/-- Every body begins in one of these ways. -/
theorem front_render {e : Element} (h : Canonical allowed e) (hb : e.isBody = true) :
    Front e (runs (render e)) := by
  cases h with
  | leaf ht =>
      rw [render]
      exact .word ht.isWord
  | array hi =>
      rw [runs_array fun e he => isWritten_render (hi e he)]
      exact .bracket (.inl rfl) (by simp)
  | call hn ha =>
      rw [render, runs_applied (isWritten_name hn).isSealed pair_round
        fun e he => isWritten_render (ha e he)]
      exact .applied hn pair_round (by simp)
  | generic hn ht =>
      rw [render, runs_applied (isWritten_name hn).isSealed pair_angle
        fun e he => isWritten_render (ht e he)]
      exact .applied hn pair_angle (by simp)
  | genericCall hn ht ha =>
      rw [runs_genericCall hn (fun e he => isWritten_render (ht e he))
        fun e he => isWritten_render (ha e he)]
      exact .applied hn pair_angle (by simp)
  | @arrow params types body hh hp _ _ _ =>
      have hw : ∀ e ∈ params, (render e).IsWritten := fun e he => isWritten_render (hp e he)
      cases types with
      | none =>
          rw [runs_untypedArrow hw]
          rcases parameterText_cases params with ⟨name, rfl, hid, htext⟩ | ⟨htext, hne⟩
          · rw [htext]
            exact .parameter hid
          · rw [htext, Text.runs_bracketed pair_round (Text.sealed_list (isWritten_renderEach hw))]
            refine .bracket (.inr rfl) fun name b hid he => hne name hid ?_
            exact (Element.arrow.inj he).1
      | some types =>
          rw [runs_typedArrow (isWritten_annotate (isWritten_renderEach hw) hh.2.2.1)
            (.of_isDottedPath hh.2.2.2)]
          exact .bracket (.inr rfl) (by simp)
  | object => exact absurd hb (by simp [isBody])
  | assertion => exact absurd hb (by simp [isBody])

/-- A body is no block, except for the empty one. -/
theorem head_render {e : Element} (h : Canonical allowed e) (hb : e.isBody = true) :
    (runs (render e)).head? ≠ some (code '\x7b') := by
  have hname {name : Text} (hn : IsName name) (rs : List Run) :
      (runs name ++ rs).head? ≠ some (code '\x7b') := by
    obtain ⟨r, ns, hr, hbare⟩ := exists_cons_of_isName hn
    rw [hr]
    exact fun he => ne_of_isBare hbare rfl (Option.some.inj he)
  have hfront := front_render h hb
  generalize runs (render e) = rs at hfront ⊢
  cases hfront with
  | word ht => exact fun he => ne_of_isBare (ht.bare _ (List.mem_of_mem_head? he)) rfl rfl
  | bracket ho _ => rcases ho with rfl | rfl <;> simp
  | applied hn _ _ => exact hname hn _
  | parameter hid => exact hname (.inl (Text.isDottedPath_of_isIdentifier hid)) _

theorem isBodyText_emptyBlock : IsBodyText emptyBlock :=
  ⟨isWritten_emptyBlock, fun h => absurd rfl h⟩

theorem isBodyText_of_canonical {body : Element} (hb : body.isBody = true)
    (h : body ≠ emptyBlock → Canonical allowed body) : IsBodyText body := by
  by_cases hempty : body = emptyBlock
  · rw [hempty]
    exact isBodyText_emptyBlock
  · exact ⟨isWritten_render (h hempty), fun _ => head_render (h hempty) hb⟩

/-- The only body that begins with the name `as` and a space is a function of that parameter. -/
theorem startsAs_render_iff {e : Element} (h : Canonical allowed e) (he : e.isBody = true) :
    StartsAs (runs (render e)) ↔ ∃ b, e = arrow [leaf asName] none b := by
  have hfront := front_render h he
  generalize runs (render e) = rs at hfront ⊢
  cases hfront with
  | word ht => exact iff_of_false ht.bare.not_startsAs (by simp)
  | bracket ho hne =>
      refine iff_of_false ?_ fun ⟨b, hb⟩ => hne asName b rfl hb
      rintro ⟨after, hstart⟩
      rw [List.cons.injEq, Run.code.injEq] at hstart
      rcases ho with rfl | rfl <;> exact absurd hstart.1 (by decide)
  | applied hn hpair hne =>
      exact iff_of_false (not_startsAs_applied hn hpair _) fun ⟨b, hb⟩ => hne _ _ b hb
  | parameter hid =>
      rw [startsAs_space_iff (Text.IsWord.of_isIdentifier hid).bare, Form.runs_eq_as_iff]
      simp

/-! ## Where ` as ` stands outside brackets -/

/-- The head of a function holds no ` as `, so that its result type and its body decide. -/
theorem lacks_as_arrow_iff {params : List Element} {types : Option ArrowTypes} {body : Element}
    (hh : IsHead params types) (hw : ∀ e ∈ params, (render e).IsWritten) :
    Lacks asWord (runs (render (arrow params types body))) ↔ FreeOfAs types body := by
  have hsealed := Text.sealed_list (isWritten_renderEach hw)
  cases types with
  | none =>
      have hhead : Level (runs (parameterText params (renderEach params))) ∧
          Lacks [' '] (runs (parameterText params (renderEach params))) := by
        rcases parameterText_cases params with ⟨name, _, hid, htext⟩ | ⟨htext, _⟩
        · have hbare := (Text.IsWord.of_isIdentifier hid).bare
          rw [htext]
          exact ⟨hbare.level, hbare.lacks rfl []⟩
        · have hl := level_renderEach hw
          rw [htext, Text.runs_bracketed pair_round hsealed]
          exact ⟨.bracketed pair_round hl,
            lacks_group pair_round (hl.closedBy pair_round) (by decide) (lacks_nil _ _)⟩
      rw [runs_untypedArrow hw, Form.lacks_as_arrow_iff hhead.1 hhead.2]
      exact ⟨fun h => ⟨by simp, h.1, h.2⟩, fun h => ⟨h.start, h.lacks⟩⟩
  | some types =>
      have ha := isWritten_annotate (isWritten_renderEach hw) hh.2.2.1
      have hr := Text.IsWord.of_isDottedPath hh.2.2.2
      rw [runs_typedArrow ha hr, List.cons_append, List.append_assoc, List.singleton_append, asWord,
        lacks_group_iff pair_round ((Text.level_list ha).closedBy pair_round) (by decide), ← asWord,
        Form.lacks_as_result_iff hr]
      exact ⟨fun h => ⟨fun ts hts => Option.some.inj hts ▸ h.1, h.2.1, h.2.2⟩,
        fun h => ⟨h.result types rfl, h.start, h.lacks⟩⟩

/-- Outside the brackets of a canonical element there is no ` as ` but that of an assertion, if
functions keep apart from the name. -/
theorem lacks_as_render {e : Element} (h : Canonical ApartFromAs e) (he : e.isBody = true) :
    Lacks asWord (runs (render e)) := by
  have level {es : List Element} (hes : ∀ e ∈ es, Canonical ApartFromAs e) :
      Level (runs (Text.commaJoin (renderEach es))) :=
    level_renderEach fun e he => isWritten_render (hes e he)
  -- outside brackets stand words and names, but for the result type and the body of a function
  induction h with
  | leaf ht =>
      rw [render]
      exact ht.isWord.bare.lacks rfl _
  | array hi =>
      rw [runs_array fun e he => isWritten_render (hi e he)]
      exact lacks_group pair_square ((level hi).closedBy pair_square) (by decide) (lacks_nil _ _)
  | call hn ha =>
      rw [render, runs_applied (isWritten_name hn).isSealed pair_round
        fun e he => isWritten_render (ha e he)]
      exact lacks_as_applied hn pair_round
        (lacks_group pair_round ((level ha).closedBy pair_round) (by decide) (lacks_nil _ _))
  | generic hn ht =>
      rw [render, runs_applied (isWritten_name hn).isSealed pair_angle
        fun e he => isWritten_render (ht e he)]
      exact lacks_as_applied hn pair_angle
        (lacks_group pair_angle ((level ht).closedBy pair_angle) (by decide) (lacks_nil _ _))
  | genericCall hn ht ha =>
      rw [runs_genericCall hn (fun e he => isWritten_render (ht e he))
        fun e he => isWritten_render (ha e he)]
      exact lacks_as_applied hn pair_angle
        (lacks_group pair_angle ((level ht).closedBy pair_angle) (by decide)
          (lacks_group pair_round ((level ha).closedBy pair_round) (by decide) (lacks_nil _ _)))
  | @arrow params types body hh hp hb hbody hapart _ ih =>
      rw [lacks_as_arrow_iff hh fun e he => isWritten_render (hp e he)]
      refine ⟨hapart.1, ?_, ?_⟩
      · by_cases hempty : body = emptyBlock
        · rw [hempty, runs_emptyBlock]
          rintro ⟨after, ha⟩
          exact absurd ha (by simp)
        · rw [startsAs_render_iff (hbody hempty) hb]
          rintro ⟨b, hbody⟩
          exact hapart.2 b hbody
      · by_cases hempty : body = emptyBlock
        · rw [hempty, runs_emptyBlock]
          rfl
        · exact ih hempty hb
  | object => exact absurd he (by simp [isBody])
  | assertion => exact absurd he (by simp [isBody])

/-- A function with an ` as ` outside its brackets is read as an assertion. -/
theorem readBack_of_not_lacks {e : Element} (h : Canonical allowed e) (he : e.isBody = true)
    (has : ¬Lacks asWord (runs (render e))) :
    ∃ target expr, readBack e = assertion target expr := by
  have htrim := (isWritten_render h).isPiece.trimmed
  obtain ⟨target, expr, hform⟩ := Form.assertion?_of_not_lacks htrim has
  have hobject : Form.object? (runs (render e)) = none := by
    obtain ⟨r, rs, hr⟩ := List.exists_cons_of_ne_nil htrim.ne_nil
    have hhead := head_render h he
    rw [hr, List.head?_cons] at hhead
    rw [hr]
    exact Form.object?_eq_none (wrapped_of_head fun heq => hhead (by rw [heq]))
  refine ⟨target, ofRuns expr, ?_⟩
  rw [readBack, ofRuns_eq, Form.of_of_trimmed htrim, hobject, hform]
  rfl

/-! ## The round trip -/

/-- **A canonical element whose functions keep apart from `as` is read back as it was.** -/
theorem readBack_of_canonical {e : Element} (h : Canonical ApartFromAs e) : readBack e = e := by
  have written {es : List Element} (hes : ∀ e ∈ es, Canonical ApartFromAs e) :
      ∀ e ∈ es, (render e).IsWritten := fun e he => isWritten_render (hes e he)
  have same {es : List Element} (ih : ∀ e ∈ es, readBack e = e) : es.map readBack = es :=
    (List.map_congr_left ih).trans (List.map_id es)
  induction h with
  | leaf ht => exact readBack_leaf ht.isWord
  | array hi ih => rw [readBack_array (written hi), same ih]
  | call hn ha ih => rw [readBack_call (written ha) hn, same ih]
  | generic hn ht ih => rw [readBack_generic (written ht) hn, same ih]
  | genericCall hn ht ha iht iha =>
      rw [readBack_genericCall (written ht) hn (written ha), same iht, same iha]
  | @arrow params types body hh hp hb hbody hapart ihp ih =>
      -- a function is read back as one only if no ` as ` makes an assertion of it
      have hlacks := lacks_as_render (.arrow hh hp hb hbody hapart) rfl
      have hfree := (lacks_as_arrow_iff hh (written hp)).mp hlacks
      rw [readBack_arrow hh (written hp) (isBodyText_of_canonical hb hbody) hfree, same ihp]
      by_cases hempty : body = emptyBlock
      · rw [hempty, readBackBody_emptyBlock]
      · rw [readBackBody_of_ne hempty, ih hempty]
  | @object properties hn hk hv ih =>
      rw [readBack_object hn hk fun p hp => isWritten_render (hv p hp)]
      refine congrArg object ((List.map_congr_left fun p hp => ?_).trans (List.map_id properties))
      rw [ih p hp]
      rfl
  | assertion ht he ih =>
      rw [readBack_assertion (Text.IsWord.of_isDottedPath ht) (isWritten_render he), ih]

/-- Whatever is read back as it was keeps apart from `as`. -/
theorem canonical_of_readBack {e : Element} (h : Canonical allowed e) (hback : readBack e = e) :
    Canonical ApartFromAs e := by
  have written {es : List Element} (hes : ∀ e ∈ es, Canonical allowed e) :
      ∀ e ∈ es, (render e).IsWritten := fun e he => isWritten_render (hes e he)
  have each {es : List Element} (hes : es.map readBack = es) : ∀ e ∈ es, readBack e = e :=
    List.map_inj_left.mp (hes.trans (List.map_id es).symm)
  induction h with
  | leaf ht => exact .leaf ht
  | array hi ih =>
      rw [readBack_array (written hi), Element.array.injEq] at hback
      exact .array fun e he => ih e he (each hback e he)
  | call hn ha ih =>
      rw [readBack_call (written ha) hn, Element.call.injEq] at hback
      exact .call hn fun e he => ih e he (each hback.2 e he)
  | generic hn ht ih =>
      rw [readBack_generic (written ht) hn, Element.generic.injEq] at hback
      exact .generic hn fun e he => ih e he (each hback.2 e he)
  | genericCall hn ht ha iht iha =>
      rw [readBack_genericCall (written ht) hn (written ha), Element.genericCall.injEq] at hback
      exact .genericCall hn (fun e he => iht e he (each hback.2.1 e he))
        fun e he => iha e he (each hback.2.2 e he)
  | @arrow params types body hh hp hb hbody hallowed ihp ih =>
      have hcanonical : Canonical allowed (arrow params types body) :=
        .arrow hh hp hb hbody hallowed
      have hfree : FreeOfAs types body := by
        rw [← lacks_as_arrow_iff hh (written hp)]
        -- with an ` as ` outside its brackets, the function would come back as an assertion
        by_contra has
        obtain ⟨target, expr, hassertion⟩ := readBack_of_not_lacks hcanonical rfl has
        rw [hback] at hassertion
        exact absurd hassertion (by simp)
      rw [readBack_arrow hh (written hp) (isBodyText_of_canonical hb hbody) hfree,
        Element.arrow.injEq] at hback
      obtain ⟨hparams, _, hread⟩ := hback
      refine .arrow hh (fun p hmem => ihp p hmem (each hparams p hmem)) hb (fun hne => ?_)
        ⟨hfree.result, fun b hbad => hfree.start ?_⟩
      · rw [readBackBody_of_ne hne] at hread
        exact ih hne hread
      · refine (startsAs_render_iff (hbody fun hempty => ?_) hb).mpr ⟨b, hbad⟩
        rw [hempty] at hbad
        exact absurd hbad (by simp [emptyBlock])
  | @object properties hn hk hv ih =>
      rw [readBack_object hn hk fun p hp => isWritten_render (hv p hp),
        Element.object.injEq] at hback
      refine .object hn hk fun p hp => ih p hp ?_
      have := List.map_inj_left.mp (hback.trans (List.map_id properties).symm) p hp
      exact congrArg Prod.snd this
  | assertion ht he ih =>
      rw [readBack_assertion (Text.IsWord.of_isDottedPath ht) (isWritten_render he),
        Element.assertion.injEq] at hback
      exact .assertion ht (ih hback.2)

end Canonical

/-- `(): as => x` -/
def asResult : Element :=
  arrow [] (some ⟨[], asName⟩) (leaf ['x'])

/-- `x => as => y` -/
def asParameter : Element :=
  arrow [leaf ['x']] none (arrow [leaf asName] none (leaf ['y']))

theorem isLeafText_of_isIdentifier {t : Text} (h : Text.isIdentifier t = true) : IsLeafText t :=
  Or.inl (Text.isDottedPath_of_isIdentifier h)

end Element

open Element

theorem parseArguments_eq_map {es : List Element} (h : ∀ e ∈ es, (render e).IsWritten) :
    parseArguments (renderArguments es) = es.map readBack :=
  map_ofRuns_splitAtCommas h

/-- **Reading undoes writing**: canonical elements are read back from the text of their list as they
were, exactly when no function among them has the result type `as`, or a function of the only
parameter `as` as its body. -/
theorem parseArguments_renderArguments_iff {es : List Element}
    (h : ∀ e ∈ es, Canonical (fun _ _ => True) e) :
    parseArguments (renderArguments es) = es ↔ ∀ e ∈ es, Canonical ApartFromAs e := by
  rw [parseArguments_eq_map fun e he => isWritten_render (h e he)]
  constructor
  · intro heq e he
    have hback := List.map_inj_left.mp (heq.trans (List.map_id es).symm) e he
    exact canonical_of_readBack (h e he) hback
  · intro hapart
    exact (List.map_congr_left fun e he => readBack_of_canonical (hapart e he)).trans
      (List.map_id es)

/-- `a => f('x, y'), { as }` -/
theorem parseArguments_renderArguments_mixed :
    parseArguments (renderArguments
      [arrow [leaf ['a']] none (call ['f'] [leaf ['\'', 'x', ',', ' ', 'y', '\'']]),
        object [(asName, leaf asName)]]) =
      [arrow [leaf ['a']] none (call ['f'] [leaf ['\'', 'x', ',', ' ', 'y', '\'']]),
        object [(asName, leaf asName)]] := by
  have hname {c : Char} (hc : Text.isIdentifier [c] = true) : Text.isDottedPath [c] = true :=
    Text.isDottedPath_of_isIdentifier hc
  have hstring : IsLeafText ['\'', 'x', ',', ' ', 'y', '\''] :=
    Or.inr (Or.inr ⟨by decide, .single, _, rfl, rfl, by decide⟩)
  have hcanonical {allowed : Option ArrowTypes → Element → Prop}
      (hallowed : ∀ name args, allowed none (call name args)) :
      ∀ e ∈ [arrow [leaf ['a']] none (call ['f'] [leaf ['\'', 'x', ',', ' ', 'y', '\'']]),
        object [(asName, leaf asName)]], Canonical allowed e := by
    have hleaf : ∀ p ∈ [leaf ['a']], Canonical allowed p := by
      simpa using .leaf (isLeafText_of_isIdentifier (t := ['a']) rfl)
    have hcall : Canonical allowed (call ['f'] [leaf ['\'', 'x', ',', ' ', 'y', '\'']]) :=
      .call (Or.inl (hname rfl)) (by simpa using .leaf hstring)
    have has : Text.isIdentifier asName = true := rfl
    intro e he
    rcases List.mem_cons.mp he with rfl | he
    · exact .arrow trivial hleaf rfl (fun _ => hcall) (hallowed _ _)
    · rw [List.mem_singleton] at he
      rw [he]
      exact .object (by simp) (by simpa using show IsKey asName from Or.inl has)
        (by simpa using .leaf (isLeafText_of_isIdentifier has))
  exact (parseArguments_renderArguments_iff (hcanonical fun _ _ => trivial)).mpr
    (hcanonical fun name args => ⟨by simp, by simp⟩)

/-- Functions that do not keep apart from `as` are canonical in every other way, and do not come
back. -/
theorem parseArguments_renderArguments_as :
    (Canonical (fun _ _ => True) asResult ∧
      parseArguments (renderArguments [asResult]) ≠ [asResult]) ∧
    (Canonical (fun _ _ => True) asParameter ∧
      parseArguments (renderArguments [asParameter]) ≠ [asParameter]) := by
  have hleaf {t : Text} (ht : Text.isIdentifier t = true) :
      Canonical (fun _ _ => True) (leaf t) := .leaf (isLeafText_of_isIdentifier ht)
  have hx := hleaf (t := ['x']) rfl
  have hy := hleaf (t := ['y']) rfl
  have has := hleaf (t := asName) rfl
  have hresult : Canonical (fun _ _ => True) asResult :=
    .arrow ⟨by simp, rfl, by simp, by decide⟩ (by simp) rfl (fun _ => hx) trivial
  have hinner : Canonical (fun _ _ => True) (arrow [leaf asName] none (leaf ['y'])) :=
    .arrow trivial (by simpa using has) rfl (fun _ => hy) trivial
  have hparameter : Canonical (fun _ _ => True) asParameter :=
    .arrow trivial (by simpa using hx) rfl (fun _ => hinner) trivial
  have hback {e : Element} (he : Canonical (fun _ _ => True) e)
      (h : parseArguments (renderArguments [e]) = [e]) : Canonical ApartFromAs e := by
    rw [parseArguments_eq_map (by simpa using isWritten_render he), List.map_singleton,
      List.singleton_inj] at h
    exact canonical_of_readBack he h
  refine ⟨⟨hresult, fun h => ?_⟩, ⟨hparameter, fun h => ?_⟩⟩
  · cases hback hresult h with
    | arrow _ _ _ _ hapart => exact hapart.1 _ rfl rfl
  · cases hback hparameter h with
    | arrow _ _ _ _ hapart => exact hapart.2 _ rfl

end ScriptSurvey
