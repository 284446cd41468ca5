import ScriptSurvey.Proofs.Argument.ByKind

/-!
# Brackets nest again when they were read by kind

**If the brackets of a text nest by kind and it is read by kind, the text that the arguments are
written as nests by kind again.** So it does wherever `<` and `>` are brackets of a fourth kind that
nest with the others. It does not hold of comparisons: `f(a < b), g(c > d)` is read as one call,
with a generic in it whose `<` is closed by `)`, and is written with a bracket missing.
-/

namespace ScriptSurvey

open Run Nesting ScriptSurvey.Bracket

namespace Form

/-- The partner of a bracket is of its kind, and so there is only one. -/
theorem eq_of_pair {o c d : Char} (h : (o, c) ∈ bracketPairs) (h' : (o, d) ∈ bracketPairs) :
    c = d := by
  simp only [bracketPairs, List.mem_cons, Prod.mk.injEq, List.not_mem_nil, or_false] at h h'
  rcases h with ⟨rfl, rfl⟩ | ⟨rfl, rfl⟩ | ⟨rfl, rfl⟩ | ⟨rfl, rfl⟩ <;> simp_all

theorem isNameText_of_isBlankCode {rs : List Run} (h : isBlankCode rs = true) :
    (Run.join rs).IsNameText := by
  rw [isBlankCode, Text.isAllBlank, List.all_eq_true] at h
  exact fun c hc => Or.inr (h c hc)

theorem whole_of_isBlankCode {rs : List Run} (h : isBlankCode rs = true) : Whole rs :=
  whole_of_join (isNameText_of_isBlankCode h).not_mem_chars

end Form

open Form

namespace Element

/-! ## Each kind of element is kept -/

/-- Whether the part of a form is kept once it is read and written. -/
def KeptPart (rs : List Run) : Prop :=
  Sound rs → Kept (render (ofRuns rs)) rs

theorem kept_list {rs : List Run} (hs : Sound rs) (h : ∀ p ∈ Run.splitAtCommas rs, KeptPart p) :
    Kept (Text.commaJoin (renderEach ((Run.splitAtCommas rs).map ofRuns))) rs := by
  rw [renderEach_eq_map, List.map_map]
  exact .pieces hs fun p hp hsound _ => h p hp hsound

theorem kept_bracketed {o c : Char} (hp : (o, c) ∈ bracketPairs) {rs : List Run} (hs : Sound rs)
    (h : ∀ p ∈ Run.splitAtCommas rs, KeptPart p) :
    Kept ([o] ++ (Text.commaJoin (renderEach ((Run.splitAtCommas rs).map ofRuns)) ++ [c]))
      (code o :: (rs ++ [code c])) :=
  .bracketed hp (kept_list hs h)

/-- A name, then a list in brackets. -/
theorem kept_applied {o c : Char} (hp : (o, c) ∈ bracketPairs) {name rs blanks : List Run}
    (hname : isCallee (Text.trim (Run.join name)) = true) (hblank : isBlankCode blanks = true)
    (hs : Sound rs) (h : ∀ p ∈ Run.splitAtCommas rs, KeptPart p) :
    Kept (Text.trim (Run.join name) ++ [o] ++
        Text.commaJoin (renderEach ((Run.splitAtCommas rs).map ofRuns)) ++ [c])
      (name ++ code o :: (rs ++ code c :: blanks)) := by
  have htrim := Text.IsNameText.of_isCallee hname
  have hkept := Kept.of_isNameText htrim htrim.of_trim
  have hlist := kept_bracketed hp hs h
  have hruns := Text.runs_append_of_isPlain htrim.isPlain
    ([o] ++ (Text.commaJoin (renderEach ((Run.splitAtCommas rs).map ofRuns)) ++ [c]))
  have hsame := hkept.same.append hlist.same
  rw [Text.runs_of_isPlain htrim.isPlain, ← hruns] at hsame
  have hafter : Same (code o :: (rs ++ [code c])) (code o :: (rs ++ code c :: blanks)) :=
    Same.cons _ ((Same.refl rs).append
      (((whole_of_isBlankCode hblank).same_append_left [code c]).symm))
  rw [List.append_assoc, List.append_assoc]
  exact ⟨.cons_plain htrim.isPlain hlist.settled, hsame.trans ((Same.refl name).append hafter)⟩

/-- A second list in brackets behind what is kept. -/
theorem kept_appliedAgain {t : Text} {front rs blanks : List Run} (ht : Kept t front)
    (hblank : isBlankCode blanks = true) (hs : Sound rs)
    (h : ∀ p ∈ Run.splitAtCommas rs, KeptPart p) :
    Kept (t ++ ['('] ++ Text.commaJoin (renderEach ((Run.splitAtCommas rs).map ofRuns)) ++ [')'])
      (front ++ code '(' :: (rs ++ code ')' :: blanks)) := by
  have hlist := kept_bracketed (o := '(') (c := ')') pair_round hs h
  have hafter : Same (code '(' :: (rs ++ [code ')'])) (code '(' :: (rs ++ code ')' :: blanks)) :=
    Same.cons _ ((Same.refl rs).append
      (((whole_of_isBlankCode hblank).same_append_left [code ')']).symm))
  have hjoiner : Text.IsJoiner ['('] := ⟨by decide, by decide, by decide⟩
  have hinner := kept_list hs h
  have hclose : Text.IsJoiner [')'] := ⟨by decide, by decide, by decide⟩
  have htail := hinner.settled.append hclose .nil
  rw [List.append_nil] at htail
  rw [List.append_assoc, List.append_assoc]
  refine ⟨ht.settled.append hjoiner htail, ?_⟩
  rw [Text.runs_joiner ht.settled hjoiner, ← Text.runs_append_of_isPlain hjoiner.1]
  exact ht.same.append (hlist.same.trans hafter)

theorem kept_body {rs : List Run} (hs : Sound rs)
    (h : ∀ p ∈ bodyParts (bodyOf (Run.trim rs)), KeptPart p) :
    Kept (render (ofBody ofRuns (bodyOf (Run.trim rs)))) rs := by
  unfold bodyOf at h ⊢
  split at h
  · next hblock =>
      rw [if_pos hblock, ofBody, render]
      exact .join_trim hs
  · next hblock =>
      rw [if_neg hblock, ofBody]
      exact (h _ List.mem_cons_self (hs.of_isInfix (isInfix_trim rs))).trans (same_trim rs)

/-- The two sides of a function. -/
theorem kept_arrow {s t : Text} {head blanks body : List Run} (hs : Kept s head)
    (hblank : Whole blanks) (ht : Kept t body) :
    Kept (s ++ [' ', '=', '>', ' '] ++ t) (head ++ (blanks ++ (['=', '>'].map code ++ body))) := by
  have harrow : Text.IsJoiner [' ', '=', '>', ' '] := ⟨by decide, by decide, by decide⟩
  have hword : Whole (['=', '>'].map code) := whole_map_code (by decide)
  have := hs.append harrow (whole_map_code (by decide)) (hblank.append hword) ht
  rwa [List.append_assoc, ← List.append_assoc s] at this

theorem kept_parameterText {params : List Run} (hs : Sound params)
    (h : ∀ p ∈ Run.splitAtCommas params, KeptPart p) :
    Kept (parameterText ((Run.splitAtCommas params).map ofRuns)
        (renderEach ((Run.splitAtCommas params).map ofRuns)))
      (code '(' :: (params ++ [code ')'])) := by
  rcases parameterText_cases ((Run.splitAtCommas params).map ofRuns) with
    ⟨name, hname, hid, htext⟩ | ⟨htext, _⟩
  · have hlist := kept_list hs h
    rw [hname, renderEach, renderEach, render, Text.commaJoin, List.intercalate_singleton] at hlist
    have hplain := Text.IsNameText.of_isIdentifier hid
    have hwhole : Whole (runs name) := by
      rw [Text.runs_of_isPlain hplain.isPlain]
      exact whole_map_code hplain.not_mem_chars
    -- brackets around a single name are left out
    rw [htext]
    exact ⟨hlist.settled,
      hwhole.same (.bracketed pair_round (hlist.same.symm.whole hwhole))⟩
  · rw [htext, List.append_assoc]
    exact kept_bracketed pair_round hs h

theorem kept_nameParameter {param : List Run} (hs : Sound param)
    (hname : Text.isIdentifier (Text.trim (Run.join param)) = true) (h : KeptPart param) :
    Kept (parameterText [ofRuns param] (renderEach [ofRuns param])) param := by
  have hkept := h hs
  rcases parameterText_cases [ofRuns param] with ⟨name, hleaf, _, htext⟩ | ⟨htext, _⟩
  · rw [List.singleton_inj] at hleaf
    rw [hleaf, render] at hkept
    rw [htext]
    exact hkept
  · have hwhole : Whole param :=
      whole_of_join (Text.IsNameText.of_isIdentifier hname).of_trim.not_mem_chars
    have hbracketed := Kept.bracketed (o := '(') (c := ')') pair_round hkept
    rw [htext, renderEach, renderEach, Text.commaJoin, List.intercalate_singleton,
      List.append_assoc]
    exact hbracketed.trans (Whole.same (.bracketed pair_round hwhole) hwhole)

/-! ## Annotated parameters -/

theorem annotate_map {α : Type} (f : α → Text) (g : α → Option Text) (as : List α) :
    annotate (as.map f) (as.map g) =
      as.map fun a => match g a with
        | some t => f a ++ [':', ' '] ++ t
        | none => f a := by
  induction as with
  | nil => rfl
  | cons a as ih =>
      rw [List.map_cons, List.map_cons, List.map_cons]
      cases hg : g a with
      | none => rw [annotate, ih]
      | some t => rw [annotate, ih]

/-- Two texts with a colon between them. -/
theorem kept_colon {s t : Text} {p q : List Run} (hs : Kept s p) (ht : Kept t q) :
    Kept (s ++ [':', ' '] ++ t) (p ++ ([':'].map code ++ q)) := by
  rw [List.append_assoc]
  exact hs.append ⟨by decide, by decide, by decide⟩ (whole_map_code (by decide))
    (whole_map_code (by decide)) ht

theorem kept_parameter {param : List Run} (hs : Sound param)
    (h : KeptPart (ofParameter param).1) :
    Kept (match (ofParameter param).2 with
      | some t => render (ofRuns (ofParameter param).1) ++ [':', ' '] ++ t
      | none => render (ofRuns (ofParameter param).1)) param := by
  rcases ofParameter_cases param with ⟨name, annotation, heq, hof⟩ | hof
  · rw [hof] at h ⊢
    rw [heq] at hs ⊢
    obtain ⟨hname, hrest⟩ := hs.of_append
    exact kept_colon (h hname) (Kept.join_trim hrest.of_append.2)
  · rw [hof] at h ⊢
    exact h hs

theorem kept_annotated {params : List Run} (hs : Sound params)
    (h : ∀ p ∈ ((Run.splitAtCommas params).map ofParameter).map Prod.fst, KeptPart p) :
    Kept (['('] ++ Text.commaJoin (annotate
          (renderEach ((((Run.splitAtCommas params).map ofParameter).map Prod.fst).map ofRuns))
          (((Run.splitAtCommas params).map ofParameter).map Prod.snd)) ++ [')'])
      (code '(' :: (params ++ [code ')'])) := by
  rw [renderEach_eq_map, List.map_map, List.map_map, List.map_map, List.map_map, annotate_map,
    List.append_assoc]
  refine .bracketed pair_round (.pieces hs fun p hp hsound _ => ?_)
  refine kept_parameter hsound (h _ ?_)
  rw [List.map_map, List.mem_map]
  exact ⟨p, hp, rfl⟩

/-! ## Properties -/

/-- A property is kept, unless it is written once and holds one bracket of a pair. -/
theorem kept_property {p : List Run} (hs : Sound p)
    (hlast : ∀ r, p.getLast? = some r → r.isTrivia = false)
    (h : ∀ value, (ofProperty p).2 = some value → KeptPart value)
    (hself : ∀ value, (ofProperty p).2 = some value → ofRuns value = leaf (ofProperty p).1 →
      Nested (propertyRuns (ofProperty p))) :
    Kept (propertyText (ofProperty p).1 (((ofProperty p).2.map ofRuns).getD (leaf (ofProperty p).1))
      (render (((ofProperty p).2.map ofRuns).getD (leaf (ofProperty p).1)))) p := by
  have hsame := same_propertyRuns hs
  rcases ofProperty_cases p with ⟨key, value, heq, hof⟩ | hof
  · rw [hof] at h hself hsame ⊢
    simp only [Option.map_some, Option.getD_some]
    have hparts := hs
    rw [heq] at hparts
    have hkey := Kept.join_trim hparts.of_append.1
    have hvalue := h value rfl hparts.of_append.2.of_append.2
    rw [propertyText]
    split
    · next hleaf =>
        have hleaf := eq_leaf_of_leafText? hleaf
        -- the one text stands for key and value, so what two copies of it keep whole, it does
        have hwhole := (hself value rfl hleaf).whole
        rw [hleaf, render] at hvalue
        have hkeyWhole : Whole (runs (Run.join (Run.trim key))) :=
          whole_of_double hwhole hvalue.same
        exact ⟨hkey.settled, hkeyWhole.same (hsame.symm.whole hwhole)⟩
    · have := kept_colon hkey hvalue
      rwa [← heq] at this
  · rw [hof]
    simp only [Option.map_none, Option.getD_none]
    rw [propertyText, leafText?, if_pos rfl]
    exact .join hs hlast

theorem kept_objectText {ts : List Text} {rs : List Run} (h : Kept (Text.commaJoin ts) rs) :
    Kept (objectText ts) (code '\x7b' :: (rs ++ [code '\x7d'])) := by
  -- blanks stand at the braces only where something is between them
  by_cases hempty : ts = []
  · have hnil : Same ([] : List Run) rs := by
      have := h.same
      rw [hempty, Text.commaJoin, List.intercalate_nil, runs_nil] at this
      exact this
    have hkept : Kept [] rs := ⟨.nil, by rw [runs_nil]; exact hnil⟩
    have := Kept.bracketed (o := '\x7b') (c := '\x7d') pair_curly hkept
    rw [hempty]
    exact this
  · have hspace : ∀ c ∈ [' '], Text.isPlain c = true := by decide
    have hjoiner : Text.IsJoiner [' '] := ⟨by decide, by decide, by decide⟩
    have hwhole : Whole ([' '].map code) := whole_map_code (by decide)
    have hsettled := h.settled.append hjoiner .nil
    have hruns := Text.runs_joiner h.settled hjoiner []
    rw [List.append_nil] at hsettled hruns
    rw [runs_nil, List.append_nil] at hruns
    have hpadded : Kept ([' '] ++ Text.commaJoin ts ++ [' ']) rs := by
      rw [List.append_assoc]
      refine ⟨.cons_plain hspace hsettled, ?_⟩
      rw [Text.runs_append_of_isPlain hspace, hruns]
      exact ((hwhole.same_append_right _).trans (hwhole.same_append_left _)).trans h.same
    have := Kept.bracketed (o := '\x7b') (c := '\x7d') pair_curly hpadded
    rwa [← List.append_assoc, ← objectText_eq hempty] at this

theorem kept_object {inner : List Run} (hs : Sound inner)
    (hkeeps : KeepsProperties (.object ((Run.splitAtCommas inner).map ofProperty)))
    (h : ∀ p ∈ (Form.object ((Run.splitAtCommas inner).map ofProperty)).parts, KeptPart p) :
    Kept (render (ofForm ofRuns (.object ((Run.splitAtCommas inner).map ofProperty))))
      (code '\x7b' :: (inner ++ [code '\x7d'])) := by
  obtain ⟨hdrop, hself⟩ := hkeeps
  have hproperty : ∀ p ∈ Run.splitAtCommas inner, Sound p →
      (∀ r, p.getLast? = some r → r.isTrivia = false) →
      Kept (propertyText (ofProperty p).1
        (((ofProperty p).2.map ofRuns).getD (leaf (ofProperty p).1))
        (render (((ofProperty p).2.map ofRuns).getD (leaf (ofProperty p).1)))) p := by
    intro p hp hsound hlast
    have hmem : ofProperty p ∈ (Run.splitAtCommas inner).map ofProperty :=
      List.mem_map_of_mem hp
    refine kept_property hsound hlast (fun value hvalue => ?_) (hself _ hmem)
    refine h value ?_
    rw [Form.parts, List.mem_filterMap]
    exact ⟨_, hmem, hvalue⟩
  rw [ofForm]
  rcases hdrop with hnodup | hnested
  · have hkeys : ((((Run.splitAtCommas inner).map ofProperty).map fun p =>
        (p.1, (p.2.map ofRuns).getD (leaf p.1))).map Prod.fst).Nodup := by
      rw [List.map_map]
      exact hnodup
    rw [ofProperties_of_nodup hkeys, render, renderProperties_eq_map, List.map_map, List.map_map]
    exact kept_objectText (.pieces hs hproperty)
  · -- whatever is left out was whole, and so is what stays
    have hpiece : ∀ p ∈ Run.splitAtCommas inner, Whole p := fun p hp =>
      (same_propertyRuns (Kept.sound_of_mem_splitAtCommas hs hp).1).symm.whole
        (hnested _ (List.mem_map_of_mem hp)).whole
    have hwhole : Whole inner := (same_splitAtCommas inner).symm.whole (whole_flatten hpiece)
    have hkept : ∀ q ∈ collapse (((Run.splitAtCommas inner).map ofProperty).map fun p =>
        (p.1, (p.2.map ofRuns).getD (leaf p.1))),
        Kept (propertyText q.1 q.2 (render q.2)) ([] : List Run) := by
      intro q hq
      have hq := (mem_collapse_iff.mp hq).mem
      rw [List.map_map, List.mem_map] at hq
      obtain ⟨p, hp, rfl⟩ := hq
      obtain ⟨hsound, hlast⟩ := Kept.sound_of_mem_splitAtCommas hs hp
      exact (hproperty p hp hsound hlast).trans ((hpiece p hp).same .nil)
    rw [ofProperties_eq, render, renderProperties_eq_map]
    refine kept_objectText ((Kept.commaJoin hkept).trans ?_)
    refine Whole.same (whole_flatten fun p hp => ?_) hwhole
    obtain ⟨_, _, rfl⟩ := List.mem_map.mp hp
    exact .nil

/-! ## Arguments are kept -/

/-- **What an argument that is read by kind is written as has the brackets of what was read.** -/
theorem keptPart_of_readsByKind {rs : List Run} (h : ReadsByKind rs) : KeptPart rs := by
  induction h with
  | @intro rs hlayout hkeeps _ ih =>
      intro hs
      have hts := hs.of_isInfix (isInfix_trim rs)
      have hlast := last_trim rs
      refine Kept.trans ?_ (same_trim rs)
      rw [ofRuns_eq]
      generalize of rs = f at hlayout hkeeps ih ⊢
      generalize Run.trim rs = ts at hlayout hts hlast ⊢
      -- each layout is its parts, which are kept by induction, and whole runs between them
      cases hlayout with
      | leaf =>
          rw [ofForm, render]
          exact .join hts hlast
      | object hpair _ =>
          obtain rfl : _ = '\x7d' := eq_of_pair hpair pair_curly
          exact kept_object hts.tail.of_append.1 hkeeps ih
      | @assertion expr target _ =>
          rw [ofForm, render]
          have hexpr := ih expr (List.mem_singleton_self expr) hts.of_append.1
          have htarget := Kept.join_trim hts.of_append.2.of_append.2
          rw [List.append_assoc]
          exact hexpr.append ⟨by decide, by decide, by decide⟩ (whole_map_code (by decide))
            (whole_map_code (by decide)) htarget
      | array hpair _ =>
          obtain rfl : _ = ']' := eq_of_pair hpair pair_square
          rw [ofForm, render, List.append_assoc]
          exact kept_bracketed hpair hts.tail.of_append.1 ih
      | @nameArrow param body hname _ =>
          rw [ofForm_arrow_eq, render]
          have hparam := kept_nameParameter hts.of_append.1 hname
            (ih param (List.mem_append_left _ List.mem_cons_self))
          have hbody := kept_body hts.of_append.2.of_append.2
            fun p hp => ih p (List.mem_append_right _ hp)
          exact kept_arrow hparam (.nil : Whole []) hbody
      | @untypedArrow c params blanks body hpair hblanks _ =>
          obtain rfl : _ = ')' := eq_of_pair hpair pair_round
          rw [ofForm_arrow_eq, render]
          have hsound := hts.tail.of_append
          have hparams := kept_parameterText hsound.1
            fun p hp => ih p (List.mem_append_left _ hp)
          have hbody := kept_body hsound.2.tail.of_append.2.of_append.2
            fun p hp => ih p (List.mem_append_right _ hp)
          have := kept_arrow hparams (whole_of_isBlankCode hblanks) hbody
          simpa only [List.append_assoc, List.cons_append, List.nil_append] using this
      | @typedArrow c params blanks result body hpair hblanks _ _ =>
          obtain rfl : _ = ')' := eq_of_pair hpair pair_round
          rw [ofForm_arrow_eq, render]
          have hsound := hts.tail.of_append
          have hafter := hsound.2.tail.of_append.2.of_append.2
          have hparams := kept_annotated hsound.1 fun p hp => ih p (List.mem_append_left _ hp)
          have hresult := Kept.join_trim hafter.of_append.1
          have hbody := kept_body hafter.of_append.2.of_append.2
            fun p hp => ih p (List.mem_append_right _ hp)
          have hcolon : Whole ([':'].map code) := whole_map_code (by decide)
          have hhead := hparams.append (m := [':', ' ']) ⟨by decide, by decide, by decide⟩
            (whole_map_code (by decide)) ((whole_of_isBlankCode hblanks).append hcolon) hresult
          have := kept_arrow hhead (.nil : Whole []) hbody
          simpa only [List.append_assoc, List.cons_append, List.nil_append] using this
      | call hpair hname hblanks _ =>
          obtain rfl : _ = ')' := eq_of_pair hpair pair_round
          rw [ofForm, render]
          exact kept_applied hpair hname hblanks hts.of_append.2.tail.of_append.1 ih
      | generic hpair hname hblanks _ =>
          obtain rfl : _ = '>' := eq_of_pair hpair pair_angle
          rw [ofForm, render]
          exact kept_applied hpair hname hblanks hts.of_append.2.tail.of_append.1 ih
      | @genericCall c d name types blanks args blanks' hpair hpair' hname hblanks hblanks' _ _ =>
          obtain rfl : c = '>' := eq_of_pair hpair pair_angle
          obtain rfl : d = ')' := eq_of_pair hpair' pair_round
          have htypes := hts.of_append.2.tail.of_append
          have hfront := kept_applied hpair hname hblanks htypes.1
            fun p hp => ih p (List.mem_append_left _ hp)
          have hargs := htypes.2.tail.of_append.2.tail.of_append.1
          have := kept_appliedAgain hfront hblanks' hargs
            fun p hp => ih p (List.mem_append_right _ hp)
          rw [ofForm, render]
          simpa only [List.append_assoc, List.cons_append, List.nil_append] using this

end Element

open Element

/-- Whether everything in the text that needs an end has it, and brackets nest by kind. -/
def Text.IsBalanced (t : Text) : Prop :=
  (∀ r ∈ runs t, r.isClosed = true) ∧ Nested (runs t)

instance (t : Text) : Decidable t.IsBalanced :=
  inferInstanceAs (Decidable ((∀ r ∈ runs t, r.isClosed = true) ∧ Nested (runs t)))

/-- **What the arguments of a balanced text are written as is balanced**, if they are read by kind.
So they are where `<` and `>` nest by kind with the other brackets. -/
theorem isBalanced_renderArguments {t : Text} (ht : t.IsBalanced) :
    ((∀ p ∈ Run.splitAtCommas (runs t), ReadsByKind p) →
      (renderArguments (parseArguments t)).IsBalanced) ∧
    (IsMatched (runs t) → ∀ p ∈ Run.splitAtCommas (runs t), ReadsByKind p) := by
  have hsound : Sound (runs t) := ⟨stable_runs t, ht.1⟩
  refine ⟨fun hread => ?_, fun hmatched p hp => ?_⟩
  · have hkept : Kept (renderArguments (parseArguments t)) (runs t) :=
      kept_list hsound fun p hp => keptPart_of_readsByKind (hread p hp)
    exact ⟨hkept.settled.closed, hkept.same.nested ht.2⟩
  · have hinfix := isInfix_of_mem_splitAtCommas hp
    exact readsByKind_of_isMatched (hsound.of_isInfix hinfix) (hmatched.of_isInfix hinfix)

/-- `g(a > b, c)`, where `>` takes the pieces apart, and neither is a call; and `f<a>({ k: [b] })`,
where it closes `<`. -/
theorem isBalanced_comparison :
    (renderArguments (parseArguments "g(a > b, c)".toList)).IsBalanced ∧
      (renderArguments (parseArguments "f<a>(\x7b k: [b] \x7d)".toList)).IsBalanced := by
  constructor
  · -- `>` closes nothing here, so that the pieces are read by kind is seen one at a time
    have hleaf {rs : List Run} (h : of rs = .leaf (Run.join (Run.trim rs))) : ReadsByKind rs := by
      refine .intro ?_ ?_ ?_
      · rw [h]
        exact .leaf
      · rw [h]
        trivial
      · rw [h]
        exact fun p hp => absurd hp List.not_mem_nil
    refine (isBalanced_renderArguments (by decide +kernel)).1 fun p hp => hleaf ?_
    have hpieces : Run.splitAtCommas (runs "g(a > b, c)".toList) =
        [[code 'g', code '(', code 'a', code ' ', code '>', code ' ', code 'b'],
          [code 'c', code ')']] := by
      decide +kernel
    rw [hpieces] at hp
    rcases List.mem_cons.mp hp with rfl | hp
    · rfl
    · rw [List.mem_singleton.mp hp]
      rfl
  · have hbalanced : Text.IsBalanced "f<a>(\x7b k: [b] \x7d)".toList := by decide +kernel
    have hwalk : BracketStack.empty.walk (runs "f<a>(\x7b k: [b] \x7d)".toList) =
        some ⟨[], false⟩ := by
      decide +kernel
    exact (isBalanced_renderArguments hbalanced).1
      ((isBalanced_renderArguments hbalanced).2 ⟨_, _, hwalk⟩)

/-- `f(a < b), g(c > d)` is balanced, and is written as `f(a<b>, g(c > d)`. -/
theorem not_isBalanced_comparisons :
    Text.IsBalanced ['f', '(', 'a', ' ', '<', ' ', 'b', ')', ',', ' ', 'g', '(', 'c', ' ', '>', ' ',
      'd', ')'] ∧
    ¬(renderArguments (parseArguments ['f', '(', 'a', ' ', '<', ' ', 'b', ')', ',', ' ', 'g', '(',
      'c', ' ', '>', ' ', 'd', ')'])).IsBalanced := by
  decide +kernel

end ScriptSurvey
