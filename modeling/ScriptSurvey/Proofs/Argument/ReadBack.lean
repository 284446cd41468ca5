import ScriptSurvey.Proofs.Argument.Properties
import ScriptSurvey.Proofs.Argument.Shapes

/-!
# Reading elements back

`readBack e` is the element that the text of `e` is read as. For each kind of element it is the
element of that kind whose parts are read back in turn, whatever the parts are, as long as their
texts are written: a text is written in the shape of its kind, the shape has the form of that kind,
and the parts of the form are the texts of the parts.

The one exception are functions. ` as ` outside brackets makes an assertion, and it is looked for
before the arrow. A function is read as a function exactly where nothing behind its arrow, nor its
result type, brings that word about (`FreeOfAs`).
-/

namespace ScriptSurvey

open Run Nesting

namespace Element

/-- The element that a form makes of its parts, given how a part is read. -/
def ofForm {α : Type} (read : α → Element) : Form α → Element
  | .leaf t => leaf t
  | .array items => array (items.map read)
  | .call name args => call name (args.map read)
  | .generic name types => generic name (types.map read)
  | .genericCall name types args => genericCall name (types.map read) (args.map read)
  | .arrow params types (.block t) => arrow (params.map read) types (leaf t)
  | .arrow params types (.expression body) => arrow (params.map read) types (read body)
  | .object properties =>
    ofProperties (properties.map fun p => (p.1, (p.2.map read).getD (leaf p.1)))
  | .assertion target expr => assertion target (read expr)

/-- An element is read by its form and the elements of its parts. -/
theorem ofRuns_eq (rs : List Run) : ofRuns rs = ofForm ofRuns (Form.of rs) := by
  rw [ofRuns]
  split <;> rename_i h <;> rw [h] <;> simp only [ofForm, List.map_attach_eq_pmap, List.pmap_eq_map]
  refine congrArg ofProperties ((List.pmap_congr_left _ ?_).trans (List.pmap_eq_map fun _ hp => hp))
  rintro ⟨key, value⟩ _ _ _
  cases value <;> rfl

/-- What stands behind an arrow, given how a part is read. -/
def ofBody {α : Type} (read : α → Element) : ArrowBody α → Element
  | .block t => leaf t
  | .expression part => read part

theorem ofForm_arrow_eq {α : Type} (read : α → Element) (params : List α)
    (types : Option ArrowTypes) (body : ArrowBody α) :
    ofForm read (.arrow params types body) = arrow (params.map read) types (ofBody read body) := by
  cases body <;> rfl

/-- Trivia around an element changes nothing. -/
theorem ofRuns_of_trim_eq {rs ss : List Run} (h : Run.trim rs = Run.trim ss) :
    ofRuns rs = ofRuns ss := by
  rw [ofRuns_eq, ofRuns_eq, Form.of, Form.of, h]

theorem ofRuns_space {rs : List Run} (h : Trimmed rs) : ofRuns (code ' ' :: rs) = ofRuns rs := by
  refine ofRuns_of_trim_eq ?_
  have := trim_padded (a := [code ' ']) (b := []) h (by decide) (by simp)
  rw [List.append_nil, List.singleton_append] at this
  rw [this, trim_of_trimmed h]

theorem ofRuns_word {t : Text} (h : t.IsWord) : ofRuns (runs t) = leaf t := by
  rw [ofRuns_eq, Form.of_word h]
  rfl

/-! ## The shapes of elements -/

theorem runs_array {items : List Element} (h : ∀ e ∈ items, (render e).IsWritten) :
    runs (render (array items)) =
      code '[' :: (runs (Text.commaJoin (renderEach items)) ++ [code ']']) := by
  rw [render]
  exact Text.runs_bracketed pair_square (Text.sealed_list (isWritten_renderEach h))

/-- A list in brackets behind a text. -/
theorem runs_applied {s : Text} (hs : s.Sealed) {o c : Char} (ho : (o, c) ∈ bracketPairs)
    {es : List Element} (h : ∀ e ∈ es, (render e).IsWritten) :
    runs (s ++ [o] ++ Text.commaJoin (renderEach es) ++ [c]) =
      runs s ++ code o :: (runs (Text.commaJoin (renderEach es)) ++ [code c]) := by
  rw [List.append_assoc, List.append_assoc, hs.runs_append, ← List.append_assoc,
    Text.runs_bracketed ho (Text.sealed_list (isWritten_renderEach h))]

theorem runs_genericCall {name : Text} (hn : IsName name) {types args : List Element}
    (ht : ∀ e ∈ types, (render e).IsWritten) (ha : ∀ e ∈ args, (render e).IsWritten) :
    runs (render (genericCall name types args)) =
      runs name ++ code '<' :: (runs (Text.commaJoin (renderEach types)) ++
        code '>' :: code '(' :: (runs (Text.commaJoin (renderEach args)) ++ [code ')'])) := by
  have htypes := isWritten_applied (isWritten_name hn) (o := '<') (c := '>') pair_angle ht
  rw [render, runs_applied htypes.isSealed pair_round ha,
    runs_applied (isWritten_name hn).isSealed pair_angle ht]
  simp

theorem runs_assertion {target : Text} {expr : Element} (h : (render expr).IsWritten) :
    runs (render (assertion target expr)) =
      runs (render expr) ++ (asWord.map code ++ runs target) := by
  rw [render]
  exact Text.runs_joint h .assertion target

/-- Parameters without types are one identifier, or stand in brackets. -/
theorem parameterText_cases (params : List Element) :
    (∃ name, params = [leaf name] ∧ Text.isIdentifier name = true ∧
      parameterText params (renderEach params) = name) ∨
    (parameterText params (renderEach params) =
        ['('] ++ Text.commaJoin (renderEach params) ++ [')'] ∧
      ∀ name, Text.isIdentifier name = true → params ≠ [leaf name]) := by
  unfold parameterText
  split
  · next _ name =>
      split
      · next hname => exact Or.inl ⟨name, rfl, hname, rfl⟩
      · next hname =>
          refine Or.inr ⟨rfl, fun other ho he => hname ?_⟩
          simp only [List.cons.injEq, leaf.injEq, and_true] at he
          rw [he]
          exact ho
  · next hne => exact Or.inr ⟨rfl, fun name _ he => hne name he⟩

theorem runs_untypedArrow {params : List Element} {body : Element}
    (hp : ∀ e ∈ params, (render e).IsWritten) :
    runs (render (arrow params none body)) =
      runs (parameterText params (renderEach params)) ++
        (Form.arrowWord.map code ++ runs (render body)) := by
  rw [render]
  exact Text.runs_joint (isWritten_parameterText hp) .arrow _

theorem runs_typedArrow {params : List Element} {types : ArrowTypes} {body : Element}
    (hw : ∀ t ∈ annotate (renderEach params) types.params, t.IsWritten)
    (hr : types.result.IsWord) :
    runs (render (arrow params (some types) body)) =
      code '(' :: (runs (Text.commaJoin (annotate (renderEach params) types.params)) ++
        [code ')']) ++
        ([code ':', code ' '] ++
          (runs types.result ++ (Form.arrowWord.map code ++ runs (render body)))) := by
  have hhead : Text.IsWritten
      (['('] ++ Text.commaJoin (annotate (renderEach params) types.params) ++ [')']) :=
    .bracketed pair_round (Text.sealed_list hw) (Text.level_list hw)
  have hresult := Text.runs_joint hr.isWritten .arrow (render body)
  have hjoint := Text.runs_joint hhead .colon (types.result ++ [' ', '=', '>', ' '] ++ render body)
  rw [hresult, Text.runs_bracketed pair_round (Text.sealed_list hw)] at hjoint
  rw [render]
  simpa [Form.arrowWord] using hjoint

theorem runs_emptyBlock : runs (render emptyBlock) = [code '\x7b', code '\x7d'] :=
  Text.runs_of_isPlain (by decide)

/-! ## Properties and parameters -/

/-- A key is no spread. -/
theorem dropCode?_key {key : Text} (h : IsKey key) (q : List Run) :
    dropCode? ['.', '.', '.'] (runs key ++ q) = none := by
  rcases h with h | h
  · have hw := Text.IsWord.of_isIdentifier h
    rw [Text.runs_of_isPlain fun c hc => Text.isPlain_of_isIdentifierPart
      (Text.isIdentifierPart_of_mem h hc)]
    obtain ⟨c, cs, rfl⟩ := List.exists_cons_of_ne_nil hw.ne_nil
    refine dropCode?_of_ne (fun hdot => ?_) _
    rw [Run.code.injEq] at hdot
    exact Text.ne_of_isIdentifierPart (Text.isIdentifierPart_of_mem h List.mem_cons_self)
      rfl hdot
  · obtain ⟨kind, hr⟩ := Text.runs_of_isQuoted h
    rw [hr]
    rfl

/-- A property is cut at its first colon outside brackets. -/
theorem ofProperty_colon {key value : List Run}
    (hdots : dropCode? ['.', '.', '.'] (key ++ code ':' :: value) = none)
    (hcolon : Lacks [':'] key) (hzero : (outermost.after key).depth = 0) :
    Form.ofProperty (key ++ code ':' :: value) = (Run.join (Run.trim key), some value) := by
  have hdrop : dropCode? [':'] (code ':' :: value) = some value := dropCode?_append [':'] value
  have hn : outermost.after key = ⟨0, (outermost.after key).afterEquals⟩ :=
    congrArg (Nesting.mk · _) hzero
  have hcut : Run.cutAtFirst [':'] (key ++ code ':' :: value) = some (key, value) := by
    rw [Run.cutAtFirst, cutAtFirst_append_of_none hcolon, hn, cutAtFirst_cons_of_some hdrop]
    simp
  rw [Form.ofProperty, hdots, Option.isSome_none, if_neg Bool.false_ne_true, hcut]

/-- A property is read as its key and, if it is not its own key, its value behind a space. -/
theorem ofProperty_propertyText {key : Text} {value : Element} (h : IsKey key) :
    Form.ofProperty (runs (propertyText key value (render value))) =
      (key, if value.leafText? = some key then none
        else some (code ' ' :: runs (render value))) := by
  have hw := h.isWord
  have hcolon : Lacks [':'] (runs key) := hw.bare.lacks rfl []
  rw [propertyText]
  split
  · have hdots := dropCode?_key h []
    rw [List.append_nil] at hdots
    rw [Lacks] at hcolon
    simp [Form.ofProperty, hdots, Run.cutAtFirst, hcolon, join_runs]
  · rw [Text.runs_joint hw.isWritten .colon (render value)]
    show Form.ofProperty (runs key ++ code ':' :: (code ' ' :: runs (render value))) = _
    rw [ofProperty_colon (dropCode?_key h _) hcolon (by rw [outermost, after_level hw.bare.level]),
      trim_of_trimmed (hw.bare.trimmed hw.runs_ne_nil), join_runs]

theorem eq_leaf_of_leafText? {e : Element} {t : Text} (h : e.leafText? = some t) : e = leaf t := by
  cases e with
  | leaf u => exact congrArg leaf (Option.some.inj h)
  | array => exact absurd h (by simp [leafText?])
  | call => exact absurd h (by simp [leafText?])
  | generic => exact absurd h (by simp [leafText?])
  | genericCall => exact absurd h (by simp [leafText?])
  | arrow => exact absurd h (by simp [leafText?])
  | object => exact absurd h (by simp [leafText?])
  | assertion => exact absurd h (by simp [leafText?])

/-- Annotated names are read as the names and their annotations. -/
theorem ofParameter_annotate {ts : List Text} {as : List (Option Text)}
    (hts : ∀ t ∈ ts, t.IsWord) (hlen : as.length = ts.length)
    (has : ∀ a ∈ as, ∀ t, a = some t → Text.isDottedPath t = true) :
    ((annotate ts as).map runs).map Form.ofParameter = (ts.map runs).zip as := by
  have hcolon {t : Text} (ht : t.IsWord) : Lacks [':'] (runs t) :=
    ht.bare.lacks rfl []
  fun_induction annotate ts as with
  | case1 => rfl
  | case2 t ts a as ih =>
      have ht := hts t List.mem_cons_self
      have ha := Text.IsWord.of_isDottedPath (has (some a) List.mem_cons_self a rfl)
      -- a name holds no colon, so the first one is that of the annotation
      have hcut : Run.cutAtFirst [':'] (runs t ++ (code ':' :: code ' ' :: runs a)) =
          some (runs t, code ' ' :: runs a) := by
        have hdrop : dropCode? [':'] (code ':' :: code ' ' :: runs a) = some (code ' ' :: runs a) :=
          dropCode?_append [':'] _
        rw [Run.cutAtFirst, cutAtFirst_append ht.bare.level (hcolon ht), outermost,
          cutAtFirst_cons_of_some hdrop]
        simp
      have htrim : Run.trim (code ' ' :: runs a) = runs a := by
        have := trim_padded (a := [code ' ']) (b := []) (ha.bare.trimmed ha.runs_ne_nil)
          (by decide) (by simp)
        rwa [List.append_nil] at this
      have hfirst : Form.ofParameter (runs (t ++ [':', ' '] ++ a)) = (runs t, some a) := by
        rw [Text.runs_joint ht.isWritten .colon, Form.ofParameter]
        rw [show [':', ' '].map code ++ runs a = code ':' :: code ' ' :: runs a from rfl, hcut]
        simp only [htrim, join_runs]
      rw [List.map_cons, List.map_cons, hfirst, ih (fun u hu => hts u (List.mem_cons_of_mem t hu))
        (by simpa using hlen) (fun b hb => has b (List.mem_cons_of_mem _ hb))]
      rfl
  | case3 t ts as ih =>
      have hfirst : Form.ofParameter (runs t) = (runs t, none) := by
        have := hcolon (hts t List.mem_cons_self)
        rw [Lacks] at this
        rw [Form.ofParameter, Run.cutAtFirst, this]
      rw [List.map_cons, List.map_cons, hfirst, ih (fun u hu => hts u (List.mem_cons_of_mem t hu))
        (by simpa using hlen) (fun b hb => has b (List.mem_cons_of_mem _ hb))]
      rfl
  | case4 => exact absurd hlen (by simp)

/-! ## Each kind read back -/

/-- What the text of an element is read as. -/
def readBack (e : Element) : Element :=
  ofRuns (runs (render e))

theorem readBack_leaf {t : Text} (h : t.IsWord) : readBack (leaf t) = leaf t :=
  ofRuns_word h

section Written

variable {es : List Element} (h : ∀ e ∈ es, (render e).IsWritten)
include h

theorem level_renderEach : Level (runs (Text.commaJoin (renderEach es))) :=
  Text.level_list (isWritten_renderEach h)

/-- The pieces of a written list are read one by one. -/
theorem map_ofRuns_splitAtCommas :
    (Run.splitAtCommas (runs (Text.commaJoin (renderEach es)))).map ofRuns = es.map readBack := by
  rw [Text.splitAtCommas_list (isWritten_renderEach h), renderEach_eq_map, List.map_map,
    List.map_map]
  rfl

theorem readBack_array : readBack (array es) = array (es.map readBack) := by
  rw [readBack, ofRuns_eq, runs_array h, Form.of_array (level_renderEach h), ofForm,
    map_ofRuns_splitAtCommas h]

theorem readBack_call {name : Text} (hn : IsName name) :
    readBack (call name es) = call name (es.map readBack) := by
  rw [readBack, ofRuns_eq, render, runs_applied (isWritten_name hn).isSealed pair_round h,
    Form.of_call hn (level_renderEach h), ofForm, map_ofRuns_splitAtCommas h]

theorem readBack_generic {name : Text} (hn : IsName name) :
    readBack (generic name es) = generic name (es.map readBack) := by
  rw [readBack, ofRuns_eq, render, runs_applied (isWritten_name hn).isSealed pair_angle h,
    Form.of_generic hn (level_renderEach h), ofForm, map_ofRuns_splitAtCommas h]

theorem readBack_genericCall {name : Text} (hn : IsName name) {args : List Element}
    (ha : ∀ e ∈ args, (render e).IsWritten) :
    readBack (genericCall name es args) =
      genericCall name (es.map readBack) (args.map readBack) := by
  rw [readBack, ofRuns_eq, runs_genericCall hn h ha,
    Form.of_genericCall hn (level_renderEach h) (level_renderEach ha), ofForm,
    map_ofRuns_splitAtCommas h, map_ofRuns_splitAtCommas ha]

end Written

theorem readBack_assertion {target : Text} {expr : Element} (ht : target.IsWord)
    (he : (render expr).IsWritten) :
    readBack (assertion target expr) = assertion target (readBack expr) := by
  rw [readBack, ofRuns_eq, runs_assertion he, Form.of_assertion he ht, ofForm]
  rfl

theorem readBack_object {ps : List (Text × Element)} (hn : (ps.map Prod.fst).Nodup)
    (hk : ∀ p ∈ ps, IsKey p.1) (hw : ∀ p ∈ ps, (render p.2).IsWritten) :
    readBack (object ps) = object (ps.map fun p => (p.1, readBack p.2)) := by
  by_cases hempty : ps = []
  · have hruns : runs (render (object [])) = code '\x7b' :: ([] ++ [code '\x7d']) :=
      runs_emptyBlock
    rw [hempty, readBack, ofRuns_eq, hruns, Form.of_object (Level.nil.closedBy pair_curly)]
    rfl
  · have hne : renderProperties ps ≠ [] := by
      rw [renderProperties_eq_map]
      simpa using hempty
    have htexts := isWritten_renderProperties hk hw
    have hsealed := Text.sealed_list htexts
    have hspace : Text.Sealed [' '] := Text.sealed_of_isPlain (by decide)
    have hlevel : Level (code ' ' :: (runs (Text.commaJoin (renderProperties ps)) ++ [code ' '])) :=
      .flat rfl ((Text.level_list htexts).append (.flat rfl .nil))
    have hpieces : Run.splitAtCommas
        ([code ' '] ++ (joinPieces ((renderProperties ps).map runs) ++ [code ' '])) =
          (renderProperties ps).map runs := by
      refine splitAtCommas_padded (fun p hp => ?_) (by simp) (by simp)
      rw [List.mem_map] at hp
      obtain ⟨t, ht, rfl⟩ := hp
      exact (htexts t ht).isPiece
    have hkeys : ((ps.map fun p => (p.1, readBack p.2)).map Prod.fst).Nodup := by
      rw [List.map_map]
      exact hn
    rw [readBack, ofRuns_eq, render, objectText_eq hne,
      Text.runs_bracketed pair_curly ((hspace.append hsealed).append hspace),
      Text.runs_padded hsealed, Form.of_object (hlevel.closedBy pair_curly), ofForm,
      ← List.singleton_append, Text.runs_list htexts, hpieces, ← ofProperties_of_nodup hkeys,
      renderProperties_eq_map]
    rw [List.map_map, List.map_map, List.map_map]
    refine congrArg ofProperties (List.map_congr_left fun p hp => ?_)
    simp only [Function.comp_apply, ofProperty_propertyText (hk p hp)]
    split
    · next hleaf =>
        -- a shorthand is its own value
        have hvalue : p.2 = leaf p.1 := eq_leaf_of_leafText? hleaf
        rw [hvalue, readBack_leaf (hk p hp).isWord]
        rfl
    · simp only [Option.map_some, Option.getD_some, ofRuns_space (hw p hp).isPiece.trimmed]
      rfl

/-! ## Functions read back -/

/-- Neither the result type of a function nor its body brings an ` as ` about. -/
structure FreeOfAs (types : Option ArrowTypes) (body : Element) : Prop where
  result : ∀ ts, types = some ts → ts.result ≠ asName
  start : ¬StartsAs (runs (render body))
  lacks : Lacks asWord (runs (render body))

/-- What can stand behind an arrow: a trimmed text that is no block, except for the empty one. -/
structure IsBodyText (body : Element) : Prop where
  isWritten : (render body).IsWritten
  head : body ≠ emptyBlock → (runs (render body)).head? ≠ some (code '\x7b')

/-- What is read behind an arrow: the empty block as the text it is, and any other body as an
element. -/
def readBackBody (body : Element) : Element :=
  if body.leafText? = some ['\x7b', '\x7d'] then body else readBack body

theorem readBackBody_emptyBlock : readBackBody emptyBlock = emptyBlock := rfl

theorem readBackBody_of_ne {body : Element} (h : body ≠ emptyBlock) :
    readBackBody body = readBack body :=
  if_neg fun ht => h (eq_leaf_of_leafText? ht)

theorem ofForm_arrow {body : Element} (hb : IsBodyText body) (params : List (List Run))
    (types : Option ArrowTypes) :
    ofForm ofRuns (.arrow params types (Form.bodyOf (runs (render body)))) =
      arrow (params.map ofRuns) types (readBackBody body) := by
  by_cases hempty : body = emptyBlock
  · rw [hempty, runs_emptyBlock]
    rfl
  · rw [Form.bodyOf, if_neg (hb.head hempty), ofForm, readBackBody_of_ne hempty, readBack]

theorem readBack_arrow {params : List Element} {types : Option ArrowTypes} {body : Element}
    (hh : IsHead params types) (hw : ∀ e ∈ params, (render e).IsWritten) (hb : IsBodyText body)
    (hfree : FreeOfAs types body) :
    readBack (arrow params types body) =
      arrow (params.map readBack) types (readBackBody body) := by
  have htrim := hb.isWritten.isPiece.trimmed
  obtain ⟨hresult, hstart, has⟩ := hfree
  rw [readBack, ofRuns_eq]
  cases types with
  | none =>
      rw [runs_untypedArrow hw]
      rcases parameterText_cases params with ⟨name, hname, hid, htext⟩ | ⟨htext, _⟩
      · have hword := Text.IsWord.of_isIdentifier hid
        have hparam : ofRuns (runs name ++ [code ' ']) = leaf name := by
          rw [← ofRuns_word hword]
          refine ofRuns_of_trim_eq ?_
          have htrim := hword.bare.trimmed hword.runs_ne_nil
          have := trim_padded (a := []) (b := [code ' ']) htrim (by simp) (by decide)
          rw [List.nil_append] at this
          rw [this, trim_of_trimmed htrim]
        rw [htext, Form.of_nameArrow hid htrim hstart has, ofForm_arrow hb, hname,
          List.map_singleton, List.map_singleton, hparam, readBack_leaf hword]
      · rw [htext, Text.runs_bracketed pair_round (Text.sealed_list (isWritten_renderEach hw)),
          Form.of_untypedArrow (level_renderEach hw) htrim hstart has, ofForm_arrow hb,
          map_ofRuns_splitAtCommas hw]
  | some types =>
      obtain ⟨hnames, hlen, hpaths, hpath⟩ := hh
      have ha := isWritten_annotate (isWritten_renderEach hw) hpaths
      have hr := Text.IsWord.of_isDottedPath hpath
      have hwords : ∀ t ∈ renderEach params, t.IsWord := by
        intro t ht
        rw [renderEach_eq_map, List.mem_map] at ht
        obtain ⟨p, hp, rfl⟩ := ht
        obtain ⟨name, hname, rfl⟩ := hnames p hp
        exact .of_isIdentifier hname
      have hcount : types.params.length = (renderEach params).length := by
        rw [renderEach_eq_map, List.length_map]
        exact hlen
      have hzip := ofParameter_annotate hwords hcount hpaths
      rw [runs_typedArrow ha hr,
        Form.of_typedArrow (Text.level_list ha) hr (hresult types rfl) htrim hstart has,
        ofForm_arrow hb, Text.splitAtCommas_list ha, hzip, List.map_fst_zip (by simp [hcount]),
        List.map_snd_zip (by simp [hcount]), renderEach_eq_map, List.map_map, List.map_map]
      rfl

end Element

end ScriptSurvey
