import ScriptSurvey.Argument.Render
import ScriptSurvey.Proofs.Argument.Canonical

/-!
# What canonical elements are written as

The text of a canonical element is **written**: it is sealed, and its runs are one piece of a list.
So it is found again wherever it is put between commas, brackets or the words of a larger element,
and the runs of the larger text are put together from its runs.
-/

namespace ScriptSurvey

open Run Nesting

/-- A text that a reader of lists finds whole: sealed, and one piece when scanned. -/
structure Text.IsWritten (t : Text) : Prop where
  isSealed : t.Sealed
  isPiece : IsPiece (runs t)

namespace Run

/-- Two pieces with level runs between them, none of which is a comma outside brackets. -/
theorem IsPiece.append {p m q : List Run} (hp : IsPiece p) (hq : IsPiece q) (hm : Level m)
    (hc : Lacks [','] m) : IsPiece (p ++ (m ++ q)) where
  level := hp.level.append (hm.append hq.level)
  lacksComma := hp.lacksComma.append hp.level (hc.append hm hq.lacksComma)
  trimmed := hp.trimmed.append hq.trimmed m

theorem IsPiece.bracketed {o c : Char} (h : (o, c) ∈ bracketPairs) {inner : List Run}
    (hi : Level inner) : IsPiece (code o :: (inner ++ [code c])) where
  level := .bracketed h hi
  lacksComma := by
    refine lacks_group h (hi.closedBy h) ?_ (lacks_nil _ _)
    rintro rfl
    exact absurd h (by simp [bracketPairs])
  trimmed := trimmed_bracketed h inner

end Run

namespace Text

theorem IsWord.isWritten {t : Text} (h : t.IsWord) : t.IsWritten :=
  ⟨h.isSealed, h.bare.isPiece h.runs_ne_nil⟩

/-- What stands between two parts of an element: plain characters, no comma, no bracket. -/
structure IsJoint (m : Text) : Prop where
  plain : ∀ c ∈ m, isPlain c = true
  level : Level (m.map code)
  lacksComma : Lacks [','] (m.map code)

theorem IsJoint.nil : IsJoint [] :=
  ⟨by simp, .nil, lacks_nil _ _⟩

theorem IsJoint.arrow : IsJoint [' ', '=', '>', ' '] :=
  ⟨by decide, .flat rfl (.arrow (.flat rfl .nil)), rfl⟩

theorem IsJoint.colon : IsJoint [':', ' '] :=
  ⟨by decide, .flat rfl (.flat rfl .nil), rfl⟩

theorem IsJoint.assertion : IsJoint [' ', 'a', 's', ' '] :=
  ⟨by decide, .flat rfl (.flat rfl (.flat rfl (.flat rfl .nil))), rfl⟩

theorem runs_joint {s m : Text} (hs : s.IsWritten) (hm : m.IsJoint) (t : Text) :
    runs (s ++ m ++ t) = runs s ++ (m.map code ++ runs t) := by
  rw [List.append_assoc, hs.isSealed.runs_append, runs_append_of_isPlain hm.plain]

/-- Two written texts with a joint between them are written. -/
theorem IsWritten.append {s m t : Text} (hs : s.IsWritten) (hm : m.IsJoint) (ht : t.IsWritten) :
    (s ++ m ++ t).IsWritten := by
  refine ⟨(hs.isSealed.append (sealed_of_isPlain hm.plain)).append ht.isSealed, ?_⟩
  rw [runs_joint hs hm]
  exact hs.isPiece.append ht.isPiece hm.level hm.lacksComma

theorem isPlain_bracket {o c : Char} (h : (o, c) ∈ bracketPairs) :
    isPlain o = true ∧ isPlain c = true := by
  simp only [bracketPairs, List.mem_cons, Prod.mk.injEq, List.not_mem_nil, or_false] at h
  rcases h with ⟨rfl, rfl⟩ | ⟨rfl, rfl⟩ | ⟨rfl, rfl⟩ | ⟨rfl, rfl⟩ <;> decide

theorem runs_bracketed {o c : Char} (h : (o, c) ∈ bracketPairs) {t : Text} (ht : t.Sealed) :
    runs ([o] ++ t ++ [c]) = code o :: (runs t ++ [code c]) := by
  rw [List.append_assoc, List.singleton_append, runs_cons_of_isPlain (isPlain_bracket h).1,
    ht.runs_append, runs_cons_of_isPlain (isPlain_bracket h).2, runs_nil]

/-- A sealed level text in brackets is written. -/
theorem IsWritten.bracketed {o c : Char} (h : (o, c) ∈ bracketPairs) {t : Text} (ht : t.Sealed)
    (hl : Level (runs t)) : IsWritten ([o] ++ t ++ [c]) := by
  refine ⟨?_, ?_⟩
  · refine (Sealed.append ?_ ht).append ?_
    · exact sealed_of_isPlain (by simpa using (isPlain_bracket h).1)
    · exact sealed_of_isPlain (by simpa using (isPlain_bracket h).2)
  · rw [runs_bracketed h ht]
    exact .bracketed h hl

theorem runs_padded {t : Text} (ht : t.Sealed) :
    runs ([' '] ++ t ++ [' ']) = code ' ' :: (runs t ++ [code ' ']) := by
  have hspace : isPlain ' ' = true := rfl
  rw [List.append_assoc, List.singleton_append, runs_cons_of_isPlain hspace, ht.runs_append,
    runs_cons_of_isPlain hspace, runs_nil]

/-- The runs of written texts with commas between them. -/
theorem runs_list {ts : List Text} (h : ∀ t ∈ ts, t.IsWritten) :
    runs (commaJoin ts) = joinPieces (ts.map runs) :=
  (runs_commaJoin_of_sealed fun t ht => (h t ht).isSealed).2

theorem sealed_list {ts : List Text} (h : ∀ t ∈ ts, t.IsWritten) : (commaJoin ts).Sealed :=
  (runs_commaJoin_of_sealed fun t ht => (h t ht).isSealed).1

theorem level_list {ts : List Text} (h : ∀ t ∈ ts, t.IsWritten) :
    Level (runs (commaJoin ts)) := by
  rw [runs_list h]
  refine level_joinPieces fun p hp => ?_
  rw [List.mem_map] at hp
  obtain ⟨t, ht, rfl⟩ := hp
  exact (h t ht).isPiece.level

/-- A split at commas finds the texts that were joined. -/
theorem splitAtCommas_list {ts : List Text} (h : ∀ t ∈ ts, t.IsWritten) :
    Run.splitAtCommas (runs (commaJoin ts)) = ts.map runs := by
  rw [runs_list h]
  refine splitAtCommas_joinPieces fun p hp => ?_
  rw [List.mem_map] at hp
  obtain ⟨t, ht, rfl⟩ := hp
  exact (h t ht).isPiece

end Text

namespace Element

/-! ## Names -/

theorem isPlain_of_isName {name : Text} (h : IsName name) : ∀ c ∈ name, Text.isPlain c = true := by
  have hpath {path : Text} (hp : Text.isDottedPath path = true) :
      ∀ c ∈ path, Text.isPlain c = true :=
    fun c hc => Text.isPlain_of_isPathChar (Text.isPathChar_of_mem hp hc)
  rcases h with h | ⟨path, hp, rfl⟩
  · exact hpath h
  · intro c hc
    rcases List.mem_append.mp hc with hc | hc
    · exact (show ∀ c ∈ ['n', 'e', 'w', ' '], Text.isPlain c = true by decide) c hc
    · exact hpath hp c hc

/-- The characters of a name are those of a path, or the space behind `new`. -/
theorem isPathChar_of_isName {name : Text} (h : IsName name) :
    ∀ c ∈ name, Text.isPathChar c = true ∨ c = ' ' := by
  have hpath {path : Text} (hp : Text.isDottedPath path = true) :
      ∀ c ∈ path, Text.isPathChar c = true := fun c hc => Text.isPathChar_of_mem hp hc
  rcases h with h | ⟨path, hp, rfl⟩
  · exact fun c hc => Or.inl (hpath h c hc)
  · intro c hc
    rcases List.mem_append.mp hc with hc | hc
    · have hnew : ∀ c ∈ ['n', 'e', 'w', ' '], Text.isPathChar c = true ∨ c = ' ' := by
        decide
      exact hnew c hc
    · exact Or.inl (hpath hp c hc)

theorem runs_name {name : Text} (h : IsName name) : runs name = name.map code :=
  Text.runs_of_isPlain (isPlain_of_isName h)

theorem isFlat_of_isName {name : Text} (h : IsName name) :
    ∀ r ∈ name.map code, r.isFlat = true := by
  intro r hr
  rw [List.mem_map] at hr
  obtain ⟨c, hc, rfl⟩ := hr
  rcases isPathChar_of_isName h c hc with hp | rfl
  · exact isFlat_of_isBare (r := code c) hp
  · rfl

theorem level_name {name : Text} (h : IsName name) : Level (runs name) := by
  rw [runs_name h]
  exact Level.of_isFlat (isFlat_of_isName h)

/-- A name lacks what neither stands in paths nor is a space. -/
theorem lacks_name {name : Text} (h : IsName name) {w : Char} (hw : Text.isPathChar w = false)
    (hs : w ≠ ' ') (word : Text) : Lacks (w :: word) (runs name) := by
  have hne : ∀ r ∈ name.map code, r ≠ code w := by
    intro r hr
    rw [List.mem_map] at hr
    obtain ⟨c, hc, rfl⟩ := hr
    rcases isPathChar_of_isName h c hc with hp | rfl
    · exact ne_of_isBare (r := code c) hp hw
    · exact fun he => hs (Run.code.inj he).symm
  rw [runs_name h]
  have hflat := isFlat_of_isName h
  generalize name.map code = rs at hne hflat
  induction rs with
  | nil => exact lacks_nil w word
  | cons r rs ih =>
      refine lacks_flat (hflat r List.mem_cons_self)
        (dropCode?_of_ne (hne r List.mem_cons_self) rs) (ih ?_ ?_)
      · exact fun s hs => hne s (List.mem_cons_of_mem r hs)
      · exact fun s hs => hflat s (List.mem_cons_of_mem r hs)

theorem trimmed_name {name : Text} (h : IsName name) : Trimmed (runs name) := by
  rcases h with h | ⟨path, hp, rfl⟩
  · have hw := Text.IsWord.of_isDottedPath h
    exact hw.bare.trimmed hw.runs_ne_nil
  · have hw := Text.IsWord.of_isDottedPath hp
    have hnew : Trimmed [code 'n', code 'e', code 'w'] :=
      ⟨List.cons_ne_nil _ _, by simp [isTrivia]; decide, by simp [isTrivia]; decide⟩
    rw [Text.runs_append_of_isPlain (by decide)]
    exact hnew.append (hw.bare.trimmed hw.runs_ne_nil) [code ' ']

theorem isWritten_name {name : Text} (h : IsName name) : name.IsWritten :=
  ⟨Text.sealed_of_isPlain (isPlain_of_isName h),
    ⟨level_name h, lacks_name h rfl (by decide) [], trimmed_name h⟩⟩

/-! ## Elements -/

theorem renderEach_eq_map (es : List Element) : renderEach es = es.map render := by
  induction es with
  | nil => rfl
  | cons e es ih => rw [renderEach, ih, List.map_cons]

theorem renderProperties_eq_map (ps : List (Text × Element)) :
    renderProperties ps = ps.map fun p => propertyText p.1 p.2 (render p.2) := by
  induction ps with
  | nil => rfl
  | cons p ps ih => rw [renderProperties, ih, List.map_cons]

/-- Every text of a list of written elements is written. -/
theorem isWritten_renderEach {es : List Element} (h : ∀ e ∈ es, (render e).IsWritten) :
    ∀ t ∈ renderEach es, t.IsWritten := by
  intro t ht
  rw [renderEach_eq_map, List.mem_map] at ht
  obtain ⟨e, he, rfl⟩ := ht
  exact h e he

theorem isWritten_emptyBlock : (render emptyBlock).IsWritten :=
  Text.IsWritten.bracketed (t := []) (o := '\x7b') (c := '\x7d') pair_curly Text.Sealed.nil
    (by rw [runs_nil]; exact .nil)

theorem isWritten_array {items : List Element} (h : ∀ e ∈ items, (render e).IsWritten) :
    (render (array items)).IsWritten := by
  rw [render]
  have hw := isWritten_renderEach h
  exact .bracketed pair_square (Text.sealed_list hw) (Text.level_list hw)

/-- A list in brackets behind a written text. -/
theorem isWritten_applied {s : Text} (hs : s.IsWritten) {o c : Char} (ho : (o, c) ∈ bracketPairs)
    {es : List Element} (h : ∀ e ∈ es, (render e).IsWritten) :
    Text.IsWritten (s ++ [o] ++ Text.commaJoin (renderEach es) ++ [c]) := by
  have hw := isWritten_renderEach h
  have := hs.append .nil (.bracketed ho (Text.sealed_list hw) (Text.level_list hw))
  rwa [List.append_nil, ← List.append_assoc, ← List.append_assoc] at this

theorem isWritten_parameterText {params : List Element}
    (h : ∀ e ∈ params, (render e).IsWritten) :
    (parameterText params (renderEach params)).IsWritten := by
  have hbracketed : Text.IsWritten (['('] ++ Text.commaJoin (renderEach params) ++ [')']) := by
    have hw := isWritten_renderEach h
    exact .bracketed pair_round (Text.sealed_list hw) (Text.level_list hw)
  unfold parameterText
  split
  · split
    · next name _ => exact h (.leaf name) List.mem_cons_self
    · exact hbracketed
  · exact hbracketed

/-- Parameters of which each is a written text and each annotation a dotted path. -/
theorem isWritten_annotate {ts : List Text} {as : List (Option Text)}
    (hts : ∀ t ∈ ts, t.IsWritten)
    (has : ∀ a ∈ as, ∀ t, a = some t → Text.isDottedPath t = true) :
    ∀ t ∈ annotate ts as, t.IsWritten := by
  fun_induction annotate ts as with
  | case1 => simp
  | case2 t ts a as ih =>
      intro u hu
      rcases List.mem_cons.mp hu with rfl | hu
      · have ha := has (some a) List.mem_cons_self a rfl
        exact (hts t List.mem_cons_self).append .colon (Text.IsWord.of_isDottedPath ha).isWritten
      · exact ih (fun v hv => hts v (List.mem_cons_of_mem t hv))
          (fun b hb => has b (List.mem_cons_of_mem _ hb)) u hu
  | case3 t ts as ih =>
      intro u hu
      rcases List.mem_cons.mp hu with rfl | hu
      · exact hts u List.mem_cons_self
      · exact ih (fun v hv => hts v (List.mem_cons_of_mem t hv))
          (fun b hb => has b (List.mem_cons_of_mem _ hb)) u hu
  | case4 t ts ih =>
      intro u hu
      rcases List.mem_cons.mp hu with rfl | hu
      · exact hts u List.mem_cons_self
      · exact ih (fun v hv => hts v (List.mem_cons_of_mem t hv)) (by simp) u hu

theorem isWritten_propertyText {key : Text} {value : Element} (hk : IsKey key)
    (hv : (render value).IsWritten) : (propertyText key value (render value)).IsWritten := by
  unfold propertyText
  split
  · exact hk.isWord.isWritten
  · exact hk.isWord.isWritten.append .colon hv

theorem isWritten_renderProperties {ps : List (Text × Element)} (hk : ∀ p ∈ ps, IsKey p.1)
    (hv : ∀ p ∈ ps, (render p.2).IsWritten) : ∀ t ∈ renderProperties ps, t.IsWritten := by
  intro t ht
  rw [renderProperties_eq_map, List.mem_map] at ht
  obtain ⟨p, hp, rfl⟩ := ht
  exact isWritten_propertyText (hk p hp) (hv p hp)

/-- Properties in braces, with a space at each end unless there are none. -/
theorem objectText_eq {ts : List Text} (hne : ts ≠ []) :
    objectText ts = ['\x7b'] ++ ([' '] ++ Text.commaJoin ts ++ [' ']) ++ ['\x7d'] := by
  have : ts.isEmpty = false := by simpa using hne
  rw [objectText, this]
  simp

theorem isWritten_objectText {ts : List Text} (h : ∀ t ∈ ts, t.IsWritten) :
    (objectText ts).IsWritten := by
  by_cases hne : ts = []
  · rw [hne]
    exact isWritten_emptyBlock
  · have hspace : Text.Sealed [' '] := Text.sealed_of_isPlain (by decide)
    have hsealed := (hspace.append (Text.sealed_list h)).append hspace
    rw [objectText_eq hne]
    refine .bracketed pair_curly hsealed ?_
    rw [Text.runs_padded (Text.sealed_list h)]
    exact .flat rfl ((Text.level_list h).append (.flat rfl .nil))

/-- **The text of a canonical element is written.** -/
theorem isWritten_render {allowed : Option ArrowTypes → Element → Prop} {e : Element}
    (h : Canonical allowed e) : (render e).IsWritten := by
  induction h with
  | leaf ht => exact ht.isWord.isWritten
  | array _ ih => exact isWritten_array ih
  | call hn _ ih => rw [render]; exact isWritten_applied (isWritten_name hn) pair_round ih
  | generic hn _ ih => rw [render]; exact isWritten_applied (isWritten_name hn) pair_angle ih
  | genericCall hn _ _ iht iha =>
      rw [render]
      exact isWritten_applied (isWritten_applied (isWritten_name hn) (by decide) iht)
        (by decide) iha
  | @arrow params types body hh _ hb _ _ ihp ih =>
      have hbody : (render body).IsWritten := by
        by_cases he : body = emptyBlock
        · rw [he]
          exact isWritten_emptyBlock
        · exact ih he
      cases types with
      | none =>
          rw [render]
          exact (isWritten_parameterText ihp).append .arrow hbody
      | some types =>
          rw [render]
          have hw := isWritten_annotate (isWritten_renderEach ihp) hh.2.2.1
          have hhead := Text.IsWritten.bracketed (o := '(') (c := ')') pair_round
            (Text.sealed_list hw) (Text.level_list hw)
          have hresult := (Text.IsWord.of_isDottedPath hh.2.2.2).isWritten
          have := (hhead.append .colon hresult).append .arrow hbody
          simpa [List.append_assoc] using this
  | object _ hk _ ih =>
      rw [render]
      exact isWritten_objectText (isWritten_renderProperties hk ih)
  | assertion ht _ ih =>
      rw [render]
      exact ih.append .assertion (Text.IsWord.of_isDottedPath ht).isWritten

end Element

end ScriptSurvey
