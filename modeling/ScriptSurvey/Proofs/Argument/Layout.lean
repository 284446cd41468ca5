import ScriptSurvey.Proofs.Argument.Shapes

/-!
# What a form says of its runs

A form is found by cuts, and cuts lose nothing, so the runs of an argument are laid out as its form
says: `Layout` has one case for each way in which a form is found. It takes as a parameter what is
known of the brackets that are taken as a pair. The reader takes any closing bracket for the partner
of an opening one, if the count of brackets says so; a layout with pairs of one kind is a reading
that was right in that.
-/

namespace ScriptSurvey

open Run Nesting

namespace Form

/-- How the runs of an argument are made up of its form and the parts of it, where `pair` holds of
each two brackets that are taken as a pair. -/
inductive Layout (pair : Char → Char → Prop) : List Run → Form (List Run) → Prop where
  | leaf {rs : List Run} : Layout pair rs (leaf (Run.join rs))
  | object {c : Char} {inner : List Run} : pair '\x7b' c →
      Run.enclosed (inner ++ [code c]) = some (inner, []) →
      Layout pair (code '\x7b' :: (inner ++ [code c]))
        (object ((Run.splitAtCommas inner).map ofProperty))
  | assertion {expr target : List Run} :
      Run.cutAtLast asWord (expr ++ (asWord.map code ++ target)) = some (expr, target) →
      Layout pair (expr ++ (asWord.map code ++ target))
        (assertion (Run.join (Run.trim target)) expr)
  | array {c : Char} {inner : List Run} : pair '[' c →
      Run.enclosed (inner ++ [code c]) = some (inner, []) →
      Layout pair (code '[' :: (inner ++ [code c])) (array (Run.splitAtCommas inner))
  | nameArrow {param body : List Run} : Text.isIdentifier (Text.trim (Run.join param)) = true →
      Run.cutAtFirst ['=', '>'] (param ++ (['=', '>'].map code ++ body)) = some (param, body) →
      Layout pair (param ++ (['=', '>'].map code ++ body))
        (arrow [param] none (bodyOf (Run.trim body)))
  | untypedArrow {c : Char} {params blanks body : List Run} : pair '(' c →
      isBlankCode blanks = true →
      Run.enclosed (params ++ code c :: (blanks ++ (['=', '>'].map code ++ body))) =
        some (params, blanks ++ (['=', '>'].map code ++ body)) →
      Layout pair (code '(' :: (params ++ code c :: (blanks ++ (['=', '>'].map code ++ body))))
        (arrow (Run.splitAtCommas params) none (bodyOf (Run.trim body)))
  | typedArrow {c : Char} {params blanks result body : List Run} : pair '(' c →
      isBlankCode blanks = true →
      Run.enclosed (params ++ code c ::
          (blanks ++ ([':'].map code ++ (result ++ (['=', '>'].map code ++ body))))) =
        some (params, blanks ++ ([':'].map code ++ (result ++ (['=', '>'].map code ++ body)))) →
      Run.cutAtFirst ['=', '>'] (result ++ (['=', '>'].map code ++ body)) = some (result, body) →
      Layout pair
        (code '(' :: (params ++ code c ::
          (blanks ++ ([':'].map code ++ (result ++ (['=', '>'].map code ++ body))))))
        (arrow (((Run.splitAtCommas params).map ofParameter).map Prod.fst)
          (some ⟨((Run.splitAtCommas params).map ofParameter).map Prod.snd,
            Run.join (Run.trim result)⟩)
          (bodyOf (Run.trim body)))
  | call {c : Char} {name args blanks : List Run} : pair '(' c →
      isCallee (Text.trim (Run.join name)) = true → isBlankCode blanks = true →
      Run.enclosed (args ++ code c :: blanks) = some (args, blanks) →
      Layout pair (name ++ code '(' :: (args ++ code c :: blanks))
        (call (Text.trim (Run.join name)) (Run.splitAtCommas args))
  | generic {c : Char} {name types blanks : List Run} : pair '<' c →
      isCallee (Text.trim (Run.join name)) = true → isBlankCode blanks = true →
      Run.enclosed (types ++ code c :: blanks) = some (types, blanks) →
      Layout pair (name ++ code '<' :: (types ++ code c :: blanks))
        (generic (Text.trim (Run.join name)) (Run.splitAtCommas types))
  | genericCall {c d : Char} {name types blanks args blanks' : List Run} : pair '<' c →
      pair '(' d → isCallee (Text.trim (Run.join name)) = true → isBlankCode blanks = true →
      isBlankCode blanks' = true →
      Run.enclosed (types ++ code c :: (blanks ++ code '(' :: (args ++ code d :: blanks'))) =
        some (types, blanks ++ code '(' :: (args ++ code d :: blanks')) →
      Run.enclosed (args ++ code d :: blanks') = some (args, blanks') →
      Layout pair
        (name ++ code '<' :: (types ++ code c ::
          (blanks ++ code '(' :: (args ++ code d :: blanks'))))
        (genericCall (Text.trim (Run.join name)) (Run.splitAtCommas types) (Run.splitAtCommas args))

/-- Whether `pair` holds of each opening bracket in the runs and the one that the count of brackets
finds for its partner. -/
def Partners (pair : Char → Char → Prop) (rs : List Run) : Prop :=
  ∀ front o inner c after, rs = front ++ code o :: (inner ++ code c :: after) →
    isOpeningBracket o = true → Run.enclosed (inner ++ code c :: after) = some (inner, after) →
    c ∈ closers → pair o c

variable {pair : Char → Char → Prop}

theorem Partners.exists_closer {o : Char} {rest inner after : List Run}
    (h : Partners pair (code o :: rest)) (ho : isOpeningBracket o = true)
    (he : Run.enclosed rest = some (inner, after)) :
    ∃ c, pair o c ∧ rest = inner ++ code c :: after := by
  obtain ⟨c, hc, rfl⟩ := eq_of_enclosed he
  exact ⟨c, h [] o inner c after rfl ho he hc, rfl⟩

theorem Partners.of_append {front rs : List Run} (h : Partners pair (front ++ rs)) :
    Partners pair rs := by
  intro a o inner c after heq
  refine h (front ++ a) o inner c after ?_
  rw [heq, List.append_assoc]

theorem Partners.of_cons {r : Run} {rs : List Run} (h : Partners pair (r :: rs)) :
    Partners pair rs :=
  (show Partners pair ([r] ++ rs) from h).of_append

/-! ## Blanks -/

/-- Dropping blanks takes away blanks. -/
theorem exists_dropBlanks (rs : List Run) :
    ∃ blanks, isBlankCode blanks = true ∧ rs = blanks ++ dropBlanks rs := by
  refine ⟨rs.takeWhile fun r => Text.isAllBlank r.text, ?_, ?_⟩
  · rw [isBlankCode, Text.isAllBlank, List.all_eq_true]
    intro c hc
    obtain ⟨r, hr, hc⟩ := List.mem_flatMap.mp hc
    have := List.mem_takeWhile_imp (p := fun r : Run => Text.isAllBlank r.text) hr
    rw [Text.isAllBlank, List.all_eq_true] at this
    exact this c hc
  · exact (List.takeWhile_append_dropWhile (l := rs)).symm

/-! ## The layout of each form -/

/-- A property is cut at a colon, or is its own value. -/
theorem ofProperty_cases (p : List Run) :
    (∃ key value, p = key ++ ([':'].map code ++ value) ∧
      ofProperty p = (Run.join (Run.trim key), some value)) ∨
        ofProperty p = (Run.join p, none) := by
  unfold ofProperty
  split
  · next key value hcut =>
      split at hcut
      · exact absurd hcut (by simp)
      · exact Or.inl ⟨key, value, eq_of_cutAtFirst hcut, rfl⟩
  · exact Or.inr rfl

/-- A parameter is cut at a colon, or has no annotation. -/
theorem ofParameter_cases (p : List Run) :
    (∃ name annotation, p = name ++ ([':'].map code ++ annotation) ∧
      ofParameter p = (name, some (Run.join (Run.trim annotation)))) ∨
        ofParameter p = (p, none) := by
  unfold ofParameter
  split
  · next name annotation hcut =>
      exact Or.inl ⟨name, annotation, eq_of_cutAtFirst hcut, rfl⟩
  · exact Or.inr rfl

theorem layout_object {rs : List Run} {f : Form (List Run)} (hp : Partners pair rs)
    (h : object? rs = some f) : Layout pair rs f := by
  obtain ⟨inner, hw, rfl⟩ := Option.map_eq_some_iff.mp h
  obtain ⟨rest, rfl, he⟩ := eq_of_wrapped hw
  obtain ⟨c, hc, rfl⟩ := hp.exists_closer rfl he
  exact .object hc he

theorem layout_array {rs : List Run} {f : Form (List Run)} (hp : Partners pair rs)
    (h : array? rs = some f) : Layout pair rs f := by
  obtain ⟨inner, hw, rfl⟩ := Option.map_eq_some_iff.mp h
  obtain ⟨rest, rfl, he⟩ := eq_of_wrapped hw
  obtain ⟨c, hc, rfl⟩ := hp.exists_closer rfl he
  exact .array hc he

theorem layout_assertion {rs : List Run} {f : Form (List Run)} (h : assertion? rs = some f) :
    Layout pair rs f := by
  unfold assertion? at h
  split at h
  · exact absurd h (by simp)
  · next expr target hcut =>
      dsimp only at h
      split at h
      · exact absurd h (by simp)
      · have heq := eq_of_cutAtLast hcut
        rw [heq] at hcut ⊢
        rw [← Option.some.inj h]
        exact .assertion hcut

theorem eq_of_arrowTo? {params : List (List Run)} {types : Option ArrowTypes} {body : List Run}
    {f : Form (List Run)} (h : arrowTo? params types body = some f) :
    f = arrow params types (bodyOf (Run.trim body)) := by
  unfold arrowTo? at h
  split at h
  · exact absurd h (by simp)
  · next r rs ht =>
      rw [← Option.some.inj h, ht]
      by_cases hr : r = code '\x7b'
      · simp [bodyOf, hr, isChar]
      · simp [bodyOf, hr, isChar]

theorem layout_bracketedArrow {params rest : List Run} {c : Char} (hc : pair '(' c)
    (he : Run.enclosed (params ++ code c :: rest) = some (params, rest)) {f : Form (List Run)}
    (h : bracketedArrow? params rest = some f) :
    Layout pair (code '(' :: (params ++ code c :: rest)) f := by
  obtain ⟨blanks, hblanks, hrest⟩ := exists_dropBlanks rest
  -- the reader drops the blanks behind the bracket; the layout has them back
  unfold bracketedArrow? at h
  dsimp only at h
  split at h
  · next body hb =>
      rw [eq_of_dropCode? hb] at hrest
      rw [hrest] at he ⊢
      rw [eq_of_arrowTo? h]
      exact .untypedArrow hc hblanks he
  · split at h
    · exact absurd h (by simp)
    · next annotated ha =>
        split at h
        · exact absurd h (by simp)
        · next result body hcut =>
            split at h
            · exact absurd h (by simp)
            · have heq := eq_of_cutAtFirst hcut
              rw [eq_of_dropCode? ha, heq] at hrest
              rw [heq] at hcut
              rw [hrest] at he ⊢
              rw [eq_of_arrowTo? h]
              exact .typedArrow hc hblanks he hcut

theorem layout_arrow {rs : List Run} {f : Form (List Run)} (hp : Partners pair rs)
    (h : arrow? rs = some f) : Layout pair rs f := by
  unfold arrow? at h
  split at h
  · next rest =>
      obtain ⟨⟨params, after⟩, he, hf⟩ := Option.bind_eq_some_iff.mp h
      obtain ⟨c, hc, rfl⟩ := hp.exists_closer rfl he
      exact layout_bracketedArrow hc he hf
  · unfold nameArrow? at h
    split at h
    · exact absurd h (by simp)
    · next param body hcut =>
        split at h
        · next hname =>
            have heq := eq_of_cutAtFirst hcut
            rw [heq] at hcut ⊢
            rw [eq_of_arrowTo? h]
            exact .nameArrow hname hcut
        · exact absurd h (by simp)

theorem layout_call {name rest : List Run} {f : Form (List Run)}
    (hp : Partners pair (name ++ code '(' :: rest)) (h : call? name rest = some f) :
    Layout pair (name ++ code '(' :: rest) f := by
  unfold call? at h
  dsimp only at h
  split at h
  · next hname =>
      split at h
      · next args after he =>
          split at h
          · next hblank =>
              obtain ⟨c, hc, rfl⟩ := hp.of_append.exists_closer rfl he
              rw [← Option.some.inj h]
              exact .call hc hname hblank he
          · exact absurd h (by simp)
      · exact absurd h (by simp)
  · exact absurd h (by simp)

theorem layout_generic {name rest : List Run} {f : Form (List Run)}
    (hp : Partners pair (name ++ code '<' :: rest)) (h : generic? name rest = some f) :
    Layout pair (name ++ code '<' :: rest) f := by
  unfold generic? at h
  dsimp only at h
  split at h
  · next hname =>
      split at h
      · next types after he =>
          -- the search counts brackets of all kinds; that it stops at one of the right kind, the pairs say
          obtain ⟨c, hc, rfl⟩ := hp.of_append.exists_closer rfl he
          obtain ⟨blanks, hblanks, hafter⟩ := exists_dropBlanks after
          split at h
          · next hnil =>
              rw [hnil, List.append_nil] at hafter
              rw [hafter] at he ⊢
              rw [← Option.some.inj h]
              exact .generic hc hname hblanks he
          · next more hmore =>
              rw [hmore] at hafter
              rw [hafter] at hp he
              have hparen := hp.of_append.of_cons.of_append.of_cons.of_append
              split at h
              · next args last hargs =>
                  obtain ⟨d, hd, rfl⟩ := hparen.exists_closer rfl hargs
                  split at h
                  · next hlast =>
                      rw [← Option.some.inj h, hafter]
                      exact .genericCall hc hd hname hblanks hlast he hargs
                  · exact absurd h (by simp)
              · exact absurd h (by simp)
          · exact absurd h (by simp)
      · exact absurd h (by simp)
  · exact absurd h (by simp)

theorem layout_applied {rs : List Run} {f : Form (List Run)} (hp : Partners pair rs)
    (h : applied? rs = some f) : Layout pair rs f := by
  unfold applied? at h
  split at h
  · next hangle hparen =>
      split at h
      · rw [eq_of_cutAtChar hangle] at hp ⊢
        exact layout_generic hp h
      · rw [eq_of_cutAtChar hparen] at hp ⊢
        exact layout_call hp h
  · next hangle _ =>
      rw [eq_of_cutAtChar hangle] at hp ⊢
      exact layout_generic hp h
  · next _ hparen =>
      rw [eq_of_cutAtChar hparen] at hp ⊢
      exact layout_call hp h
  · exact absurd h (by simp)

/-- **Every argument is laid out as its form says.** -/
theorem layout_of {rs : List Run} (hp : Partners pair (Run.trim rs)) :
    Layout pair (Run.trim rs) (of rs) := by
  unfold of
  dsimp only
  generalize Run.trim rs = ts at hp ⊢
  cases ho : object? ts with
  | some f => exact layout_object hp ho
  | none =>
      cases ha : assertion? ts with
      | some f => exact layout_assertion ha
      | none =>
          cases hl : array? ts with
          | some f => exact layout_array hp hl
          | none =>
              cases hw : arrow? ts with
              | some f => exact layout_arrow hp hw
              | none =>
                  cases hc : applied? ts with
                  | some f => exact layout_applied hp hc
                  | none => exact .leaf

/-- Whatever brackets are taken as a pair, there is a layout. -/
theorem layout_trim (rs : List Run) : Layout (fun _ _ => True) (Run.trim rs) (of rs) :=
  layout_of fun _ _ _ _ _ _ _ _ _ => trivial

end Form

end ScriptSurvey
