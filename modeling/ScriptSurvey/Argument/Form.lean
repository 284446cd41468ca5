import ScriptSurvey.Argument.Element
import ScriptSurvey.Lexical.Nesting
import ScriptSurvey.Text.Identifier

/-!
# The form of an argument

One layer of an element: what kind it is, and the runs of its parts.  `Form.of` tries the kinds
in a fixed order, and a kind that does not fit gives way to the next, so every text has a form:

1. an object literal, as a whole in braces;
2. a type assertion, cut at the last ` as ` outside brackets;
3. an array literal, as a whole in square brackets;
4. a function, with its parameters before the first `=>`;
5. a call or a generic, with nothing behind its brackets;
6. a leaf.

An object comes before an assertion so that an ` as ` in one of its values does not split it.
Whatever the kind, the parts are shorter than the whole.
-/

namespace ScriptSurvey

/-- The right side of a function: a block of statements, kept as text, or an expression. -/
inductive ArrowBody (α : Type) where
  | block (text : Text)
  | expression (part : α)
deriving Repr

/-- One layer of an element, over parts of type `α`. -/
inductive Form (α : Type) where
  | leaf (text : Text)
  | array (items : List α)
  | call (name : Text) (args : List α)
  | generic (name : Text) (types : List α)
  | genericCall (name : Text) (types args : List α)
  | arrow (params : List α) (types : Option ArrowTypes) (body : ArrowBody α)
  /-- A property without a value is its own value. -/
  | object (properties : List (Text × Option α))
  | assertion (target : Text) (expr : α)
deriving Repr

namespace Form

/-- The part of a function's right side, if any. -/
def bodyParts {α : Type} : ArrowBody α → List α
  | .block _ => []
  | .expression part => [part]

/-- The parts that are elements themselves. -/
def parts {α : Type} : Form α → List α
  | leaf _ => []
  | array items => items
  | call _ args => args
  | generic _ types => types
  | genericCall _ types args => types ++ args
  | arrow params _ body => params ++ bodyParts body
  | object properties => properties.filterMap Prod.snd
  | assertion _ expr => [expr]

/-- Whether the runs are blanks only. -/
def isBlankCode (rs : List Run) : Bool :=
  Text.isAllBlank (Run.join rs)

/-- The runs without the blanks in front. -/
def dropBlanks (rs : List Run) : List Run :=
  rs.dropWhile fun r => Text.isAllBlank r.text

/-- A callee: a dotted path of identifiers, with or without `new` in front. -/
def isCallee (name : Text) : Bool :=
  match List.isPrefixOf? ['n', 'e', 'w', ' '] name with
  | some path => Text.isDottedPath (Text.trimStart path)
  | none => Text.isDottedPath name

/-- A property of an object literal: its key, and the runs of its value.  Without a colon, and
in a spread, the whole property is its key. -/
def ofProperty (property : List Run) : Text × Option (List Run) :=
  match
    if (Nesting.dropCode? ['.', '.', '.'] property).isSome then none
    else Run.cutAtFirst [':'] property with
  | some (key, value) => (Run.join (Run.trim key), some value)
  | none => (Run.join property, none)

/-- An object literal. -/
def object? (rs : List Run) : Option (Form (List Run)) :=
  (Run.wrapped '\x7b' rs).map fun inner => object ((Run.splitAtCommas inner).map ofProperty)

/-- A type assertion; neither side may be missing. -/
def assertion? (rs : List Run) : Option (Form (List Run)) :=
  match Run.cutAtLast [' ', 'a', 's', ' '] rs with
  | none => none
  | some (expr, target) =>
    let target := Run.join (Run.trim target)
    if isBlankCode expr || target.isEmpty then none else some (assertion target expr)

/-- An array literal. -/
def array? (rs : List Run) : Option (Form (List Run)) :=
  (Run.wrapped '[' rs).map fun inner => array (Run.splitAtCommas inner)

/-- A function with the given left side, unless its right side is missing. -/
def arrowTo? (params : List (List Run)) (types : Option ArrowTypes) (body : List Run) :
    Option (Form (List Run)) :=
  match Run.trim body with
  | [] => none
  | r :: rs =>
    some (arrow params types
      (if r.isChar '\x7b' then .block (Run.join (r :: rs)) else .expression (r :: rs)))

/-- A parameter and its annotation. -/
def ofParameter (param : List Run) : List Run × Option Text :=
  match Run.cutAtFirst [':'] param with
  | some (name, annotation) => (name, some (Run.join (Run.trim annotation)))
  | none => (param, none)

/-- A function with bracketed parameters, given what the brackets enclose and what follows. -/
def bracketedArrow? (params rest : List Run) : Option (Form (List Run)) :=
  let rest := dropBlanks rest
  match Nesting.dropCode? ['=', '>'] rest with
  | some body => arrowTo? (Run.splitAtCommas params) none body
  | none =>
    match Nesting.dropCode? [':'] rest with
    | none => none
    | some annotated =>
      match Run.cutAtFirst ['=', '>'] annotated with
      | none => none
      | some (result, body) =>
        let result := Run.join (Run.trim result)
        if result.isEmpty then none
        else
          let params := (Run.splitAtCommas params).map ofParameter
          arrowTo? (params.map Prod.fst) (some ⟨params.map Prod.snd, result⟩) body

/-- A function with a single name on its left side. -/
def nameArrow? (rs : List Run) : Option (Form (List Run)) :=
  match Run.cutAtFirst ['=', '>'] rs with
  | none => none
  | some (param, body) =>
    if Text.isIdentifier (Text.trim (Run.join param)) then arrowTo? [param] none body else none

/-- A function. -/
def arrow? (rs : List Run) : Option (Form (List Run)) :=
  match rs with
  | .code '(' :: rest => (Run.enclosed rest).bind fun p => bracketedArrow? p.1 p.2
  | _ => nameArrow? rs

/-- A call, given the runs on both sides of its opening parenthesis. -/
def call? (name rest : List Run) : Option (Form (List Run)) :=
  let name := Text.trim (Run.join name)
  if isCallee name then
    match Run.enclosed rest with
    | some (args, after) =>
      if isBlankCode after then some (call name (Run.splitAtCommas args)) else none
    | none => none
  else none

/-- A generic, given the runs on both sides of its opening bracket. -/
def generic? (name rest : List Run) : Option (Form (List Run)) :=
  let name := Text.trim (Run.join name)
  if isCallee name then
    match Run.enclosed rest with
    | some (types, after) =>
      match dropBlanks after with
      | [] => some (generic name (Run.splitAtCommas types))
      | .code '(' :: rest =>
        match Run.enclosed rest with
        | some (args, after) =>
          if isBlankCode after then
            some (genericCall name (Run.splitAtCommas types) (Run.splitAtCommas args))
          else none
        | none => none
      | _ => none
    | none => none
  else none

/-- A call or a generic, as the first opening bracket of the two kinds tells. -/
def applied? (rs : List Run) : Option (Form (List Run)) :=
  match Run.cutAtChar '<' rs, Run.cutAtChar '(' rs with
  | some (name, rest), some (name', rest') =>
    if name.length < name'.length then generic? name rest else call? name' rest'
  | some (name, rest), none => generic? name rest
  | none, some (name, rest) => call? name rest
  | none, none => none

/-- The form of an argument. -/
def of (rs : List Run) : Form (List Run) :=
  let rs := Run.trim rs
  ((object? rs).or <| (assertion? rs).or <| (array? rs).or <| (arrow? rs).or <| applied? rs).getD
    (leaf (Run.join rs))

/-! ## Parts are shorter than the whole -/

/-- Every part of the form has fewer runs than `n`. -/
def PartsBelow (n : Nat) (f : Form (List Run)) : Prop :=
  ∀ part ∈ f.parts, part.length < n

theorem length_wrapped {c : Char} {rs inner : List Run} (h : Run.wrapped c rs = some inner) :
    inner.length + 2 = rs.length := by
  unfold Run.wrapped at h
  split at h
  · simp at h
  · split at h
    · split at h
      · next he =>
          simp only [Option.some.injEq] at h
          have := Run.length_enclosed he
          subst h
          simp only [List.length_nil, List.length_cons] at this ⊢
          omega
      · simp at h
    · simp at h

theorem length_dropBlanks_le (rs : List Run) : (dropBlanks rs).length ≤ rs.length :=
  (List.dropWhile_sublist _).length_le

theorem length_ofProperty {p part : List Run} (h : (ofProperty p).2 = some part) :
    part.length < p.length := by
  unfold ofProperty at h
  split at h
  · next key value hc =>
      simp only [Option.some.injEq] at h
      subst h
      split at hc
      · simp at hc
      · have := Nesting.length_cutAtFirst hc
        simp only [List.length_cons, List.length_nil] at this
        omega
  · simp at h

theorem object?_below {rs : List Run} {f : Form (List Run)} (h : object? rs = some f) :
    PartsBelow rs.length f := by
  simp only [object?, Option.map_eq_some_iff] at h
  obtain ⟨inner, hw, rfl⟩ := h
  intro part hp
  simp only [parts, List.mem_filterMap, List.mem_map] at hp
  obtain ⟨_, ⟨p, hp, rfl⟩, hpart⟩ := hp
  have := length_wrapped hw
  have := Run.length_of_mem_splitAtCommas hp
  have := length_ofProperty hpart
  omega

theorem assertion?_below {rs : List Run} {f : Form (List Run)} (h : assertion? rs = some f) :
    PartsBelow rs.length f := by
  unfold assertion? at h
  split at h
  · simp at h
  · next expr target hc =>
      dsimp only at h
      split at h
      · simp at h
      · simp only [Option.some.injEq] at h
        subst h
        intro part hp
        simp only [parts, List.mem_singleton] at hp
        have := Nesting.length_cutAtLast hc
        simp only [List.length_cons, List.length_nil] at this
        subst hp
        omega

theorem array?_below {rs : List Run} {f : Form (List Run)} (h : array? rs = some f) :
    PartsBelow rs.length f := by
  simp only [array?, Option.map_eq_some_iff] at h
  obtain ⟨inner, hw, rfl⟩ := h
  intro part hp
  have := length_wrapped hw
  have := Run.length_of_mem_splitAtCommas (show part ∈ Run.splitAtCommas inner from hp)
  omega

theorem arrowTo?_below {params : List (List Run)} {types : Option ArrowTypes} {body : List Run}
    {f : Form (List Run)} {n : Nat} (h : arrowTo? params types body = some f)
    (hparams : ∀ p ∈ params, p.length < n) (hbody : body.length < n) : PartsBelow n f := by
  unfold arrowTo? at h
  split at h
  · simp at h
  · next r rs ht =>
      simp only [Option.some.injEq] at h
      subst h
      intro part hp
      simp only [parts, List.mem_append] at hp
      rcases hp with hp | hp
      · exact hparams part hp
      · have := Run.length_trim_le body
        rw [ht] at this
        split at hp
        · simp [bodyParts] at hp
        · simp only [bodyParts, List.mem_singleton] at hp
          subst hp
          omega

theorem length_ofParameter_le (p : List Run) : (ofParameter p).1.length ≤ p.length := by
  unfold ofParameter
  split
  · next hc =>
      have := Nesting.length_cutAtFirst hc
      simp only [List.length_cons, List.length_nil] at this ⊢
      omega
  · exact Nat.le_refl _

theorem bracketedArrow?_below {params rest : List Run} {f : Form (List Run)} {n : Nat}
    (h : bracketedArrow? params rest = some f) (hn : params.length + rest.length < n) :
    PartsBelow n f := by
  unfold bracketedArrow? at h
  have hd := length_dropBlanks_le rest
  have hparam {p : List Run} (hp : p ∈ Run.splitAtCommas params) : p.length < n := by
    have := Run.length_of_mem_splitAtCommas hp
    omega
  dsimp only at h
  split at h
  · next body hb =>
      have := Nesting.length_dropCode? hb
      exact arrowTo?_below h (fun p hp => hparam hp) (by omega)
  · split at h
    · simp at h
    · next annotated ha =>
        have := Nesting.length_dropCode? ha
        split at h
        · simp at h
        · next result body hc =>
            have := Nesting.length_cutAtFirst hc
            split at h
            · simp at h
            · refine arrowTo?_below h (fun p hp => ?_) (by omega)
              simp only [List.map_map, List.mem_map, Function.comp_apply] at hp
              obtain ⟨q, hq, rfl⟩ := hp
              exact Nat.lt_of_le_of_lt (length_ofParameter_le q) (hparam hq)

theorem nameArrow?_below {rs : List Run} {f : Form (List Run)} (h : nameArrow? rs = some f) :
    PartsBelow rs.length f := by
  unfold nameArrow? at h
  split at h
  · simp at h
  · next param body hc =>
      have := Nesting.length_cutAtFirst hc
      simp only [List.length_cons, List.length_nil] at this
      split at h
      · refine arrowTo?_below h (fun p hp => ?_) (by omega)
        simp only [List.mem_singleton] at hp
        subst hp
        omega
      · simp at h

theorem arrow?_below {rs : List Run} {f : Form (List Run)} (h : arrow? rs = some f) :
    PartsBelow rs.length f := by
  unfold arrow? at h
  split at h
  · next rest =>
      simp only [Option.bind_eq_some_iff] at h
      obtain ⟨⟨params, after⟩, he, h⟩ := h
      have := Run.length_enclosed he
      refine bracketedArrow?_below h ?_
      simp only [List.length_cons]
      omega
  · exact nameArrow?_below h

theorem call?_below {name rest : List Run} {f : Form (List Run)} (h : call? name rest = some f) :
    PartsBelow rest.length f := by
  unfold call? at h
  dsimp only at h
  split at h
  · split at h
    · next args after he =>
        split at h
        · simp only [Option.some.injEq] at h
          subst h
          intro part hp
          have := Run.length_enclosed he
          have := Run.length_of_mem_splitAtCommas (show part ∈ Run.splitAtCommas args from hp)
          omega
        · simp at h
    · simp at h
  · simp at h

theorem generic?_below {name rest : List Run} {f : Form (List Run)}
    (h : generic? name rest = some f) : PartsBelow rest.length f := by
  unfold generic? at h
  dsimp only at h
  split at h
  · split at h
    · next types after he =>
        have := Run.length_enclosed he
        have hd := length_dropBlanks_le after
        split at h
        · simp only [Option.some.injEq] at h
          subst h
          intro part hp
          have := Run.length_of_mem_splitAtCommas (show part ∈ Run.splitAtCommas types from hp)
          omega
        · next more hm =>
            rw [hm] at hd
            simp only [List.length_cons] at hd
            split at h
            · next args last hl =>
                have := Run.length_enclosed hl
                split at h
                · simp only [Option.some.injEq] at h
                  subst h
                  intro part hp
                  simp only [parts, List.mem_append] at hp
                  rcases hp with hp | hp
                  · have := Run.length_of_mem_splitAtCommas hp
                    omega
                  · have := Run.length_of_mem_splitAtCommas hp
                    omega
                · simp at h
            · simp at h
        · simp at h
    · simp at h
  · simp at h

theorem applied?_below {rs : List Run} {f : Form (List Run)} (h : applied? rs = some f) :
    PartsBelow rs.length f := by
  have weaken {n : Nat} (hn : n ≤ rs.length) (hf : PartsBelow n f) : PartsBelow rs.length f :=
    fun part hp => Nat.lt_of_lt_of_le (hf part hp) hn
  unfold applied? at h
  split at h
  · next h1 h2 =>
      have := Run.length_cutAtChar h1
      have := Run.length_cutAtChar h2
      split at h
      · exact weaken (by omega) (generic?_below h)
      · exact weaken (by omega) (call?_below h)
  · next h1 _ =>
      have := Run.length_cutAtChar h1
      exact weaken (by omega) (generic?_below h)
  · next _ h2 =>
      have := Run.length_cutAtChar h2
      exact weaken (by omega) (call?_below h)
  · simp at h

/-- Every part of a form has fewer runs than the argument. -/
theorem length_of_mem_parts {rs part : List Run} (h : part ∈ (of rs).parts) :
    part.length < rs.length := by
  have ht := Run.length_trim_le rs
  refine Nat.lt_of_lt_of_le ?_ ht
  unfold of at h
  dsimp only at h
  generalize Run.trim rs = ts at h ⊢
  cases ho : object? ts with
  | some f => exact object?_below ho part (by simpa [ho] using h)
  | none =>
    cases ha : assertion? ts with
    | some f => exact assertion?_below ha part (by simpa [ho, ha] using h)
    | none =>
      cases hl : array? ts with
      | some f => exact array?_below hl part (by simpa [ho, ha, hl] using h)
      | none =>
        cases hw : arrow? ts with
        | some f => exact arrow?_below hw part (by simpa [ho, ha, hl, hw] using h)
        | none =>
          cases hc : applied? ts with
          | some f => exact applied?_below hc part (by simpa [ho, ha, hl, hw, hc] using h)
          | none => simp [ho, ha, hl, hw, hc, parts] at h

end Form

end ScriptSurvey
