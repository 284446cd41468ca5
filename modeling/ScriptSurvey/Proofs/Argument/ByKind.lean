import ScriptSurvey.Proofs.Argument.Kept
import ScriptSurvey.Proofs.Lexical.Matched

/-!
# Readings that take brackets by kind

The reader pairs brackets by their count, and the pair need not be of one kind: in `f(a < b)` it may
be `)` that closes `<`. A reading is **by kind** if it takes only brackets of one kind for a pair,
at every level. Objects ask for one more thing. A property whose key comes again is dropped, and one
that is its own value is written once, so what is left out must not hold one bracket of a pair.

Where `<` and `>` nest by kind with the other brackets, every reading is by kind.
-/

namespace ScriptSurvey

open Run Nesting ScriptSurvey.Bracket

namespace Form

/-- The runs of a property, key and value. -/
def propertyRuns (p : Text × Option (List Run)) : List Run :=
  runs p.1 ++ p.2.getD []

/-- An object leaves out a property whose key comes again, and writes a property once that is its
own value. What it leaves out must be nested. -/
def KeepsProperties : Form (List Run) → Prop
  | object properties =>
    ((properties.map Prod.fst).Nodup ∨ ∀ p ∈ properties, Nested (propertyRuns p)) ∧
      ∀ p ∈ properties, ∀ value, p.2 = some value → Element.ofRuns value = .leaf p.1 →
        Nested (propertyRuns p)
  | _ => True

/-- A reading that takes only brackets of one kind for a pair, all the way down. -/
inductive ReadsByKind : List Run → Prop where
  | intro {rs : List Run} :
      Layout (fun o c => (o, c) ∈ bracketPairs) (Run.trim rs) (of rs) → KeepsProperties (of rs) →
      (∀ p ∈ (of rs).parts, ReadsByKind p) → ReadsByKind rs

theorem same_propertyRuns {p : List Run} (hs : Sound p) : Same (propertyRuns (ofProperty p)) p := by
  rcases ofProperty_cases p with ⟨key, value, heq, hof⟩ | hof
  · rw [hof]
    rw [heq] at hs ⊢
    have hcolon : Whole ([':'].map code) := whole_map_code (by decide)
    exact (Kept.join_trim hs.of_append.1).same.append (hcolon.same_append_right value).symm
  · rw [hof]
    show Same (runs (Run.join p) ++ []) p
    rw [List.append_nil, hs.stable]
    exact .refl p

/-! ## The parts of a form are parts of the argument -/

theorem isInfix_of_ofProperty {p value : List Run} (h : (ofProperty p).2 = some value) :
    value <:+: p := by
  rcases ofProperty_cases p with ⟨key, v, heq, hof⟩ | hof
  · rw [hof, Option.some.injEq] at h
    rw [heq, ← h, ← List.append_assoc]
    exact (List.suffix_append _ _).isInfix
  · exact absurd h (by simp [hof])

theorem isInfix_ofParameter (p : List Run) : (ofParameter p).1 <:+: p := by
  rcases ofParameter_cases p with ⟨name, annotation, heq, hof⟩ | hof
  · rw [hof, heq]
    exact (List.prefix_append _ _).isInfix
  · exact ⟨[], [], by simp [hof]⟩

theorem isInfix_of_mem_bodyParts {body p : List Run} (h : p ∈ bodyParts (bodyOf (Run.trim body))) :
    p <:+: body := by
  unfold bodyOf at h
  split at h
  · exact absurd h List.not_mem_nil
  · rw [List.mem_singleton.mp h]
    exact isInfix_trim body

/-- What an argument is made of stands in it. -/
theorem isInfix_of_mem_parts {rs p : List Run} (h : p ∈ (of rs).parts) : p <:+: rs := by
  have hlayout := layout_trim rs
  refine List.IsInfix.trans ?_ (isInfix_trim rs)
  generalize of rs = f at hlayout h
  generalize Run.trim rs = ts at hlayout
  -- a layout shows where its parts stand, so each case only names what is around them
  cases hlayout with
  | leaf => exact absurd h List.not_mem_nil
  | @object c inner _ _ =>
      obtain ⟨q, hq, hvalue⟩ := List.mem_filterMap.mp h
      obtain ⟨piece, hpiece, rfl⟩ := List.mem_map.mp hq
      exact ((isInfix_of_ofProperty hvalue).trans (isInfix_of_mem_splitAtCommas hpiece)).trans
        (List.infix_append' [_] inner _)
  | assertion _ =>
      rw [List.mem_singleton.mp h]
      exact (List.prefix_append _ _).isInfix
  | @array c inner _ _ =>
      exact (isInfix_of_mem_splitAtCommas h).trans (List.infix_append' [_] inner _)
  | @nameArrow param body _ _ =>
      rcases List.mem_append.mp h with h | h
      · rw [List.mem_singleton.mp h]
        exact (List.prefix_append _ _).isInfix
      · rw [← List.append_assoc]
        exact (isInfix_of_mem_bodyParts h).trans (List.suffix_append _ _).isInfix
  | @untypedArrow c params blanks body _ _ _ =>
      rcases List.mem_append.mp h with h | h
      · exact (isInfix_of_mem_splitAtCommas h).trans (List.infix_append' [_] params _)
      · refine (isInfix_of_mem_bodyParts h).trans ⟨code '(' :: (params ++ code c ::
          (blanks ++ ['=', '>'].map code)), [], by simp⟩
  | @typedArrow c params blanks result body _ _ _ _ =>
      rcases List.mem_append.mp h with h | h
      · obtain ⟨q, hq, rfl⟩ := List.mem_map.mp h
        obtain ⟨piece, hpiece, rfl⟩ := List.mem_map.mp hq
        exact ((isInfix_ofParameter piece).trans (isInfix_of_mem_splitAtCommas hpiece)).trans
          (List.infix_append' [_] params _)
      · refine (isInfix_of_mem_bodyParts h).trans ⟨code '(' :: (params ++ code c ::
          (blanks ++ ([':'].map code ++ (result ++ ['=', '>'].map code)))), [], by simp⟩
  | @call c name args blanks _ _ _ _ =>
      exact (isInfix_of_mem_splitAtCommas h).trans ⟨name ++ [code '('], code c :: blanks, by simp⟩
  | @generic c name types blanks _ _ _ _ =>
      exact (isInfix_of_mem_splitAtCommas h).trans ⟨name ++ [code '<'], code c :: blanks, by simp⟩
  | @genericCall c d name types blanks args blanks' _ _ _ _ _ _ _ =>
      rcases List.mem_append.mp h with h | h
      · exact (isInfix_of_mem_splitAtCommas h).trans ⟨name ++ [code '<'],
          code c :: (blanks ++ code '(' :: (args ++ code d :: blanks')), by simp⟩
      · exact (isInfix_of_mem_splitAtCommas h).trans ⟨name ++ code '<' :: (types ++ code c ::
          (blanks ++ [code '('])), code d :: blanks', by simp⟩

/-! ## Matched runs are read by kind -/

theorem partners_of_isMatched {rs : List Run} (h : IsMatched rs) :
    Partners (fun o c => (o, c) ∈ bracketPairs) rs := by
  intro front o inner c after hrs ho he _
  rw [hrs] at h
  obtain ⟨d, hpair, hrest, _⟩ :=
    (h.of_isInfix (List.suffix_append _ _).isInfix).exists_closer ho he
  have hcd : code c = code d := by simpa using hrest
  rw [Run.code.inj hcd]
  exact hpair

/-- What an object leaves out is nested where all four kinds nest. -/
theorem keepsProperties_of_isMatched {rs : List Run} (hs : Sound rs) (h : IsMatched rs) :
    KeepsProperties (of rs) := by
  have hlayout := layout_of (partners_of_isMatched (h.of_isInfix (isInfix_trim rs)))
  have hts := hs.of_isInfix (isInfix_trim rs)
  have hmatched := h.of_isInfix (isInfix_trim rs)
  generalize of rs = f at hlayout ⊢
  generalize Run.trim rs = ts at hlayout hts hmatched
  cases hlayout with
  | @object c inner _ he =>
      obtain ⟨_, _, _, e, hinner⟩ := hmatched.exists_closer rfl he
      have hnested : ∀ p ∈ (Run.splitAtCommas inner).map ofProperty, Nested (propertyRuns p) := by
        intro p hp
        obtain ⟨piece, hpiece, rfl⟩ := List.mem_map.mp hp
        have hsound := (Kept.sound_of_mem_splitAtCommas hts.tail.of_append.1 hpiece).1
        exact (same_propertyRuns hsound).nested (nested_of_mem_splitAtCommas hinner hpiece)
      exact ⟨.inr hnested, fun p hp _ _ _ => hnested p hp⟩
  | _ => trivial

/-- **Matched runs are read by kind.** -/
theorem readsByKind_of_isMatched {rs : List Run} (hs : Sound rs) (h : IsMatched rs) :
    ReadsByKind rs := by
  induction hn : rs.length using Nat.strong_induction_on generalizing rs with
  | _ n ih =>
      refine .intro (layout_of (partners_of_isMatched (h.of_isInfix (isInfix_trim rs))))
        (keepsProperties_of_isMatched hs h) fun p hp => ?_
      have hinfix := isInfix_of_mem_parts hp
      refine ih p.length ?_ (hs.of_isInfix hinfix) (h.of_isInfix hinfix) rfl
      rw [← hn]
      exact length_of_mem_parts hp

end Form

end ScriptSurvey
