import ScriptSurvey.Proofs.Argument.ByKind
import ScriptSurvey.Proofs.Argument.ObjectText

/-!
# Elements within elements

An element is a tree, and so is what is read of an argument: its runs, the runs of the parts of its
form, and so on. The two trees are the same as far as objects have each key once: of the values that
are given for one key, only the last is kept. What is within the element of an argument, and is no leaf,
is **read in** the runs of the argument.

The text of an element holds the texts of all elements within it.
-/

namespace ScriptSurvey

open Run Nesting

namespace Element

/-! ## The elements within an element -/

/-- The elements that an element is made of. -/
def children : Element → List Element
  | leaf _ => []
  | array items => items
  | call _ args => args
  | generic _ types => types
  | genericCall _ types args => types ++ args
  | arrow params _ body => params ++ [body]
  | object properties => properties.map Prod.snd
  | assertion _ expr => [expr]

/-- Whether an element is another one or stands within it. -/
inductive Within (d : Element) : Element → Prop where
  | self : Within d d
  | child {c e : Element} (mem : c ∈ e.children) (within : Within d c) : Within d e

theorem isInfix_commaJoin {e : Element} {es : List Element} (h : e ∈ es) :
    render e <:+: Text.commaJoin (renderEach es) := by
  rw [renderEach_eq_map]
  exact isInfix_intercalate _ (List.mem_map_of_mem h)

theorem isInfix_parameterText {e : Element} {params : List Element} (h : e ∈ params) :
    render e <:+: parameterText params (renderEach params) := by
  rcases parameterText_cases params with ⟨name, rfl, -, htext⟩ | ⟨htext, -⟩
  · simp only [htext, List.mem_singleton.mp h, render, List.infix_rfl]
  · rw [htext]
    exact (isInfix_commaJoin h).trans (List.infix_append _ _ _)

theorem exists_mem_annotate {t : Text} {ts : List Text} (h : t ∈ ts) (as : List (Option Text)) :
    ∃ u ∈ annotate ts as, t <:+: u := by
  fun_induction annotate ts as with
  | case1 => exact absurd h List.not_mem_nil
  | case2 s ts a as ih =>
      rcases List.mem_cons.mp h with rfl | h
      · exact ⟨_, List.mem_cons_self, by
          rw [List.append_assoc]
          exact (List.prefix_append _ _).isInfix⟩
      · obtain ⟨u, hu, htu⟩ := ih h
        exact ⟨u, List.mem_cons_of_mem _ hu, htu⟩
  | case3 s ts as ih | case4 s ts ih =>
      rcases List.mem_cons.mp h with rfl | h
      · exact ⟨_, List.mem_cons_self, List.infix_rfl⟩
      · obtain ⟨u, hu, htu⟩ := ih h
        exact ⟨u, List.mem_cons_of_mem _ hu, htu⟩

theorem isInfix_annotate {e : Element} {es : List Element} (h : e ∈ es) (as : List (Option Text)) :
    render e <:+: Text.commaJoin (annotate (renderEach es) as) := by
  have hmem : render e ∈ renderEach es := by
    rw [renderEach_eq_map]
    exact List.mem_map_of_mem h
  obtain ⟨u, hu, heu⟩ := exists_mem_annotate hmem as
  exact heu.trans (isInfix_intercalate _ hu)

theorem isInfix_propertyText (p : Text × Element) :
    render p.2 <:+: propertyText p.1 p.2 (render p.2) := by
  rw [propertyText]
  split
  · next h => simp only [eq_leaf_of_leafText? h, render, List.infix_rfl]
  · exact (List.suffix_append _ _).isInfix

theorem isInfix_objectText {ts : List Text} {t : Text} (h : t ∈ ts) : t <:+: objectText ts := by
  rw [objectText_eq (List.ne_nil_of_mem h)]
  exact ((isInfix_intercalate _ h).trans (List.infix_append _ _ _)).trans (List.infix_append _ _ _)

/-- Elements are written within the elements that they are within. -/
theorem isInfix_render_of_mem_children {c e : Element} (h : c ∈ e.children) :
    render c <:+: render e := by
  cases e with
  | leaf t => exact absurd h List.not_mem_nil
  | array items =>
      rw [render]
      exact (isInfix_commaJoin h).trans (List.infix_append _ _ _)
  | call name args =>
      rw [render]
      exact (isInfix_commaJoin h).trans (List.infix_append _ _ _)
  | generic name types =>
      rw [render]
      exact (isInfix_commaJoin h).trans (List.infix_append _ _ _)
  | genericCall name types args =>
      rw [render]
      rcases List.mem_append.mp h with h | h
      · rw [List.append_assoc _ ['>'], List.append_assoc _ (['>'] ++ ['(']),
          List.append_assoc _ _ [')']]
        exact (isInfix_commaJoin h).trans (List.infix_append _ _ _)
      · exact (isInfix_commaJoin h).trans (List.infix_append _ _ _)
  | arrow params types body =>
      have hbody (head : Text) : render body <:+: head ++ [' ', '=', '>', ' '] ++ render body :=
        (List.suffix_append _ _).isInfix
      rcases List.mem_append.mp h with hparam | hbodyMem
      · cases types with
        | none =>
            rw [render, List.append_assoc]
            exact (isInfix_parameterText hparam).trans (List.prefix_append _ _).isInfix
        | some types =>
            rw [render]
            simp only [List.append_assoc]
            exact (isInfix_annotate hparam _).trans (List.infix_append' _ _ _)
      · rw [List.mem_singleton.mp hbodyMem]
        cases types with
        | none =>
            rw [render]
            exact hbody _
        | some types =>
            rw [render]
            exact hbody _
  | object properties =>
      obtain ⟨p, hp, rfl⟩ := List.mem_map.mp h
      rw [render, renderProperties_eq_map]
      exact (isInfix_propertyText p).trans (isInfix_objectText (List.mem_map_of_mem hp))
  | assertion target expr =>
      rw [render, List.mem_singleton.mp h, List.append_assoc]
      exact (List.prefix_append _ _).isInfix

theorem isInfix_render_of_within {d e : Element} (h : Within d e) : render d <:+: render e := by
  induction h with
  | self => exact List.infix_rfl
  | child mem _ ih => exact ih.trans (isInfix_render_of_mem_children mem)

end Element

/-! ## What is read within an argument -/

namespace Form

/-- Whether a part gives one of the elements that an element of this form is made of. Of the values that
an object has for one key only the last does. -/
def Keeps : Form (List Run) → List Run → Prop
  | object properties, part => ∃ key, Element.IsLast (key, some part) properties
  | f, part => part ∈ f.parts

theorem Keeps.mem_parts {f : Form (List Run)} {part : List Run} (h : f.Keeps part) :
    part ∈ f.parts := by
  cases f with
  | object properties =>
      obtain ⟨key, hlast⟩ := h
      exact List.mem_filterMap.mpr ⟨_, hlast.mem, rfl⟩
  | _ => exact h

/-- The runs that are read for an element within that of some runs: these runs, or those that are read
for an element within that of a part that they keep. -/
inductive ReadIn (part : List Run) : List Run → Prop where
  | self : ReadIn part part
  | part {p rs : List Run} (keeps : (of rs).Keeps p) (readIn : ReadIn part p) : ReadIn part rs

theorem ReadIn.isInfix {part rs : List Run} (h : ReadIn part rs) : part <:+: rs := by
  induction h with
  | self => exact List.infix_rfl
  | part keeps _ ih => exact ih.trans (isInfix_of_mem_parts keeps.mem_parts)

/-- Lists that hold the parts of what they hold, hold what is read in it. -/
theorem ReadIn.mem {part rs : List Run} (h : ReadIn part rs) {known : List (List Run)}
    (hparts : ∀ rs ∈ known, ∀ p ∈ (of rs).parts, p ∈ known) (hrs : rs ∈ known) : part ∈ known := by
  induction h with
  | self => exact hrs
  | part keeps _ ih => exact ih (hparts _ hrs _ keeps.mem_parts)

end Form

namespace Element

/-- An object has what the last properties of each key give. -/
theorem mem_collapse_entryOf_iff {properties : List (Text × Option (List Run))}
    {q : Text × Element} :
    q ∈ collapse (properties.map entryOf) ↔ ∃ p, IsLast p properties ∧ entryOf p = q :=
  mem_collapse_iff.trans (isLast_map_iff (f := entryOf) fun _ => rfl)

/-- The parts that are kept give elements that an element is made of. -/
theorem mem_children_of_keeps {f : Form (List Run)} {part : List Run} (h : f.Keeps part) :
    ofRuns part ∈ (ofForm ofRuns f).children := by
  cases f with
  | leaf t => exact absurd h List.not_mem_nil
  | array items => exact List.mem_map_of_mem h
  | call name args => exact List.mem_map_of_mem h
  | generic name types => exact List.mem_map_of_mem h
  | genericCall name types args =>
      rcases List.mem_append.mp h with h | h
      · exact List.mem_append_left _ (List.mem_map_of_mem h)
      · exact List.mem_append_right _ (List.mem_map_of_mem h)
  | arrow params types body =>
      rw [ofForm_arrow_eq]
      rcases List.mem_append.mp h with hparam | hbody
      · exact List.mem_append_left _ (List.mem_map_of_mem hparam)
      · cases body with
        | block t => exact absurd hbody List.not_mem_nil
        | expression p =>
            rw [List.mem_singleton.mp hbody]
            exact List.mem_append_right _ List.mem_cons_self
  | object properties =>
      obtain ⟨key, hlast⟩ := h
      exact List.mem_map.mpr ⟨_, mem_collapse_entryOf_iff.mpr ⟨_, hlast, rfl⟩, rfl⟩
  | assertion target expr =>
      rw [List.mem_singleton.mp h]
      exact List.mem_cons_self

/-- The elements that an element is made of are leaves, or are those of the parts that are kept. -/
theorem exists_keeps_of_mem_children {f : Form (List Run)} {c : Element}
    (h : c ∈ (ofForm ofRuns f).children) :
    (∃ t, c = leaf t) ∨ ∃ part, f.Keeps part ∧ ofRuns part = c := by
  cases f with
  | leaf t => exact absurd h List.not_mem_nil
  | array items => exact .inr (List.mem_map.mp h)
  | call name args => exact .inr (List.mem_map.mp h)
  | generic name types => exact .inr (List.mem_map.mp h)
  | genericCall name types args =>
      rcases List.mem_append.mp h with h | h
      · obtain ⟨p, hp, rfl⟩ := List.mem_map.mp h
        exact .inr ⟨p, List.mem_append_left _ hp, rfl⟩
      · obtain ⟨p, hp, rfl⟩ := List.mem_map.mp h
        exact .inr ⟨p, List.mem_append_right _ hp, rfl⟩
  | arrow params types body =>
      rw [ofForm_arrow_eq] at h
      rcases List.mem_append.mp h with hparam | hbody
      · obtain ⟨p, hp, rfl⟩ := List.mem_map.mp hparam
        exact .inr ⟨p, List.mem_append_left _ hp, rfl⟩
      · rw [List.mem_singleton.mp hbody]
        cases body with
        | block t => exact .inl ⟨t, rfl⟩
        | expression p => exact .inr ⟨p, List.mem_append_right _ List.mem_cons_self, rfl⟩
  | object properties =>
      obtain ⟨q, hq, rfl⟩ := List.mem_map.mp h
      obtain ⟨⟨key, value⟩, hlast, rfl⟩ := mem_collapse_entryOf_iff.mp hq
      -- a property without a value has its key for one, which is a leaf
      cases value with
      | none => exact .inl ⟨key, rfl⟩
      | some part => exact .inr ⟨part, ⟨key, hlast⟩, rfl⟩
  | assertion target expr =>
      rw [List.mem_singleton.mp h]
      exact .inr ⟨expr, List.mem_cons_self, rfl⟩

theorem within_of_readIn {part rs : List Run} (h : Form.ReadIn part rs) :
    Within (ofRuns part) (ofRuns rs) := by
  induction h with
  | self => exact .self
  | @part p rs keeps _ ih =>
      refine .child ?_ ih
      rw [ofRuns_eq rs]
      exact mem_children_of_keeps keeps

/-- What is within the element of an argument, and is no leaf, was read there. -/
theorem exists_readIn_of_within {d e : Element} (hd : ∀ t, d ≠ leaf t) (h : Within d e)
    {rs : List Run} (he : e = ofRuns rs) : ∃ part, Form.ReadIn part rs ∧ ofRuns part = d := by
  induction h generalizing rs with
  | self => exact ⟨rs, .self, he.symm⟩
  | @child c e mem within ih =>
      rw [he, ofRuns_eq] at mem
      rcases exists_keeps_of_mem_children mem with ⟨t, rfl⟩ | ⟨p, keeps, hp⟩
      · -- a leaf need not come from a part, but there is only itself within it
        cases within with
        | self => exact absurd rfl (hd t)
        | child mem _ => exact absurd mem List.not_mem_nil
      · obtain ⟨part, readIn, hpart⟩ := ih hp.symm
        exact ⟨part, .part keeps readIn, hpart⟩

theorem ofRuns_eq_object_iff {rs : List Run} {entries : List (Text × Element)} :
    ofRuns rs = object entries ↔
      ∃ properties, Form.of rs = .object properties ∧
        entries = collapse (properties.map entryOf) := by
  rw [ofRuns_eq]
  constructor
  · intro h
    generalize Form.of rs = f at h
    cases f with
    | object properties => exact ⟨properties, rfl, (object.inj h).symm⟩
    | arrow params types body =>
        rw [ofForm_arrow_eq] at h
        exact Element.noConfusion h
    | _ => exact Element.noConfusion h
  · rintro ⟨properties, hof, rfl⟩
    rw [hof]
    rfl

end Element

end ScriptSurvey
