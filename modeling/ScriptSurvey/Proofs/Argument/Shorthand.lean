import ScriptSurvey.Proofs.Argument.Within
import ScriptSurvey.Proofs.Import.Literal

/-!
# Properties written without a value

A property is written as its key alone when its value is a leaf with the text of the key. Of an
identifier this is what the shorthand means. A string or a number must not stand there alone, and it
does where it has itself for its value: `{ 1: 1 }` is written `{ 1 }`.

Nothing else goes wrong, however deep the object is, and whatever its values are. The objects that are
written are those that were read, each of them from runs of the text, with the last value that there is
for each key. The element of a value is a leaf with the text of a string or a number exactly if the
value is that text, up to the trivia around it, since such a text is never anything but a leaf.
-/

namespace ScriptSurvey

open Run Nesting

/-! ## Keys -/

namespace Text

/-- A number: a digit, with a dot in front or without, and behind it what may stand in a number, which
are digits, letters, underscores, dots, and the sign of an exponent. -/
def isNumber (t : Text) : Bool :=
  let u := if t.head? = some '.' then t.tail else t
  u.head?.any Char.isDigit && u.all fun c => isPathChar c || c == '+' || c == '-'

/-- What can be the key of a property: an identifier, a closed string in single or double quotes, or a
number. -/
def IsPropertyKey (t : Text) : Prop :=
  isIdentifier t = true ∨ t.IsClosedQuote ∨ isNumber t = true

instance (t : Text) : Decidable t.IsClosedQuote :=
  decidable_of_iff (∃ kind ∈ [LiteralKind.single, .double], t.head? = some kind.delimiter ∧
      Body.ofLiteral kind t.tail = ⟨t.tail, [], true⟩) <| by
    constructor
    · rintro ⟨kind, hkind, hhead, hbody⟩
      obtain ⟨body, rfl⟩ := List.head?_eq_some_iff.mp hhead
      refine ⟨kind, body, ?_, rfl, hbody⟩
      rcases List.mem_cons.mp hkind with rfl | hkind
      · rfl
      · rw [List.mem_singleton.mp hkind]
        rfl
    · rintro ⟨kind, body, hline, rfl, hbody⟩
      refine ⟨kind, ?_, rfl, hbody⟩
      cases kind with
      | single => exact List.mem_cons_self
      | double => exact List.mem_cons_of_mem _ List.mem_cons_self
      | template => exact absurd hline Bool.false_ne_true

instance (t : Text) : Decidable t.IsPropertyKey :=
  inferInstanceAs (Decidable (_ ∨ _ ∨ _))

theorem isNumber_char {t : Text} (h : isNumber t = true) {c : Char} (hc : c ∈ t) :
    isPathChar c = true ∨ c = '+' ∨ c = '-' := by
  simp only [isNumber, Bool.and_eq_true, List.all_eq_true, Bool.or_eq_true, beq_iff_eq] at h
  by_cases hdot : t.head? = some '.'
  · obtain ⟨u, rfl⟩ := List.head?_eq_some_iff.mp hdot
    rcases List.mem_cons.mp hc with rfl | hc
    · exact .inl rfl
    · exact or_assoc.mp (h.2 c hc)
  · rw [if_neg hdot] at h
    exact or_assoc.mp (h.2 c hc)

theorem ne_nil_of_isNumber {t : Text} (h : isNumber t = true) : t ≠ [] := by
  rintro rfl
  exact Bool.false_ne_true h

/-- A key has runs, none of which is a bracket or separates. -/
theorem IsPropertyKey.isFlat {t : Text} (h : t.IsPropertyKey) :
    runs t ≠ [] ∧ ∀ r ∈ runs t, r.isFlat = true ∧ r.isTrivia = false := by
  have hword {t : Text} (h : t.IsWord) :
      runs t ≠ [] ∧ ∀ r ∈ runs t, r.isFlat = true ∧ r.isTrivia = false :=
    ⟨h.runs_ne_nil, fun r hr => ⟨isFlat_of_isBare (h.bare r hr), isTrivia_of_isBare (h.bare r hr)⟩⟩
  rcases h with hid | ⟨kind, body, -, rfl, hbody⟩ | hnumber
  · exact hword (.of_isIdentifier hid)
  · exact hword (.of_literal hbody)
  · have hplain : ∀ c ∈ t, isPlain c = true := by
      intro c hc
      rcases isNumber_char hnumber hc with hpath | rfl | rfl
      · exact isPlain_of_isPathChar hpath
      · decide
      · decide
    rw [runs_of_isPlain hplain]
    refine ⟨fun hnil => ne_nil_of_isNumber hnumber (List.map_eq_nil_iff.mp hnil), fun r hr => ?_⟩
    obtain ⟨c, hc, rfl⟩ := List.mem_map.mp hr
    rcases isNumber_char hnumber hc with hpath | rfl | rfl
    · have hbare : (code c).isBare = true := hpath
      exact ⟨isFlat_of_isBare hbare, isTrivia_of_isBare hbare⟩
    · decide
    · decide

end Text

namespace Form

/-- The properties of an object literal; other forms have none. -/
def properties {α : Type} : Form α → List (Text × Option α)
  | object properties => properties
  | _ => []

/-- The text of a leaf is that of its runs. -/
theorem eq_join_trim_of_leaf {rs : List Run} {t : Text} (h : of rs = leaf t) :
    Run.join (Run.trim rs) = t := by
  have hlayout := layout_trim rs
  rw [h] at hlayout
  generalize Run.trim rs = ts at hlayout
  cases hlayout with
  | leaf => rfl

end Form

namespace Element

/-- A value is a leaf with the text of a key exactly if that is its text. -/
theorem ofRuns_eq_leaf_iff {key : Text} (hkey : key.IsPropertyKey) {value : List Run}
    (hs : Stable value) : ofRuns value = leaf key ↔ Run.join (Run.trim value) = key := by
  constructor
  · -- no other form gives a leaf
    intro h
    rw [ofRuns_eq] at h
    generalize hof : Form.of value = f at h
    cases f with
    | leaf t =>
        rw [← Element.leaf.inj h]
        exact Form.eq_join_trim_of_leaf hof
    | arrow params types body =>
        rw [ofForm_arrow_eq] at h
        exact Element.noConfusion h
    | _ => exact Element.noConfusion h
  · -- the runs of a key have nothing in them that another form begins or goes on with
    rintro rfl
    have hruns : runs (Run.join (Run.trim value)) = Run.trim value :=
      hs.of_isInfix (isInfix_trim value)
    obtain ⟨hne, hflat⟩ := hkey.isFlat
    rw [hruns] at hne hflat
    rw [← ofRuns_of_trim_eq (trim_of_trimmed (trimmed_trim hne)), ofRuns_eq, Form.of_flat hne hflat]
    rfl

/-! ## Properties with their values -/

/-- Whether a property is written with its value behind its key. -/
def WritesValue (p : Text × Element) : Prop :=
  propertyText p.1 p.2 (render p.2) = p.1 ++ [':', ' '] ++ render p.2

instance : DecidablePred WritesValue :=
  fun _ => inferInstanceAs (Decidable (_ = _))

theorem not_writesValue_iff {p : Text × Element} : ¬WritesValue p ↔ p.2 = leaf p.1 := by
  rw [WritesValue, propertyText]
  constructor
  · intro h
    by_contra hne
    refine h (if_neg fun hleaf => hne (eq_leaf_of_leafText? hleaf))
  · intro h
    rw [h, leafText?, if_pos rfl, List.append_assoc, List.self_eq_append_right]
    exact List.cons_ne_nil _ _

/-- What the properties of an object literal can be: a key and a value, or an identifier alone. -/
def HasKey : Text × Option (List Run) → Prop
  | (key, some _) => key.IsPropertyKey
  | (key, none) => Text.isIdentifier key = true

instance : DecidablePred HasKey
  | (key, some _) => inferInstanceAs (Decidable key.IsPropertyKey)
  | (key, none) => inferInstanceAs (Decidable (Text.isIdentifier key = true))

/-- Whether an object with these properties is read somewhere in an argument list, and kept. -/
def ReadsObject (properties : List (Text × Option (List Run))) (t : Text) : Prop :=
  ∃ rs ∈ Run.splitAtCommas (runs t), ∃ part, Form.ReadIn part rs ∧ Form.of part = .object properties

/-- The objects within the elements of an argument list are those that are read in it. -/
theorem exists_within_parseArguments_iff {entries : List (Text × Element)} {t : Text} :
    (∃ e ∈ parseArguments t, Within (object entries) e) ↔
      ∃ properties, ReadsObject properties t ∧ entries = collapse (properties.map entryOf) := by
  constructor
  · rintro ⟨e, he, hwithin⟩
    obtain ⟨rs, hrs, rfl⟩ := List.mem_map.mp he
    obtain ⟨part, hread, hpart⟩ := exists_readIn_of_within (by simp) hwithin rfl
    obtain ⟨properties, hof, hentries⟩ := ofRuns_eq_object_iff.mp hpart
    exact ⟨properties, ⟨rs, hrs, part, hread, hof⟩, hentries⟩
  · rintro ⟨properties, ⟨rs, hrs, part, hread, hof⟩, hentries⟩
    refine ⟨ofRuns rs, List.mem_map_of_mem hrs, ?_⟩
    rw [← ofRuns_eq_object_iff.mpr ⟨properties, hof, hentries⟩]
    exact within_of_readIn hread

/-- The values of an object that is read are runs of the text. -/
theorem ReadsObject.stable {properties : List (Text × Option (List Run))} {t : Text}
    (h : ReadsObject properties t) {key : Text} {value : List Run}
    (hmem : (key, some value) ∈ properties) : Stable value := by
  obtain ⟨rs, hrs, part, hread, hof⟩ := h
  have hvalue : value ∈ (Form.of part).parts := by
    rw [hof]
    exact List.mem_filterMap.mpr ⟨_, hmem, rfl⟩
  exact (stable_runs t).of_isInfix (((Form.isInfix_of_mem_parts hvalue).trans hread.isInfix).trans
    (isInfix_of_mem_splitAtCommas hrs))

/-- **Properties without a value are identifiers**, as far as no string and no number that is a key has
itself for its last value. That is for all objects in what the arguments are written as. The objects are
those that are read, and what they have for keys must be keys. That leaves out the texts in which a
comparison misleads the count of brackets and cuts a property in two: for a second property of
`{ a: g(b > c, d < e) }`, `d < e)` is read, and it is written without a value though it is no identifier. -/
theorem isIdentifier_of_not_writesValue_iff {t : Text}
    (hkeys : ∀ properties, ReadsObject properties t → ∀ p ∈ properties, HasKey p) :
    (∀ e ∈ parseArguments t, ∀ entries, Within (object entries) e →
      render (object entries) <:+: renderArguments (parseArguments t)) ∧
    ((∀ e ∈ parseArguments t, ∀ entries, Within (object entries) e →
        ∀ p ∈ entries, ¬WritesValue p → Text.isIdentifier p.1 = true) ↔
      ∀ properties, ReadsObject properties t →
        ∀ key value, IsLast (key, some value) properties → Text.isIdentifier key = false →
          Run.join (Run.trim value) ≠ key) := by
  constructor
  · intro e he entries hwithin
    exact (isInfix_render_of_within hwithin).trans (isInfix_commaJoin he)
  constructor
  · -- a key with itself for its value is in the element of its object, and is written once there
    intro h properties hread key value hlast hid htext
    obtain ⟨e, he, hwithin⟩ := exists_within_parseArguments_iff.mpr ⟨properties, hread, rfl⟩
    have hmem := mem_collapse_entryOf_iff.mpr ⟨_, hlast, rfl⟩
    have hkey : key.IsPropertyKey := hkeys properties hread _ hlast.mem
    have hleaf := (ofRuns_eq_leaf_iff hkey (hread.stable hlast.mem)).mpr htext
    have hid' := h e he _ hwithin _ hmem (not_writesValue_iff.mpr hleaf)
    exact Bool.false_ne_true (hid.symm.trans hid')
  · intro h e he entries hwithin p hp hshort
    obtain ⟨properties, hread, rfl⟩ := exists_within_parseArguments_iff.mp ⟨e, he, hwithin⟩
    obtain ⟨⟨key, value⟩, hlast, rfl⟩ := mem_collapse_entryOf_iff.mp hp
    have hkey := hkeys properties hread _ hlast.mem
    cases value with
    | none => exact hkey
    | some value =>
        by_contra hid
        rw [Bool.not_eq_true] at hid
        have hleaf := not_writesValue_iff.mp hshort
        have htext := (ofRuns_eq_leaf_iff hkey (hread.stable hlast.mem)).mp hleaf
        exact h properties hread key value hlast hid htext

/-- What holds of the properties of each form, for a list of runs that holds the pieces of a text and the
parts of what it holds, holds of every object that is read. -/
theorem ReadsObject.of_forall {t : Text} {known : List (List Run)}
    {P : List (Text × Option (List Run)) → Prop}
    (hpieces : ∀ rs ∈ Run.splitAtCommas (runs t), rs ∈ known)
    (hparts : ∀ rs ∈ known, ∀ p ∈ (Form.of rs).parts, p ∈ known)
    (hP : ∀ rs ∈ known, P (Form.of rs).properties) {properties : List (Text × Option (List Run))}
    (h : ReadsObject properties t) : P properties := by
  obtain ⟨rs, hrs, part, hread, hof⟩ := h
  have := hP part (hread.mem hparts (hpieces rs hrs))
  rwa [hof] at this

/-- A string for a key with an object for its value, and in that a number. -/
theorem isIdentifier_nested :
    let t : Text := "f(\x7b 'a': \x7b b, 1: 'c' \x7d \x7d)".toList
    ∀ e ∈ parseArguments t, ∀ entries, Within (object entries) e →
      ∀ p ∈ entries, ¬WritesValue p → Text.isIdentifier p.1 = true := by
  intro t
  let parts (known : List (List Run)) : List (List Run) := known.flatMap fun rs => (Form.of rs).parts
  let pieces := Run.splitAtCommas (runs t)
  let known := pieces ++ (parts pieces ++ (parts (parts pieces) ++ parts (parts (parts pieces))))
  have hpieces : ∀ rs ∈ Run.splitAtCommas (runs t), rs ∈ known := by decide +kernel
  have hparts : ∀ rs ∈ known, ∀ p ∈ (Form.of rs).parts, p ∈ known := by decide +kernel
  have hkeys : ∀ rs ∈ known, ∀ p ∈ (Form.of rs).properties, HasKey p := by decide +kernel
  have hvalues : ∀ rs ∈ known, ∀ p ∈ (Form.of rs).properties, Text.isIdentifier p.1 = false →
      ∀ value ∈ p.2, Run.join (Run.trim value) ≠ p.1 := by
    decide +kernel
  refine (isIdentifier_of_not_writesValue_iff fun properties hread => ?_).2.mpr
    fun properties hread key value hlast hid => ?_
  · exact hread.of_forall (P := fun properties => ∀ p ∈ properties, HasKey p) hpieces hparts hkeys
  · exact hread.of_forall (P := fun properties => ∀ p ∈ properties, Text.isIdentifier p.1 = false →
      ∀ value ∈ p.2, Run.join (Run.trim value) ≠ p.1) hpieces hparts hvalues _ hlast.mem hid _ rfl

/-- A string that is its own value is written once, and stands there alone. -/
theorem quoted_key_without_value :
    let t : Text := "\x7b 'a': 'a' \x7d".toList
    (∀ properties, ReadsObject properties t → ∀ p ∈ properties, HasKey p) ∧
      renderArguments (parseArguments t) = "\x7b 'a' \x7d".toList ∧
      ∃ e ∈ parseArguments t, ∃ entries, Within (object entries) e ∧
        ∃ p ∈ entries, ¬WritesValue p ∧ Text.isIdentifier p.1 = false := by
  intro t
  let quoted : Text := ['\'', 'a', '\'']
  let value : List Run := [code ' ', .literal .single quoted]
  let pieces := Run.splitAtCommas (runs t)
  let known := pieces ++ pieces.flatMap fun rs => (Form.of rs).parts
  have hpieces : ∀ rs ∈ Run.splitAtCommas (runs t), rs ∈ known := by decide +kernel
  have hparts : ∀ rs ∈ known, ∀ p ∈ (Form.of rs).parts, p ∈ known := by decide +kernel
  have hkeys : ∀ rs ∈ known, ∀ p ∈ (Form.of rs).properties, HasKey p := by decide +kernel
  have hread : ReadsObject [(quoted, some value)] t :=
    ⟨code '\x7b' :: code ' ' :: .literal .single quoted :: code ':' :: (value ++
      [code ' ', code '\x7d']), by decide +kernel, _, .self, rfl⟩
  obtain ⟨e, he, hwithin⟩ := exists_within_parseArguments_iff.mpr ⟨_, hread, rfl⟩
  have hleaf : ofRuns value = leaf quoted :=
    (ofRuns_eq_leaf_iff (by decide +kernel) (hread.stable List.mem_cons_self)).mpr rfl
  exact ⟨fun _ hread => hread.of_forall (P := fun properties => ∀ p ∈ properties, HasKey p) hpieces
    hparts hkeys, by decide +kernel, e, he, _, hwithin, _, List.mem_cons_self,
    not_writesValue_iff.mpr hleaf, rfl⟩

end Element

end ScriptSurvey
