import ScriptSurvey.Argument.Form
import ScriptSurvey.Proofs.Lexical.Pieces

/-!
# Canonical elements

The elements that can be written down and read back. Elements are trees over any texts at all, and
most of them are nothing that a reader could return: a leaf that holds a comma, a call whose name
holds a bracket. **Canonical** elements are those whose texts are what their places ask for:

* a leaf is a dotted path, a number in digits, or a string closed on its line;
* a callee is a dotted path, with or without `new ` in front;
* the keys of an object are identifiers or strings, each once;
* the target of an assertion is a dotted path;
* a function has any parameters, or identifiers with a dotted path for each annotation and for the
  result, and its body is the empty block, or neither an object nor an assertion.

`Canonical` takes one more condition on functions as a parameter, since on one point reading and
writing do not agree: ` as ` makes an assertion wherever it stands outside brackets, so the name
`as` must not come to stand between the spaces of a function. `ApartFromAs` says so.

Everything that stands in a text without brackets (paths, digits, strings) is **bare**: runs that
every walk passes over one by one.
-/

namespace ScriptSurvey

namespace Run

open Nesting

/-- Whether the run is a character of a dotted path, or a string. -/
def isBare : Run → Bool
  | code c => Text.isPathChar c
  | comment _ _ => false
  | literal _ _ => true

theorem ne_of_isBare {r : Run} (hr : r.isBare = true) {w : Char} (hw : Text.isPathChar w = false) :
    r ≠ code w := by
  intro h
  rw [h, isBare, hw] at hr
  exact Bool.noConfusion hr

theorem isFlat_of_isBare {r : Run} (hr : r.isBare = true) : r.isFlat = true := by
  have hne {w : Char} (hw : Text.isPathChar w = false) : r ≠ code w := ne_of_isBare hr hw
  have hshift : r.shift false = .stays := by
    unfold shift
    split
    · exact absurd rfl (hne rfl)
    · exact absurd rfl (hne rfl)
    · exact absurd rfl (hne rfl)
    · exact absurd rfl (hne rfl)
    · exact absurd rfl (hne rfl)
    · exact absurd rfl (hne rfl)
    · exact absurd rfl (hne rfl)
    · exact absurd rfl (hne rfl)
    · rfl
  have hequals : r.isChar '=' = false := by
    rw [isChar, beq_eq_false_iff_ne]
    exact hne rfl
  rw [isFlat, hshift, hequals]
  rfl

theorem isTrivia_of_isBare {r : Run} (hr : r.isBare = true) : r.isTrivia = false := by
  cases r with
  | code c => exact Text.isWhiteSpace_of_isPathChar hr
  | comment _ _ => exact absurd hr (by simp [isBare])
  | literal _ _ => rfl

/-- Runs that are all bare. -/
def Bare (rs : List Run) : Prop :=
  ∀ r ∈ rs, r.isBare = true

theorem Bare.level {rs : List Run} (h : Bare rs) : Level rs :=
  Level.of_isFlat fun r hr => isFlat_of_isBare (h r hr)

/-- Bare runs lack every word that does not begin like a path. -/
theorem Bare.lacks {rs : List Run} (h : Bare rs) {w : Char} (hw : Text.isPathChar w = false)
    (word : Text) : Lacks (w :: word) rs := by
  induction rs with
  | nil => exact lacks_nil w word
  | cons r rs ih =>
      have hr := h r List.mem_cons_self
      exact lacks_flat (isFlat_of_isBare hr) (dropCode?_of_ne (ne_of_isBare hr hw) rs)
        (ih fun s hs => h s (List.mem_cons_of_mem r hs))

theorem Bare.trimmed {rs : List Run} (h : Bare rs) (hne : rs ≠ []) : Trimmed rs where
  ne_nil := hne
  head r hr := isTrivia_of_isBare (h r (List.mem_of_mem_head? hr))
  last r hr := isTrivia_of_isBare (h r (List.mem_of_getLast? hr))

theorem Bare.isPiece {rs : List Run} (h : Bare rs) (hne : rs ≠ []) : IsPiece rs :=
  ⟨h.level, h.lacks rfl [], h.trimmed hne⟩

end Run

namespace Text

open Run

/-- A text of one word: sealed, and bare when scanned. -/
structure IsWord (t : Text) : Prop where
  ne_nil : t ≠ []
  isSealed : t.Sealed
  bare : Bare (runs t)

theorem IsWord.runs_ne_nil {t : Text} (h : t.IsWord) : runs t ≠ [] := by
  intro hnil
  have := join_runs t
  rw [hnil] at this
  exact h.ne_nil this.symm

theorem IsWord.of_isPathChar {t : Text} (hne : t ≠ []) (h : ∀ c ∈ t, isPathChar c = true) :
    t.IsWord := by
  have hplain : ∀ c ∈ t, isPlain c = true := fun c hc => isPlain_of_isPathChar (h c hc)
  refine ⟨hne, sealed_of_isPlain hplain, ?_⟩
  intro r hr
  rw [runs_of_isPlain hplain, List.mem_map] at hr
  obtain ⟨c, hc, rfl⟩ := hr
  exact h c hc

theorem IsWord.of_isDottedPath {t : Text} (h : isDottedPath t = true) : t.IsWord :=
  .of_isPathChar (ne_nil_of_isDottedPath h) fun _ hc => isPathChar_of_mem h hc

theorem IsWord.of_isIdentifier {t : Text} (h : isIdentifier t = true) : t.IsWord :=
  .of_isDottedPath (isDottedPath_of_isIdentifier h)

theorem IsWord.of_isDigit {t : Text} (hne : t ≠ []) (h : ∀ c ∈ t, c.isDigit = true) :
    t.IsWord := by
  refine .of_isPathChar hne fun c hc => ?_
  rw [isPathChar, isIdentifierPart, h c hc]
  simp

/-- A string on one line, closed by the quote that opened it. -/
def IsQuoted (t : Text) : Prop :=
  '\n' ∉ t ∧ ∃ (kind : LiteralKind) (body : Text), kind.endsAtLineFeed = true ∧
    t = kind.delimiter :: body ∧ Body.ofLiteral kind body = ⟨body, [], true⟩

theorem runs_literal {kind : LiteralKind} {body : Text}
    (h : Body.ofLiteral kind body = ⟨body, [], true⟩) :
    runs (kind.delimiter :: body) = [.literal kind (kind.delimiter :: body)] := by
  have := runs_literal_append h []
  rwa [List.append_nil, runs_nil] at this

theorem runs_of_isQuoted {t : Text} (h : t.IsQuoted) :
    ∃ kind : LiteralKind, runs t = [.literal kind t] := by
  obtain ⟨_, kind, body, _, rfl, hbody⟩ := h
  exact ⟨kind, runs_literal hbody⟩

/-- A string that its own quote closes is a word, also if it spans lines. -/
theorem IsWord.of_literal {kind : LiteralKind} {body : Text}
    (h : Body.ofLiteral kind body = ⟨body, [], true⟩) : IsWord (kind.delimiter :: body) := by
  refine ⟨List.cons_ne_nil _ _, sealed_literal h, fun r hr => ?_⟩
  rw [runs_literal h, List.mem_singleton] at hr
  rw [hr]
  rfl

theorem IsWord.of_isQuoted {t : Text} (h : t.IsQuoted) : t.IsWord := by
  obtain ⟨_, _, _, _, rfl, hbody⟩ := h
  exact .of_literal hbody

end Text

namespace Element

/-! ## The grammar -/

/-- The text of a leaf: a dotted path, digits, or a string. -/
def IsLeafText (t : Text) : Prop :=
  Text.isDottedPath t = true ∨ (t ≠ [] ∧ ∀ c ∈ t, c.isDigit = true) ∨ t.IsQuoted

/-- What can be called: a dotted path, with or without `new ` in front. -/
def IsName (name : Text) : Prop :=
  Text.isDottedPath name = true ∨
    ∃ path, Text.isDottedPath path = true ∧ name = ['n', 'e', 'w', ' '] ++ path

/-- The key of a property: an identifier or a string. -/
def IsKey (key : Text) : Prop :=
  Text.isIdentifier key = true ∨ key.IsQuoted

/-- A function body without statements. -/
def emptyBlock : Element :=
  leaf ['\x7b', '\x7d']

/-- Whether the element can stand behind an arrow: an object would be a block there, and an
assertion would take the whole function in. -/
def isBody : Element → Bool
  | object _ => false
  | assertion _ _ => false
  | _ => true

/-- The left side of a function: any parameters without types, or identifiers with an annotation
or none for each, and a result type. -/
def IsHead (params : List Element) : Option ArrowTypes → Prop
  | none => True
  | some types =>
    (∀ p ∈ params, ∃ name, Text.isIdentifier name = true ∧ p = leaf name) ∧
      types.params.length = params.length ∧
      (∀ a ∈ types.params, ∀ t, a = some t → Text.isDottedPath t = true) ∧
      Text.isDottedPath types.result = true

/-- Elements whose texts are what their places ask for, with functions that satisfy `allowed`. -/
inductive Canonical (allowed : Option ArrowTypes → Element → Prop) : Element → Prop where
  | leaf {t : Text} : IsLeafText t → Canonical allowed (leaf t)
  | array {items : List Element} :
      (∀ e ∈ items, Canonical allowed e) → Canonical allowed (array items)
  | call {name : Text} {args : List Element} : IsName name →
      (∀ e ∈ args, Canonical allowed e) → Canonical allowed (call name args)
  | generic {name : Text} {types : List Element} : IsName name →
      (∀ e ∈ types, Canonical allowed e) → Canonical allowed (generic name types)
  | genericCall {name : Text} {types args : List Element} : IsName name →
      (∀ e ∈ types, Canonical allowed e) → (∀ e ∈ args, Canonical allowed e) →
      Canonical allowed (genericCall name types args)
  | arrow {params : List Element} {types : Option ArrowTypes} {body : Element} :
      IsHead params types → (∀ p ∈ params, Canonical allowed p) → body.isBody = true →
      (body ≠ emptyBlock → Canonical allowed body) → allowed types body →
      Canonical allowed (arrow params types body)
  | object {properties : List (Text × Element)} : (properties.map Prod.fst).Nodup →
      (∀ p ∈ properties, IsKey p.1) → (∀ p ∈ properties, Canonical allowed p.2) →
      Canonical allowed (object properties)
  | assertion {target : Text} {expr : Element} : Text.isDottedPath target = true →
      Canonical allowed expr → Canonical allowed (assertion target expr)

/-- The name that is read as an assertion when it stands between spaces. -/
def asName : Text := ['a', 's']

/-- Neither the result type of a function nor the only parameter of its body is called `as`. -/
def ApartFromAs (types : Option ArrowTypes) (body : Element) : Prop :=
  (∀ ts, types = some ts → ts.result ≠ asName) ∧ ∀ b, body ≠ arrow [.leaf asName] none b

theorem IsLeafText.isWord {t : Text} (h : IsLeafText t) : t.IsWord := by
  rcases h with h | ⟨hne, h⟩ | h
  · exact .of_isDottedPath h
  · exact .of_isDigit hne h
  · exact .of_isQuoted h

theorem IsKey.isWord {key : Text} (h : IsKey key) : key.IsWord := by
  rcases h with h | h
  · exact .of_isIdentifier h
  · exact .of_isQuoted h

end Element

end ScriptSurvey
