import ScriptSurvey.Import.Literal
import ScriptSurvey.Import.Record
import ScriptSurvey.Lexical.Nesting

/-!
# Import declarations of scripts

A declaration is `import '<module>'`, or `import <clause> from '<module>'`.  The clause is a list
of bindings: a name for the default export, `* as name` for all exports, and a block
`{ a, b as c, type D, default as E, 'f-g' as h }` for some of them.  With `type` in front of a
clause or an entry the bindings are for the type checker only.

`type`, `from` and `as` are also names, so where they stand decides what they are:

* `type` in front of a clause is a name when nothing, or a comma, follows it;
* `from` ends the clause only when something precedes it and a quoted string follows it.

`import(…)` and `import.meta` are no declarations.  Where a declaration breaks off, the search
goes on right behind its keyword.
-/

namespace ScriptSurvey

namespace ScriptImport

/-- The keyword that starts a declaration. -/
def keyword : Text := "import".toList

/-! ## The binding clause -/

/-- The text with its first code character `c` left out, cut there. -/
def cutAtCode (c : Char) (t : Text) : Option (Text × Text) :=
  (Run.cutAtChar c (runs t)).map fun p => (Run.join p.1, Run.join p.2)

/-- The pieces of runs between the code commas, in brackets or not. -/
def entries : List Run → List (List Run)
  | [] => [[]]
  | r :: rs =>
    if r.isChar ',' then [] :: entries rs
    else
      match entries rs with
      | [] => [[r]]
      | p :: ps => (r :: p) :: ps

/-- The words of an entry; a quoted name in front is one word, whatever it holds. -/
def entryWords (entry : Text) : Option (List Text) :=
  let entry := Text.trim entry
  match entry with
  | [] => some []
  | c :: _ =>
    if startsQuoted entry then
      (readQuoted? entry).map fun p => ([c] ++ p.1 ++ [c]) :: Text.words p.2
    else some (Text.words entry)

/-- The binding that the words of an entry make. -/
def entryBinding (typeOnly : Bool) : List Text → Option Binding
  | [name] => if startsQuoted name then none else some ⟨name, .named, none, typeOnly⟩
  | [name, keyword, localName] =>
    if keyword = ['a', 's'] then
      if name = "default".toList then some ⟨localName, .default, none, typeOnly⟩
      else some ⟨name, .named, some localName, typeOnly⟩
    else none
  | _ => none

/-- The binding of an entry, if it is well formed.  `type` in front of a name, with or without an
alias, is a marker. -/
def readEntry (typeOnly : Bool) (entry : Text) : Option Binding :=
  match entryWords entry with
  | none => none
  | some words =>
    if words.head? = some "type".toList ∧ (words.length = 2 ∨ words.length = 4) then
      entryBinding true words.tail
    else entryBinding typeOnly words

/-- The bindings of a block, given without its braces.  Malformed entries are left out. -/
def readBlock (typeOnly : Bool) (block : Text) : List Binding :=
  (entries (runs block)).filterMap fun entry => readEntry typeOnly (Run.join entry)

/-- What follows `as` and at least one blank. -/
def afterAs? (t : Text) : Option Text :=
  match List.isPrefixOf? ['a', 's'] (Text.trimStart t) with
  | some (c :: after) => if Text.isBlank c then some (Text.trimStart after) else none
  | _ => none

/-- The bindings of the item in front of a clause, and what follows it. -/
def readItem (typeOnly : Bool) : Text → Option (List Binding × Text)
  | '\x7b' :: t => (cutAtCode '\x7d' t).map fun p => (readBlock typeOnly p.1, p.2)
  | '*' :: t =>
    ((afterAs? t).bind Text.takeIdentifier?).map fun p =>
      ([⟨p.1, .namespace, none, typeOnly⟩], p.2)
  | t => (Text.takeIdentifier? t).map fun p => ([⟨p.1, .default, none, typeOnly⟩], p.2)

theorem length_cutAtCode {c : Char} {t a b : Text} (h : cutAtCode c t = some (a, b)) :
    b.length ≤ t.length := by
  simp only [cutAtCode, Option.map_eq_some_iff, Prod.mk.injEq] at h
  obtain ⟨⟨x, y⟩, hc, _, rfl⟩ := h
  have join_le : ∀ rs : List Run, ∀ x y, Run.cutAtChar c rs = some (x, y) →
      (Run.join y).length ≤ (Run.join rs).length := by
    intro rs
    induction rs with
    | nil => intro x y h; simp [Run.cutAtChar] at h
    | cons r rs ih =>
        intro x y h
        simp only [Run.cutAtChar] at h
        split at h
        · simp only [Option.some.injEq, Prod.mk.injEq] at h
          simp [← h.2]
        · simp only [Option.map_eq_some_iff, Prod.mk.injEq] at h
          obtain ⟨⟨x', y'⟩, hp, _, rfl⟩ := h
          have := ih x' y' hp
          simp only [Run.join_cons, List.length_append]
          omega
  have := join_le (runs t) x y hc
  simpa using this

theorem length_takeIdentifier? {t a b : Text} (h : Text.takeIdentifier? t = some (a, b)) :
    b.length ≤ t.length := by
  simp only [Text.takeIdentifier?] at h
  split at h
  · simp only [Option.some.injEq, Prod.mk.injEq] at h
    rw [← h.2]
    exact (List.dropWhile_sublist _).length_le
  · simp at h

theorem length_isPrefixOf? {word t after : Text} (h : List.isPrefixOf? word t = some after) :
    after.length ≤ t.length := by
  induction word generalizing t with
  | nil => exact Nat.le_of_eq (congrArg List.length (Option.some.inj h).symm)
  | cons c word ih =>
      cases t with
      | nil => exact nomatch h
      | cons d t =>
          change (if c == d then List.isPrefixOf? word t else none) = some after at h
          split at h
          · exact Nat.le_succ_of_le (ih h)
          · exact nomatch h

theorem length_afterAs? {t after : Text} (h : afterAs? t = some after) :
    after.length ≤ t.length := by
  unfold afterAs? at h
  split at h
  · next c rest hp =>
      have h1 := length_isPrefixOf? hp
      have h2 := (List.dropWhile_sublist Text.isBlank (l := t)).length_le
      have h3 := (List.dropWhile_sublist Text.isBlank (l := rest)).length_le
      split at h
      · simp only [Option.some.injEq] at h
        simp only [Text.trimStart, List.length_cons] at h h1
        rw [← h]
        omega
      · simp at h
  · simp at h

theorem length_readItem {typeOnly : Bool} {t rest : Text} {bs : List Binding}
    (h : readItem typeOnly t = some (bs, rest)) : rest.length ≤ t.length := by
  unfold readItem at h
  split at h
  · next t =>
      simp only [Option.map_eq_some_iff, Prod.mk.injEq] at h
      obtain ⟨⟨a, b⟩, hc, _, rfl⟩ := h
      have := length_cutAtCode hc
      simp only [List.length_cons]
      omega
  · next t =>
      simp only [Option.map_eq_some_iff, Option.bind_eq_some_iff, Prod.mk.injEq] at h
      obtain ⟨⟨a, b⟩, ⟨after, ha, hi⟩, _, rfl⟩ := h
      have := length_afterAs? ha
      have := length_takeIdentifier? hi
      simp only [List.length_cons]
      omega
  · simp only [Option.map_eq_some_iff, Prod.mk.injEq] at h
    obtain ⟨⟨a, b⟩, hi, _, rfl⟩ := h
    exact length_takeIdentifier? hi

/-- The bindings of the items of a clause, from left to right. -/
def readItems (typeOnly : Bool) (t : Text) : Option (List Binding) :=
  match _h : readItem typeOnly t with
  | none => none
  | some (bs, rest) =>
    match _h' : Text.trimStart rest with
    | [] => some bs
    | c :: more =>
      if c = ',' then (readItems typeOnly (Text.trimStart more)).map (bs ++ ·) else none
termination_by t.length
decreasing_by
  have h1 := length_readItem _h
  have h2 := (List.dropWhile_sublist Text.isBlank (l := rest)).length_le
  have h3 := (List.dropWhile_sublist Text.isBlank (l := more)).length_le
  simp only [Text.trimStart] at _h' ⊢
  rw [_h'] at h2
  simp only [List.length_cons] at h2
  omega

/-- What follows the marker `type` in front of a clause.  It marks the clause when a name, apart
from it, or a bracket follows. -/
def afterTypeMarker? (clause : Text) : Option Text :=
  match List.isPrefixOf? "type".toList clause with
  | none => none
  | some after =>
    match Text.trimStart after with
    | [] => none
    | c :: rest =>
      if c ≠ ',' ∧ (rest.length + 1 < after.length ∨ c = '\x7b' ∨ c = '*') then some (c :: rest)
      else none

/-- The bindings of a clause without comments. -/
def readClause (clause : Text) : Option (List Binding) :=
  let clause := Text.trim clause
  match afterTypeMarker? clause with
  | some marked => readItems true marked
  | none => readItems false clause

/-! ## Declarations -/

/-- Whether a quote is under the cursor. -/
def atQuote (c : Cursor) : Bool :=
  startsQuoted c.rest

/-- The runs from the cursor up to the `from` that ends the clause, and the cursor at the string
behind it.  Strings stand in braces only, braces do not nest, and another declaration or the end
of a statement ends the search.  A search that counts braces goes on at one in braces, or at one that
closes none, but no clause with such a brace is read (`declarationAt?_eq_counted`). -/
def clauseUpToFrom (inBraces atStart : Bool) (c : Cursor) : Option (List Run × Cursor) :=
  match _h : c.rest with
  | [] => none
  | d :: t =>
    let s := Step.first d t
    let onward (inBraces : Bool) :=
      (clauseUpToFrom inBraces false (c.past s)).map fun p => (s.run :: p.1, p.2)
    match s.run with
    | .comment _ _ => onward inBraces
    | .literal _ _ => if inBraces then onward true else none
    | .code '\x7b' => if inBraces then none else onward true
    | .code '\x7d' => if inBraces then onward false else none
    | .code ';' => none
    | .code '=' => none
    | .code '(' => none
    | .code ')' => none
    | .code _ =>
      if inBraces then onward true
      else if c.atKeyword keyword then none
      else if !atStart && c.atKeyword "from".toList && atQuote (c.forward 4).skipTrivia then
        some ([], (c.forward 4).skipTrivia)
      else onward false
termination_by c.rest.length
decreasing_by
  have := Step.first_rest_length_le d t
  simp only [Cursor.past, _h, List.length_cons]
  omega

/-- The declaration whose keyword is under the cursor. -/
def declarationAt? (c : Cursor) : Option Declaration :=
  let first := (c.forward keyword.length).skipTrivia
  match first.rest with
  | [] => none
  | d :: _ =>
    if atQuote first then
      (readQuoted? first.rest).map fun p => ⟨p.1, [], c.spanTo p.2, false⟩
    else if d = '(' ∨ d = '.' then none
    else
      (clauseUpToFrom false true first).bind fun (clause, quote) =>
        (readQuoted? quote.rest).bind fun p =>
          (readClause (Run.join (clause.map Run.blankComment))).map fun bindings =>
            ⟨p.1, bindings, c.spanTo p.2, true⟩

/-- What is found at a code character, and where to look on. -/
def look (c : Cursor) : Option Declaration × Cursor.Next :=
  if c.atKeyword keyword then
    match declarationAt? c with
    | some d => (some d, .resume d.span.stop)
    | none => (none, .resume (c.offset + keyword.length))
  else (none, .onward)

end ScriptImport

/-- The import declarations of a script, in order. -/
def scriptDeclarations (t : Text) : List Declaration :=
  visitCode ScriptImport.look t

/-- The import records of a script.  A module is relative if its path says so. -/
def readScriptImports (importer t : Text) : FileImports :=
  (scriptDeclarations t).foldl (fun f d => f.add .script (!Path.isRelative d.module) d)
    (FileImports.empty importer)

end ScriptSurvey
