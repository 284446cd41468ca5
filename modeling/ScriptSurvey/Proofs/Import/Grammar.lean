import ScriptSurvey.Proofs.Import.Spelling

/-!
# The grammar of import declarations

A declaration names a module, and binds what its clause says: a name for the default export, a block
of entries or a namespace, or a name and one of the other two. Each of them has the tokens it is
written in and the bindings it stands for.

`type`, `from` and `as` are words like any other here, so they can be names wherever a name stands.
The keyword `import` cannot be a name in front of a `from`: a search for the end of the clause would
take it for the next declaration.
-/

namespace ScriptSurvey.ScriptImport

/-! ## Words with a meaning -/

/-- The word that starts a declaration. -/
def importWord : Name := ⟨keyword, by decide⟩

/-- The word in front of a module path. -/
def fromWord : Name := ⟨"from".toList, by decide⟩

/-- The word in front of a local name. -/
def asWord : Name := ⟨"as".toList, by decide⟩

/-- The word that marks bindings for the type checker. -/
def typeWord : Name := ⟨"type".toList, by decide⟩

/-- The exported name of a default export. -/
def defaultWord : Name := ⟨"default".toList, by decide⟩

/-- A name that can be bound outside of braces. -/
structure LocalName extends Name where
  ne_keyword : text ≠ keyword

/-! ## Declarations -/

/-- An entry of a block: an exported name, as a local name or not. -/
structure Entry where
  typeOnly : Bool
  name : Name
  alias? : Option Name

/-- What stands alone in a clause, or behind a name and a comma. -/
inductive Group where
  | block (entries : List Entry) (trailingComma : Bool)
  | namespace (name : LocalName)

/-- What a clause binds. -/
inductive Items where
  | default (name : LocalName)
  | group (g : Group)
  | defaultAnd (name : LocalName) (g : Group)

/-- What stands between `import` and `from`. -/
structure Clause where
  typeOnly : Bool
  items : Items

/-- An import declaration, with a clause or for its effects only. -/
structure Statement where
  clause? : Option Clause
  path : QuotedPath
  semicolon : Bool

/-! ## What they are written in -/

/-- The marker `type`, where it stands. -/
def markerTokens (typeOnly : Bool) : List Token :=
  if typeOnly then [.word typeWord] else []

/-- The name of an entry, with the local name behind `as`. -/
def Entry.nameWords (e : Entry) : List Name :=
  e.name :: match e.alias? with
    | none => []
    | some y => [asWord, y]

/-- The words of an entry. -/
def Entry.words (e : Entry) : List Name :=
  if e.typeOnly then typeWord :: e.nameWords else e.nameWords

/-- What stands between the commas of a block: its entries, and nothing behind a last comma. -/
def blockPieces (entries : List Entry) (trailingComma : Bool) : List (List Name) :=
  entries.map Entry.words ++ if trailingComma then [[]] else []

/-- Words in pieces, with a comma between neighbours. -/
def separated (pieces : List (List Name)) : List Token :=
  List.intercalate [.mark .comma] (pieces.map fun ws => ws.map .word)

def Group.tokens : Group → List Token
  | block entries trailingComma =>
    .mark .opening :: (separated (blockPieces entries trailingComma) ++ [.mark .closing])
  | .namespace x => [.mark .star, .word asWord, .word x.toName]

def Items.tokens : Items → List Token
  | .default x => [.word x.toName]
  | group g => g.tokens
  | defaultAnd x g => .word x.toName :: .mark .comma :: g.tokens

def Clause.tokens (c : Clause) : List Token :=
  markerTokens c.typeOnly ++ c.items.tokens

/-- What stands between the keyword and the path of a declaration. -/
def Statement.clauseTokens (s : Statement) : List Token :=
  match s.clause? with
  | none => []
  | some c => c.tokens ++ [.word fromWord]

/-- What stands behind the path of a declaration. -/
def Statement.ending (s : Statement) : List Token :=
  if s.semicolon then [.mark .semicolon] else []

/-- The tokens of a declaration. -/
def Statement.tokens (s : Statement) : List Token :=
  .word importWord :: (s.clauseTokens ++ .path s.path :: s.ending)

/-! ## What they bind -/

/-- What an entry binds. An export called `default` is the default export, under another name. -/
def Entry.boundAs (typeOnly : Bool) (e : Entry) : Binding :=
  match e.alias? with
  | none => ⟨e.name.text, .named, none, typeOnly⟩
  | some y =>
    if e.name.text = defaultWord.text then ⟨y.text, .default, none, typeOnly⟩
    else ⟨e.name.text, .named, some y.text, typeOnly⟩

/-- The binding of an entry, in a clause that is marked or not. -/
def Entry.binding (typeOnly : Bool) (e : Entry) : Binding :=
  e.boundAs (typeOnly || e.typeOnly)

def Group.bindings (typeOnly : Bool) : Group → List Binding
  | block entries _ => entries.map (Entry.binding typeOnly)
  | .namespace x => [⟨x.text, .namespace, none, typeOnly⟩]

def Items.bindings (typeOnly : Bool) : Items → List Binding
  | .default x => [⟨x.text, .default, none, typeOnly⟩]
  | group g => g.bindings typeOnly
  | defaultAnd x g => ⟨x.text, .default, none, typeOnly⟩ :: g.bindings typeOnly

/-- The bindings of a declaration, in order. -/
def Statement.bindings (s : Statement) : List Binding :=
  match s.clause? with
  | none => []
  | some c => c.items.bindings c.typeOnly

end ScriptSurvey.ScriptImport
