import ScriptSurvey.Path.Specifier
import ScriptSurvey.Text.Word

/-!
# Rebasing specifiers

When a text moves to another directory, its relative specifiers have to change if they are to
name the same files.  This is done on the plain text, without regard to comments and strings:

* a quoted specifier behind `from`, `import`, `import(`, `@import` or `@import url(`;
* in a second pass, an unquoted one behind `@import url(`.

A specifier here begins with `./` or `../`.  The closing quote may be of the other kind, and is
then replaced by the opening one.
-/

namespace ScriptSurvey

/-- A place where a specifier is named: the text in front of it, the specifier, and what follows
behind it, with the quotes left out of all three. -/
structure SpecifierMatch where
  head : Text
  quote : Text
  specifier : Text
  rest : Text
deriving DecidableEq, Repr

/-- The text of a match with another specifier. -/
def SpecifierMatch.write (rebase : Text → Text) (m : SpecifierMatch) : Text :=
  m.head ++ m.quote ++ rebase m.specifier ++ m.quote

namespace Rebase

/-- A word at the front, and what follows it; nothing of a word may stand in front of it. -/
def wholeWord? (before : Option Char) (word t : Text) : Option Text :=
  if before.any Text.isWordChar then none else List.isPrefixOf? word t

/-- The blanks in front, and what follows them. -/
def blanks (t : Text) : Text × Text :=
  t.span Text.isBlank

/-- An opening `(`, if there is one, and what follows it. -/
def optionalParenthesis : Text → Text × Text
  | '(' :: t => (['('], t)
  | t => ([], t)

/-- `from` and blanks. -/
def fromHead? (before : Option Char) (t : Text) : Option (Text × Text) :=
  (wholeWord? before "from".toList t).map fun t =>
    let (gap, t) := blanks t
    ("from".toList ++ gap, t)

/-- `import`, or `import(`, and blanks. -/
def importHead? (before : Option Char) (t : Text) : Option (Text × Text) :=
  (wholeWord? before "import".toList t).map fun t =>
    let (gap, t) := blanks t
    let (parenthesis, t) := optionalParenthesis t
    let (gap', t) := blanks t
    ("import".toList ++ gap ++ parenthesis ++ gap', t)

/-- `@import` and at least one blank. -/
def ruleHead? (t : Text) : Option (Text × Text) :=
  (List.isPrefixOf? "@import".toList t).bind fun t =>
    let (gap, t) := blanks t
    if gap.isEmpty then none else some ("@import".toList ++ gap, t)

/-- `url(` and blanks. -/
def urlHead? (t : Text) : Option (Text × Text) :=
  (List.isPrefixOf? "url(".toList t).map fun t =>
    let (gap, t) := blanks t
    ("url(".toList ++ gap, t)

/-- The marker in front of a specifier, and what follows it. -/
def marker? (t : Text) : Option (Text × Text) :=
  match t with
  | '.' :: '/' :: t => some (['.', '/'], t)
  | '.' :: '.' :: '/' :: t => some (['.', '.', '/'], t)
  | _ => none

/-- Whether `c` is a quote. -/
def isQuote (c : Char) : Bool :=
  c == '\'' || c == '"'

/-- A quoted specifier behind `head`. -/
def quoted? (head t : Text) : Option SpecifierMatch :=
  match t with
  | [] => none
  | q :: t =>
    if isQuote q then
      (marker? t).bind fun (marker, t) =>
        let path := t.takeWhile fun c => !isQuote c && c != '\n'
        match t.dropWhile fun c => !isQuote c && c != '\n' with
        | c :: rest => if isQuote c then some ⟨head, [q], marker ++ path, rest⟩ else none
        | [] => none
    else none

/-- An unquoted specifier behind `head`. -/
def unquoted? (head t : Text) : Option SpecifierMatch :=
  (marker? t).map fun (marker, t) =>
    let inPath := fun c => c != ')' && !isQuote c && !Text.isBlank c
    ⟨head, [], marker ++ t.takeWhile inPath, t.dropWhile inPath⟩

/-- A quoted specifier of a rule. -/
def quotedRule? (t : Text) : Option SpecifierMatch :=
  (ruleHead? t).bind fun (head, t) =>
    match urlHead? t with
    | some (url, t) => quoted? (head ++ url) t
    | none => quoted? head t

/-- A place at the front where a quoted specifier is named. -/
def quotedAt? (before : Option Char) (t : Text) : Option SpecifierMatch :=
  ((fromHead? before t).bind fun p => quoted? p.1 p.2).or <|
    ((importHead? before t).bind fun p => quoted? p.1 p.2).or <| quotedRule? t

/-- A place at the front where an unquoted specifier is named. -/
def unquotedAt? (_before : Option Char) (t : Text) : Option SpecifierMatch :=
  (ruleHead? t).bind fun (head, t) => (urlHead? t).bind fun (url, t) => unquoted? (head ++ url) t

/-- The text with the specifier replaced wherever `find` finds one, from left to right.  A match
is taken only if it uses up some of the text. -/
def replaceAll (find : Option Char → Text → Option SpecifierMatch) (rebase : Text → Text)
    (before : Option Char) : Text → Text
  | [] => []
  | c :: t =>
    match find before (c :: t) with
    | none => c :: replaceAll find rebase (some c) t
    | some m =>
      if m.rest.length ≤ t.length then
        m.write rebase ++
          replaceAll find rebase ((c :: t).take (t.length + 1 - m.rest.length)).getLast? m.rest
      else c :: replaceAll find rebase (some c) t
termination_by t => t.length

/-- The specifier that names from `target` what `specifier` names from `source`. -/
def specifier (source target specifier : Text) : Text :=
  Path.relativeFrom target (Path.normalize (Path.combine source specifier))

end Rebase

/-- The text of a file that moves from the directory `source` to `target`, with the relative
specifiers that keep naming the same files. -/
def rebaseImports (source target t : Text) : Text :=
  let rebase := Rebase.specifier source target
  Rebase.replaceAll Rebase.unquotedAt? rebase none
    (Rebase.replaceAll Rebase.quotedAt? rebase none t)

end ScriptSurvey
