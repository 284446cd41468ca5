import ScriptSurvey.Import.Literal
import ScriptSurvey.Import.Record

/-!
# Import rules of style sheets

A rule is `@import '<path>'`, `@import url('<path>')` or `@import url(<path>)`.  Only network
locations are external; any other path is relative, and gets the marker `./` if it has none.

A path without quotes is read as it stands, up to the parenthesis on its line, whatever it would
be as code.
-/

namespace ScriptSurvey

namespace StyleImport

/-- The keyword that starts a rule. -/
def keyword : Text := "@import".toList

/-- Whether the keyword is under the cursor, and no longer name. -/
def atRule (c : Cursor) : Bool :=
  match List.isPrefixOf? keyword c.rest with
  | none => false
  | some [] => true
  | some (d :: _) => !Text.isIdentifierPart d && d != '-'

/-- What follows `url(`, in any case. -/
def afterUrl? (t : Text) : Option Text :=
  if Text.toLower (t.take 4) = "url(".toList then some (t.drop 4) else none

/-- The path in the parentheses of `url(`, and what follows them. -/
def readUrl? (t : Text) : Option (Text × Text) :=
  if startsQuoted (Text.trimStart t) then
    (readQuoted? (Text.trimStart t)).bind fun p =>
      match Text.trimStart p.2 with
      | ')' :: after => some (Text.trim p.1, after)
      | _ => none
  else
    let line := t.takeWhile fun c => c != '\n' && c != ';'
    (Text.cutAtFirst (· == ')') line).map fun p => (Text.trim p.1, t.drop (p.1.length + 1))

/-- The path of a rule behind its keyword and trivia, and what follows it. -/
def readPath? (t : Text) : Option (Text × Text) :=
  if startsQuoted t then (readQuoted? t).map fun p => (Text.trim p.1, p.2)
  else (afterUrl? t).bind readUrl?

/-- The rule whose keyword is under the cursor, unless its path is empty. -/
def ruleAt? (c : Cursor) : Option Declaration :=
  (readPath? (c.forward keyword.length).skipTrivia.rest).bind fun p =>
    if p.1.isEmpty then none
    else
      let module := if Path.isNetwork p.1 then p.1 else Path.withMarker p.1
      some ⟨module, [], c.spanTo p.2, false⟩

/-- What is found at a code character, and where to look on. -/
def look (c : Cursor) : Option Declaration × Cursor.Next :=
  if atRule c then
    match ruleAt? c with
    | some d => (some d, .resume d.span.stop)
    | none => (none, .resume (c.offset + keyword.length))
  else (none, .onward)

end StyleImport

/-- The import rules of a style sheet, in order. -/
def styleDeclarations (t : Text) : List Declaration :=
  visitCode StyleImport.look t

/-- The import records of a style sheet. -/
def readStyleImports (importer t : Text) : FileImports :=
  (styleDeclarations t).foldl (fun f d => f.add .style (Path.isNetwork d.module) d)
    (FileImports.empty importer)

end ScriptSurvey
