import ScriptSurvey.Argument.Parse
import ScriptSurvey.Lexical.Cursor

/-!
# Call sites

Calls to the functions that a reader cares about.  A call starts with a registered name, which
is a whole dotted path, and goes on to the parenthesis that closes its arguments.  Found are the
outermost calls from left to right: what is nested in a call found belongs to its arguments.

Members (`x.name(…)`) and declarations (`function name(…)`) are no calls.

A reader that counts brackets and keeps places in words of 32 bits finds the same calls in every text of
fewer than `2 ^ 32` bytes in which fewer than `2 ^ 31` brackets are open at once (`ByOffset.calls?_int32`).
-/

namespace ScriptSurvey

/-- A call found in source text. -/
structure CallSite where
  callee : Text
  /-- From the first character of the callee to the closing parenthesis. -/
  span : Span
  /-- The type arguments, when they are written. -/
  typeArguments : Option (List Element)
  arguments : List Element
deriving Repr

/-- The names whose calls are looked for, each once, in the order they were registered. -/
structure Callees where
  names : List Text
deriving DecidableEq, Repr

namespace Callees

/-- No names. -/
def empty : Callees := ⟨[]⟩

/-- One more name, unless it is there. -/
def register (name : Text) (cs : Callees) : Callees :=
  if cs.names.contains name then cs else ⟨cs.names ++ [name]⟩

/-- The given names, registered in order. -/
def ofList (names : List Text) : Callees :=
  names.foldl (fun cs name => cs.register name) empty

/-- Whether a name is registered. -/
def contains (name : Text) (cs : Callees) : Bool :=
  cs.names.contains name

end Callees

namespace Cursor

/-- Whether no longer name and no member access ends at the cursor. -/
def startsWord (c : Cursor) : Bool :=
  match c.passed with
  | [] => true
  | d :: _ => d != '.' && !Text.isIdentifierPart d

/-- Whether the cursor is past the word `function` and blanks. -/
def followsFunctionKeyword (c : Cursor) : Bool :=
  match List.isPrefixOf? "function".toList.reverse (Text.trimStart c.passed) with
  | none => false
  | some [] => true
  | some (d :: _) => !Text.isIdentifierPart d

/-- Behind an opening bracket with `depth` more brackets open: the runs up to the closing bracket,
and the cursor past that. -/
def enclosedFrom (depth : Nat) (afterEquals : Bool) (c : Cursor) : Option (List Run × Cursor) :=
  match _h : c.rest with
  | [] => none
  | d :: t =>
    let s := Step.first d t
    match (s.run.shift afterEquals).within depth with
    | none => some ([], c.past s)
    | some n => (enclosedFrom n (s.run.isChar '=') (c.past s)).map fun p => (s.run :: p.1, p.2)
termination_by c.rest.length
decreasing_by
  have := Step.first_rest_length_le d t
  simp only [past, _h, List.length_cons]
  omega

/-- Walking from the cursor finds what the runs of the rest of its text enclose. -/
theorem enclosedFrom_eq (depth : Nat) (afterEquals : Bool) (c : Cursor) :
    (c.enclosedFrom depth afterEquals).map (fun p => (p.1, runs p.2.rest)) =
      Run.enclosedFrom depth afterEquals (runs c.rest) := by
  fun_induction enclosedFrom depth afterEquals c with
  | case1 depth afterEquals c h => rw [h, runs, Run.enclosedFrom, Option.map_none]
  | case2 depth afterEquals c d t h s hs =>
      rw [h, runs, Run.enclosedFrom, hs, Option.map_some]
      rfl
  | case3 depth afterEquals c d t h s n hs ih =>
      rw [h, runs, Run.enclosedFrom, hs]
      change _ = (Run.enclosedFrom n (s.run.isChar '=') (runs s.rest)).map _
      rw [show runs s.rest = runs (c.past s).rest from rfl, ← ih]
      rw [Option.map_map, Option.map_map]
      rfl

/-- What the opening bracket under the cursor encloses, and the cursor past the closing one. -/
def bracketed? (c : Cursor) : Option (List Run × Cursor) :=
  (c.forward 1).enclosedFrom 0 false

end Cursor

namespace CallSite

/-- The arguments under the cursor, and the cursor past them. -/
def arguments? (c : Cursor) : Option (List Element × Cursor) :=
  match c.rest with
  | '(' :: _ => c.bracketed?.map fun p => ((Run.splitAtCommas p.1).map Element.ofRuns, p.2)
  | _ => none

/-- The type arguments under the cursor, if there are any, and the cursor past them and the
trivia behind them.  There is nothing when the angle bracket is not closed. -/
def typeArguments? (c : Cursor) : Option (Option (List Element) × Cursor) :=
  match c.rest with
  | '<' :: _ =>
    c.bracketed?.map fun p =>
      (some ((Run.splitAtCommas p.1).map Element.ofRuns), p.2.skipTrivia)
  | _ => some (none, c)

/-- The call of `name`, with the cursor in front of the name. -/
def at? (name : Text) (c : Cursor) : Option CallSite :=
  match typeArguments? (c.forward name.length).skipTrivia with
  | none => none
  | some (types, d) =>
    (arguments? d).map fun p => ⟨name, ⟨c.offset, p.2.offset⟩, types, p.1⟩

/-- What is found at a code character, and where to look on. -/
def look (cs : Callees) (c : Cursor) : Option CallSite × Cursor.Next :=
  let name := Text.dottedPath c.rest
  if name.isEmpty || !c.startsWord then (none, .onward)
  else
    let behindName := c.offset + Text.size name
    if !cs.contains name || c.followsFunctionKeyword then (none, .resume behindName)
    else
      match at? name c with
      | some site => (some site, .resume site.span.stop)
      | none => (none, .resume behindName)

end CallSite

/-- The outermost calls of registered names in a source text, in order. -/
def findCalls (cs : Callees) (source : Text) : List CallSite :=
  if cs.names.isEmpty then [] else visitCode (CallSite.look cs) source

end ScriptSurvey
