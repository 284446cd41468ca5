import ScriptSurvey.Argument.Element
import ScriptSurvey.Text.Identifier
import ScriptSurvey.Text.PrintableTable

/-!
# Outlines

An indented listing of elements, for people who want to see how an argument was read.  Every
kind of element is written with its name, and every item of it on lines of its own, four columns
further in and ended by a comma.  Texts stand in double quotes, and characters that a reader
could not see stand there by their number.
-/

namespace ScriptSurvey

/-- A nested listing: a word, or named brackets around labelled items. -/
inductive Outline where
  | word (text : Text)
  | group (head : Text) (opening closing : Char) (items : List (Text × Outline))

namespace Outline

/-! ## Quoted texts -/

/-- Whether a character is spelled by its number. -/
def isHidden (c : Char) : Bool :=
  c.toNat < 0x20 || c.toNat == 0x7F || (!Text.isAscii c && Text.hiddenSet.contains c)

/-- A character in a quoted text. -/
def escape (c : Char) : Text :=
  if c = '\x00' then ['\\', '0']
  else if c = '\t' then ['\\', 't']
  else if c = '\r' then ['\\', 'r']
  else if c = '\n' then ['\\', 'n']
  else if c = '\\' ∨ c = '"' then ['\\', c]
  else if isHidden c then ['\\', 'u', '\x7b'] ++ Nat.toDigits 16 c.toNat ++ ['\x7d']
  else [c]

/-- A text in double quotes. -/
def quote (t : Text) : Text :=
  ['"'] ++ t.flatMap escape ++ ['"']

/-! ## Layout -/

/-- One column further in. -/
def indent (line : Text) : Text :=
  [' ', ' ', ' ', ' '] ++ line

/-- The lines of an item: the label goes before the first, and a comma behind the last. -/
def itemLines (label : Text) : List Text → List Text
  | [] => []
  | line :: rest =>
    let lines := (label ++ line) :: rest
    (lines.dropLast ++ (lines.getLast?.map (· ++ [','])).toList).map indent

mutual

/-- The lines of an outline. -/
def lines : Outline → List Text
  | word t => [t]
  | group head opening closing items =>
    match items with
    | [] => [head ++ [opening, closing]]
    | item :: rest => (head ++ [opening]) :: (linesOfItems (item :: rest) ++ [[closing]])

/-- The lines of the items of a group. -/
def linesOfItems : List (Text × Outline) → List Text
  | [] => []
  | (label, o) :: rest => itemLines label (lines o) ++ linesOfItems rest

end

/-- The lines of an outline, each but the last ended by a line feed. -/
def render (o : Outline) : Text :=
  List.intercalate ['\n'] (lines o)

/-! ## Outlines of elements -/

/-- Items without labels, in square brackets. -/
def list (items : List Outline) : Outline :=
  group [] '[' ']' (items.map fun o => ([], o))

/-- One item in named parentheses. -/
def variant (name : String) (item : Outline) : Outline :=
  group name.toList '(' ')' [([], item)]

/-- Named fields in named braces. -/
def record (name : String) (fields : List (String × Outline)) : Outline :=
  group (name.toList ++ [' ']) '\x7b' '\x7d'
    (fields.map fun f => (f.1.toList ++ [':', ' '], f.2))

/-- A quoted text. -/
def text (t : Text) : Outline :=
  word (quote t)

/-- Something that may be missing. -/
def optional : Option Outline → Outline
  | none => word "None".toList
  | some o => variant "Some" o

/-- The annotations of a function. -/
def ofTypes (types : ArrowTypes) : Outline :=
  record "ArrowTypes"
    [("params", list (types.params.map fun p => optional (p.map text))),
     ("return_type", text types.result)]

mutual

/-- The outline of an element. -/
def ofElement : Element → Outline
  | .leaf t => variant "Leaf" (text t)
  | .array items => variant "ArrayLiteral" (list (ofElements items))
  | .call name args => record "Call" [("name", text name), ("args", list (ofElements args))]
  | .generic name types =>
    record "Generic"
      [("name", text name), ("type_args", list (ofElements types)), ("call_args", optional none)]
  | .genericCall name types args =>
    record "Generic"
      [("name", text name), ("type_args", list (ofElements types)),
       ("call_args", optional (some (list (ofElements args))))]
  | .arrow params types body =>
    record "ArrowFn"
      [("params", list (ofElements params)), ("types", optional (types.map ofTypes)),
       ("body", ofElement body)]
  | .object properties =>
    variant "ObjectLiteral" (group [] '\x7b' '\x7d' (ofProperties properties))
  | .assertion target expr =>
    record "TypeAssertion" [("target_type", text target), ("expr", ofElement expr)]

/-- The outline of each element. -/
def ofElements : List Element → List Outline
  | [] => []
  | e :: es => ofElement e :: ofElements es

/-- The outline of each property, labelled by its key. -/
def ofProperties : List (Text × Element) → List (Text × Outline)
  | [] => []
  | (k, v) :: ps => (quote k ++ [':', ' '], ofElement v) :: ofProperties ps

end

end Outline

/-- The outline of an argument list. -/
def outlineArguments (es : List Element) : Text :=
  (Outline.list (Outline.ofElements es)).render

end ScriptSurvey
