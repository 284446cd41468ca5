import ScriptSurvey.Argument.Element
import ScriptSurvey.Text.Identifier

/-!
# Elements as source text

The text of an element, on one line as far as its leaves are: elements of a list are separated
by a comma and a space, the parameters of a function are bracketed unless there is just one name,
and a property whose value is its own key is written once.
-/

namespace ScriptSurvey.Element

/-- Parameters without annotations; a single name needs no brackets. -/
def parameterText : List Element → List Text → Text
  | [leaf name], texts =>
    if Text.isIdentifier name then name else ['('] ++ Text.commaJoin texts ++ [')']
  | _, texts => ['('] ++ Text.commaJoin texts ++ [')']

/-- Parameters with those annotations that there are. -/
def annotate : List Text → List (Option Text) → List Text
  | [], _ => []
  | t :: ts, some a :: as => (t ++ [':', ' '] ++ a) :: annotate ts as
  | t :: ts, none :: as => t :: annotate ts as
  | t :: ts, [] => t :: annotate ts []

/-- A property, given the text of its value. -/
def propertyText (key : Text) (value : Element) (text : Text) : Text :=
  if value.leafText? = some key then key else key ++ [':', ' '] ++ text

/-- Properties in braces. -/
def objectText (properties : List Text) : Text :=
  if properties.isEmpty then ['\x7b', '\x7d']
  else ['\x7b', ' '] ++ Text.commaJoin properties ++ [' ', '\x7d']

mutual

/-- The text of an element. -/
def render : Element → Text
  | leaf t => t
  | array items => ['['] ++ Text.commaJoin (renderEach items) ++ [']']
  | call name args => name ++ ['('] ++ Text.commaJoin (renderEach args) ++ [')']
  | generic name types => name ++ ['<'] ++ Text.commaJoin (renderEach types) ++ ['>']
  | genericCall name types args =>
    name ++ ['<'] ++ Text.commaJoin (renderEach types) ++ ['>'] ++
      ['('] ++ Text.commaJoin (renderEach args) ++ [')']
  | arrow params none body =>
    parameterText params (renderEach params) ++ [' ', '=', '>', ' '] ++ render body
  | arrow params (some types) body =>
    ['('] ++ Text.commaJoin (annotate (renderEach params) types.params) ++ [')', ':', ' '] ++
      types.result ++ [' ', '=', '>', ' '] ++ render body
  | object properties => objectText (renderProperties properties)
  | assertion target expr => render expr ++ [' ', 'a', 's', ' '] ++ target

/-- The text of each element. -/
def renderEach : List Element → List Text
  | [] => []
  | e :: es => render e :: renderEach es

/-- The text of each property. -/
def renderProperties : List (Text × Element) → List Text
  | [] => []
  | (k, v) :: ps => propertyText k v (render v) :: renderProperties ps

end

end ScriptSurvey.Element

namespace ScriptSurvey

/-- The text of an argument list, without its parentheses. -/
def renderArguments (es : List Element) : Text :=
  Text.commaJoin (Element.renderEach es)

end ScriptSurvey
