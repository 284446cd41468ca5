import ScriptSurvey.Text.Basic

/-!
# Elements

What an argument of a call is, as far as its outer shape tells: a literal list or object, a call,
a function, an assertion of a type, or else a text kept as written.

The properties of an object are kept in order, each key once: a key that comes again takes the
new value and keeps its first place.
-/

namespace ScriptSurvey

/-- The annotations of a function whose result type is written: one for each parameter that has
one, and that of the result. -/
structure ArrowTypes where
  params : List (Option Text)
  result : Text
deriving DecidableEq, Repr

/-- An argument, classified. -/
inductive Element where
  /-- A text kept as written. -/
  | leaf (text : Text)
  /-- `[a, b]` -/
  | array (items : List Element)
  /-- `name(a, b)` -/
  | call (name : Text) (args : List Element)
  /-- `Name<A>` -/
  | generic (name : Text) (types : List Element)
  /-- `Name<A>(a, b)` -/
  | genericCall (name : Text) (types args : List Element)
  /-- `(a, b) => c`, with annotations when the result type is written. -/
  | arrow (params : List Element) (types : Option ArrowTypes) (body : Element)
  /-- An object literal.  A shorthand or a spread has itself as its key and, as a leaf, as its
  value. -/
  | object (properties : List (Text × Element))
  /-- `a as T` -/
  | assertion (target : Text) (expr : Element)
deriving Repr

namespace Element

/-- The text of a leaf. -/
def leafText? : Element → Option Text
  | leaf t => some t
  | _ => none

/-- Whether this is a leaf. -/
def isLeaf (e : Element) : Bool := e.leafText?.isSome

/-- The name in front of the brackets of a call or a generic. -/
def callee? : Element → Option Text
  | call name _ => some name
  | generic name _ => some name
  | genericCall name _ _ => some name
  | _ => none

/-- Properties with one more: a key that is present keeps its place and takes the new value. -/
def insertProperty (key : Text) (value : Element) : List (Text × Element) → List (Text × Element)
  | [] => [(key, value)]
  | (k, v) :: rest =>
    if k = key then (k, value) :: rest else (k, v) :: insertProperty key value rest

/-- The object with the given properties, inserted from left to right. -/
def ofProperties (properties : List (Text × Element)) : Element :=
  object (properties.foldl (fun ps p => insertProperty p.1 p.2 ps) [])

/-- The value under a key. -/
def property? (key : Text) : List (Text × Element) → Option Element
  | [] => none
  | (k, v) :: rest => if k = key then some v else property? key rest

mutual

/-- Whether two elements are the same when the order of properties does not matter. -/
def same : Element → Element → Bool
  | leaf t, leaf t' => t == t'
  | array items, array items' => sameList items items'
  | call name args, call name' args' => name == name' && sameList args args'
  | generic name types, generic name' types' => name == name' && sameList types types'
  | genericCall name types args, genericCall name' types' args' =>
    name == name' && sameList types types' && sameList args args'
  | arrow params types body, arrow params' types' body' =>
    sameList params params' && types == types' && same body body'
  | object ps, object ps' => ps.length == ps'.length && sameProperties ps ps'
  | assertion target expr, assertion target' expr' => target == target' && same expr expr'
  | _, _ => false

/-- Whether two lists of elements are the same, one by one. -/
def sameList : List Element → List Element → Bool
  | [], [] => true
  | e :: es, e' :: es' => same e e' && sameList es es'
  | _, _ => false

/-- Whether each of the first properties stands, with the same value, among the second. -/
def sameProperties : List (Text × Element) → List (Text × Element) → Bool
  | [], _ => true
  | (k, v) :: rest, ps =>
    (match property? k ps with
      | some v' => same v v'
      | none => false) && sameProperties rest ps

end

end Element

end ScriptSurvey
