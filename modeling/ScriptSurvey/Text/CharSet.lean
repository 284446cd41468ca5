/-!
# Sets of characters

A set of characters given by ranges of code points, as the tables of character properties are.
-/

namespace ScriptSurvey

/-- A set of characters, as closed ranges of code points. -/
structure CharSet where
  ranges : List (Nat × Nat)

/-- Whether the set holds `c`. -/
def CharSet.contains (s : CharSet) (c : Char) : Bool :=
  s.ranges.any fun r => r.1 ≤ c.toNat && c.toNat ≤ r.2

end ScriptSurvey
