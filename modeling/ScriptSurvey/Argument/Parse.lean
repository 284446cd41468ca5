import ScriptSurvey.Argument.Form

/-!
# Reading arguments

An argument is read by finding its form and reading the parts of that.  Reading never fails: a
text of no other form is a leaf.
-/

namespace ScriptSurvey

namespace Element

/-- The element that some runs are. -/
def ofRuns (rs : List Run) : Element :=
  match _h : Form.of rs with
  | .leaf t => leaf t
  | .array items => array (items.attach.map fun ⟨p, _⟩ => ofRuns p)
  | .call name args => call name (args.attach.map fun ⟨p, _⟩ => ofRuns p)
  | .generic name types => generic name (types.attach.map fun ⟨p, _⟩ => ofRuns p)
  | .genericCall name types args =>
    genericCall name (types.attach.map fun ⟨p, _⟩ => ofRuns p)
      (args.attach.map fun ⟨p, _⟩ => ofRuns p)
  | .arrow params types (.block t) =>
    arrow (params.attach.map fun ⟨p, _⟩ => ofRuns p) types (leaf t)
  | .arrow params types (.expression body) =>
    arrow (params.attach.map fun ⟨p, _⟩ => ofRuns p) types (ofRuns body)
  | .object properties =>
    ofProperties (properties.attach.map fun
      | ⟨(key, some p), _⟩ => (key, ofRuns p)
      | ⟨(key, none), _⟩ => (key, leaf key))
  | .assertion target expr => assertion target (ofRuns expr)
termination_by rs.length
decreasing_by
  all_goals
    refine Form.length_of_mem_parts ?_
    rw [_h]
    simp only [Form.parts, Form.bodyParts, List.mem_filterMap]
    grind

end Element

/-- The element that a text is. -/
def parseElement (t : Text) : Element :=
  Element.ofRuns (runs t)

/-- The elements of an argument list, given without its parentheses. -/
def parseArguments (t : Text) : List Element :=
  (Run.splitAtCommas (runs t)).map Element.ofRuns

end ScriptSurvey
