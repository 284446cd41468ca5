import ScriptSurvey.Proofs.Import.Braces
import ScriptSurvey.Proofs.Import.Spans
import ScriptSurvey.Proofs.Lexical.Words

/-!
# Declarations with their places in words

A reader of declarations that keeps their places in words of 32 bits finds the same declarations as one
that keeps them whole, in every text of fewer than `2 ^ 32` bytes. For scripts, which it goes on to read at
the end that it has kept, it may count the braces of a clause in a word as well.
-/

namespace ScriptSurvey

open Cursor

/-- The declaration with its place in words. -/
def Declaration.inWords (d : Declaration) : Declaration :=
  { d with span := d.span.inWords }

theorem Declaration.inWords_eq {look : Cursor → Option Declaration × Next}
    (h : FindsSpans Declaration.span look) {c : Cursor} {d : Declaration}
    (hsize : Text.size c.text < 2 ^ 32) (hd : (look c).1 = some d) : d.inWords = d := by
  rw [Declaration.inWords, h.inWords_eq hsize hd]

namespace ScriptImport

/-- What is found at a code character, and where to look on: behind the place of a declaration as it is
kept. -/
def lookInWords (c : Cursor) : Option Declaration × Next :=
  if c.atKeyword keyword then
    match countedDeclarationAt? c with
    | some d => (some d.inWords, .resume d.inWords.span.stop)
    | none => (none, .resume (c.offset + keyword.length))
  else (none, .onward)

theorem lookInWords_eq {c : Cursor} (hsize : Text.size c.text < 2 ^ 32) : lookInWords c = look c := by
  have hrest : Text.size c.rest < 2 ^ 32 := by
    rw [text, Text.size_append] at hsize
    omega
  rw [lookInWords, look, ← declarationAt?_eq_counted hrest]
  split
  · next hword =>
      cases hd : declarationAt? c with
      | none => rfl
      | some d =>
          have hfound : (look c).1 = some d := by rw [look_keyword hword hd]
          dsimp only
          rw [Declaration.inWords_eq findsSpans_look hsize hfound]
  · rfl

end ScriptImport

namespace StyleImport

/-- What is found at a code character, and where to look on: where a rule ends, whatever is kept of its
place. -/
def lookInWords (c : Cursor) : Option Declaration × Next :=
  if atRule c then
    match ruleAt? c with
    | some d => (some d.inWords, .resume d.span.stop)
    | none => (none, .resume (c.offset + keyword.length))
  else (none, .onward)

theorem lookInWords_eq {c : Cursor} (hsize : Text.size c.text < 2 ^ 32) : lookInWords c = look c := by
  rw [lookInWords, look]
  split
  · next hrule =>
      cases hd : ruleAt? c with
      | none => rfl
      | some d =>
          have hfound : (look c).1 = some d := by rw [look, if_pos hrule, hd]
          dsimp only
          rw [Declaration.inWords_eq findsSpans_look hsize hfound]
  · rfl

end StyleImport

/-- **Words are enough** for the declarations of a script and the rules of a style sheet of fewer than
`2 ^ 32` bytes. -/
theorem declarations_inWords {t : Text} (hsize : Text.size t < 2 ^ 32) :
    visitCode ScriptImport.lookInWords t = scriptDeclarations t ∧
      visitCode StyleImport.lookInWords t = styleDeclarations t := by
  have hsame {look look' : Cursor → Option Declaration × Next}
      (h : ∀ {c : Cursor}, Text.size c.text < 2 ^ 32 → look' c = look c) :
      visitCode look' t = visitCode look t := by
    have hmap : visit look' (ofText t) = (visit look (ofText t)).map id := by
      refine visit_eq_map fun e he => ?_
      rw [h (by rwa [he.text_eq]), Option.map_id]
      rfl
    rwa [List.map_id] at hmap
  exact ⟨hsame ScriptImport.lookInWords_eq, hsame StyleImport.lookInWords_eq⟩

end ScriptSurvey
