import ScriptSurvey.Proofs.Import.ClauseEnd
import ScriptSurvey.Proofs.Import.Entries
import ScriptSurvey.Proofs.Import.Merge

/-!
# Every import declaration is read

A script of import declarations is visited from keyword to keyword. Each visit reads the declaration
behind the keyword as what it says and resumes behind its path, so nothing is read twice and nothing
is left out, and the records hold what was declared, module by module.
-/

namespace ScriptSurvey

/-! ## One declaration -/

/-- A declaration without its place. -/
def Declaration.unplaced (d : Declaration) : Declaration :=
  { d with span := ⟨0, 0⟩ }

namespace ScriptImport

open Cursor

/-- What a declaration says, without its place. -/
def Statement.declaration (s : Statement) : Declaration :=
  ⟨s.path.text, s.bindings, ⟨0, 0⟩, s.clause?.isSome⟩

theorem stop_spanTo (p front t : Text) :
    (spanTo t ⟨p, front ++ t, .code⟩).stop = Text.size p + Text.size front := by
  show Text.size p + (Text.size (front ++ t) - Text.size t) = _
  rw [Text.size_append]
  omega

/-- Behind a path a word can begin. -/
theorem allowsWord_path (q : QuotedPath) (p : Text) :
    AllowsWord ((Token.path q).text.reverse ++ p) := by
  have happly : (Token.path q).text.reverse ++ p =
      q.kind.delimiter :: (q.text.reverse ++ [q.kind.delimiter] ++ p) := by
    simp [Token.text]
  rw [happly]
  obtain ⟨c, t, hk, -, -, hc, -⟩ := (Token.path q).exists_head
  rw [Token.text, List.cons.injEq] at hk
  exact allowsWord_cons (hk.1 ▸ hc rfl) _

/-- What is found behind the keyword of a declaration. -/
theorem skipTrivia_keyword {g t : Text} {k : Token} {ks : List Token} (hg : Text.IsTrivia g)
    (h : Spells Text.IsTrivia (k :: ks) t) (p : Text) :
    skipTrivia (forward keyword.length ⟨p, importWord.text ++ (g ++ t), .code⟩) =
      ⟨g.reverse ++ (importWord.text.reverse ++ p), t, .code⟩ := by
  rw [show keyword.length = importWord.text.length from rfl, forward_append, skipTrivia_gap hg,
    skipTrivia_token h]

/-- With a path behind the keyword there is no clause. -/
theorem declarationAt?_bare {g q path : Text} (hg : Text.IsTrivia g) (hq : q.Quotes path)
    (p v : Text) :
    declarationAt? ⟨p, importWord.text ++ (g ++ (q ++ v)), .code⟩ =
      some ⟨path, [], spanTo v ⟨p, importWord.text ++ (g ++ (q ++ v)), .code⟩, false⟩ := by
  have hskip : skipTrivia (forward keyword.length
      ⟨p, importWord.text ++ (g ++ (q ++ v)), .code⟩) =
      ⟨g.reverse ++ (importWord.text.reverse ++ p), q ++ v, .code⟩ := by
    rw [show keyword.length = importWord.text.length from rfl, forward_append, skipTrivia_gap hg,
      hq.skipTrivia_eq]
  have hquote : atQuote ⟨g.reverse ++ (importWord.text.reverse ++ p), q ++ v, .code⟩ = true :=
    hq.startsQuoted v
  rw [declarationAt?]
  simp only [hskip, hquote, hq.read, if_true, Option.map_some]
  -- the string is there, so the text behind the keyword is not empty
  split
  · next hnil =>
      rw [hnil] at hquote
      exact absurd hquote Bool.false_ne_true
  · rfl

/-- Otherwise the clause ends where the search stops, and a path follows it. -/
theorem declarationAt?_of_find {c first e : Cursor} {s v q path : Text} (hq : q.Quotes path)
    {bs : List Binding} (hfirst : skipTrivia (forward keyword.length c) = first)
    (hquote : atQuote first = false) (hhead : ∃ d w, first.rest = d :: w ∧ d ≠ '(' ∧ d ≠ '.')
    (hfind : clauseUpToFrom false true first = some (runs s, e))
    (hpath : e.rest = q ++ v) (hclause : readClause (stripComments s) = some bs) :
    declarationAt? c = some ⟨path, bs, spanTo v c, true⟩ := by
  obtain ⟨d, w, hcons, hparen, hdot⟩ := hhead
  rw [declarationAt?]
  simp only [hfirst, hcons, hquote, Bool.false_eq_true, if_false, hparen, hdot, or_self, hfind,
    Option.bind_some, hpath, hq.read]
  rw [show Run.join ((runs s).map Run.blankComment) = stripComments s from rfl, hclause]
  rfl

theorem declarationAt?_clause {c : Clause} {q : QuotedPath} {g t : Text} {ks : List Token}
    (hg : Text.IsTrivia g)
    (hmeet : Token.StartsWithWord (c.tokens ++ .word fromWord :: .path q :: ks) → g ≠ [])
    (h : Spells Text.IsTrivia (c.tokens ++ .word fromWord :: .path q :: ks) t) (p : Text) :
    ∃ front v, t = front ++ ((Token.path q).text ++ v) ∧
      Spells Text.IsTrivia (.path q :: ks) ((Token.path q).text ++ v) ∧
      declarationAt? ⟨p, importWord.text ++ (g ++ t), .code⟩ =
        some ⟨q.text, c.items.bindings c.typeOnly,
          spanTo v ⟨p, importWord.text ++ (g ++ t), .code⟩, true⟩ := by
  have hnil : c.tokens ≠ [] := by
    obtain ⟨typeOnly, i⟩ := c
    rw [Clause.tokens, Ne, List.append_eq_nil_iff]
    rintro ⟨-, hi⟩
    rcases i.exists_head with ⟨w, ls, hcons⟩ | ⟨m, ls, hcons, -⟩
    · exact absurd (hcons.symm.trans hi) (List.cons_ne_nil _ _)
    · exact absurd (hcons.symm.trans hi) (List.cons_ne_nil _ _)
  -- the search passes the clause up to the path, and the clause is read without its comments
  obtain ⟨s, front, e, hfind, hs, hfront, hrest⟩ := findsPath c.passes h (a := true)
    (p := g.reverse ++ (importWord.text.reverse ++ p))
    (fun hword => allowsWord_gap hg fun hgap => absurd hgap (hmeet hword))
    (fun he => absurd he hnil)
  have hclause := readClause_of_spells c hs.stripComments
  obtain ⟨g', u, hpath, -⟩ := hrest.exists_cons
  obtain ⟨k, ls, hcons, hk⟩ := c.passes.exists_head (.path q :: ks)
  rw [hcons] at h
  have hskip := skipTrivia_keyword hg h p
  have hquote : atQuote ⟨g.reverse ++ (importWord.text.reverse ++ p), t, .code⟩ = false :=
    h.startsQuoted_eq.trans hk
  exact ⟨front, g' ++ u, hpath ▸ hfront, hpath ▸ hrest,
    declarationAt?_of_find q.quotes hskip hquote h.exists_first hfind hpath hclause⟩

/-- The declaration behind a keyword is read as what it says, and ends with its path. -/
theorem declarationAt?_of_spells {s : Statement} {ks : List Token} {t : Text}
    (h : Spells Text.IsTrivia (s.tokens ++ ks) t) (p : Text) :
    ∃ (d : Declaration) (front g u : Text), t = importWord.text ++ front ++ (g ++ u) ∧
      declarationAt? ⟨p, t, .code⟩ = some d ∧ d.unplaced = s.declaration ∧
      d.span.stop = Text.size p + Text.size (importWord.text ++ front) ∧
      AllowsWord ((importWord.text ++ front).reverse ++ p) ∧ Text.IsTrivia g ∧
      Spells Text.IsTrivia (s.ending ++ ks) u := by
  rw [Statement.tokens, List.cons_append, List.append_assoc, List.cons_append] at h
  obtain ⟨g, t, rfl, hg, hmeet, ht⟩ := h.exists_cons
  -- with a clause or without, the path is all that matters for the place
  obtain ⟨front, g', v, hsplit, hg', hv, hread⟩ : ∃ front g' v : Text,
      g ++ t = front ++ ((Token.path s.path).text ++ (g' ++ v)) ∧ Text.IsTrivia g' ∧
      Spells Text.IsTrivia (s.ending ++ ks) v ∧
      declarationAt? ⟨p, importWord.text ++ (g ++ t), .code⟩ =
        some ⟨s.path.text, s.bindings, spanTo (g' ++ v) ⟨p, importWord.text ++ (g ++ t), .code⟩,
          s.clause?.isSome⟩ := by
    obtain ⟨clause?, q, semicolon⟩ := s
    cases clause? with
    | none =>
        obtain ⟨g', v, rfl, hg', -, hv⟩ := ht.exists_cons
        exact ⟨g, g', v, rfl, hg', hv, declarationAt?_bare hg q.quotes p _⟩
    | some c =>
        rw [Statement.clauseTokens, List.append_assoc, List.singleton_append] at ht hmeet
        obtain ⟨front, w, rfl, hw, hread⟩ := declarationAt?_clause hg (fun h => hmeet ⟨rfl, h⟩) ht p
        obtain ⟨g', v, hpath, hg', -, hv⟩ := hw.exists_cons
        obtain rfl := List.append_cancel_left hpath
        exact ⟨g ++ front, g', v, (List.append_assoc _ _ _).symm, hg', hv, hread⟩
  have happend : importWord.text ++ (g ++ t) =
      importWord.text ++ (front ++ (Token.path s.path).text) ++ (g' ++ v) := by
    rw [hsplit, List.append_assoc, List.append_assoc]
  refine ⟨_, front ++ (Token.path s.path).text, g', v, happend, hread, rfl, ?_, ?_, hg', hv⟩
  · rw [happend]
    exact stop_spanTo p _ _
  · rw [← List.append_assoc, List.reverse_append, List.append_assoc]
    exact allowsWord_path s.path _

/-! ## All declarations -/

theorem look_of_not_keyword {c : Cursor} (h : c.atKeyword keyword = false) :
    look c = (none, .onward) := by
  rw [look, h]
  rfl

theorem look_keyword {c : Cursor} {d : Declaration} (h : c.atKeyword keyword = true)
    (hd : declarationAt? c = some d) : look c = (some d, .resume d.span.stop) := by
  rw [look, h, hd]
  rfl

/-- No declaration begins in trivia. -/
theorem visit_gap {g : Text} (hg : Text.IsTrivia g) (p t : Text) :
    visit look ⟨p, g ++ t, .code⟩ = visit look ⟨g.reverse ++ p, t, .code⟩ := by
  induction hg using Text.IsTrivia.run_induction generalizing p with
  | nil => rfl
  | run r g _ _ hr hleads ih =>
      rw [List.append_assoc, List.reverse_append, List.append_assoc, ← ih]
      rcases hr with hr | ⟨c, rfl, hc⟩
      · exact visit_comment hr (hleads t) p
      · refine visit_onward (Text.isPlain_of_isBlank hc) (look_of_not_keyword ?_)
        exact atKeyword_of_endsWord (v := importWord)
          (Text.endsWord_cons (Text.isIdentifierPart_of_isBlank hc) _)

/-- No declaration begins at a semicolon. -/
theorem visit_semicolon (p t : Text) :
    visit look ⟨p, ';' :: t, .code⟩ = visit look ⟨';' :: p, t, .code⟩ := by
  refine visit_onward (by decide) (look_of_not_keyword ?_)
  exact atKeyword_of_endsWord (v := importWord) (Text.endsWord_cons (by decide) t)

/-- **All declarations are found**, each as what it says. -/
theorem visit_of_spells {ss : List Statement} {p t : Text}
    (h : Spells Text.IsTrivia (ss.flatMap Statement.tokens) t) (hp : AllowsWord p) :
    (visit look ⟨p, t, .code⟩).map Declaration.unplaced = ss.map Statement.declaration := by
  induction ss generalizing p t with
  | nil =>
      cases h
      rw [visit_end]
      rfl
  | cons s ss ih =>
      rw [List.flatMap_cons] at h
      have hword : atKeyword keyword ⟨p, t, .code⟩ = true := by
        rw [Statement.tokens, List.cons_append] at h
        exact atKeyword_of_spells hp h
      obtain ⟨d, front, g, u, rfl, hread, hd, hstop, hallows, hg, hu⟩ :=
        declarationAt?_of_spells h p
      have hfound : visit look ⟨p, importWord.text ++ front ++ (g ++ u), .code⟩ =
          d :: visit look ⟨(importWord.text ++ front).reverse ++ p, g ++ u, .code⟩ :=
        visit_found (by decide) (look_keyword hword hread) hstop
      -- behind a path a keyword may follow at once: a quote does not go on with a word
      have hbehind : AllowsWord (g.reverse ++ ((importWord.text ++ front).reverse ++ p)) :=
        allowsWord_gap hg fun _ => hallows
      rw [hfound, List.map_cons, List.map_cons, hd, visit_gap hg]
      refine congrArg (s.declaration :: ·) ?_
      cases hsemicolon : s.semicolon with
      | false =>
          rw [Statement.ending, hsemicolon] at hu
          exact ih hu hbehind
      | true =>
          rw [Statement.ending, hsemicolon] at hu
          obtain ⟨g', u', rfl, hg', -, hu'⟩ := hu.exists_cons
          show (visit look ⟨_, ';' :: (g' ++ u'), .code⟩).map _ = _
          rw [visit_semicolon, visit_gap hg']
          refine ih hu' (allowsWord_gap hg' fun _ => allowsWord_cons ?_ _)
          exact Mark.semicolon.isApart_char

/-- What all declarations of a module say, in one record. -/
def recordOf (importer : Text) (ss : List Statement) (module : Text) : ImportRecord :=
  { FileImports.start importer .script (!Path.isRelative module) module with
    bindings := (ss.filter (·.path.text == module)).flatMap Statement.bindings
    sideEffect := (ss.filter (·.path.text == module)).any (·.clause?.isNone) }

end ScriptImport

open ScriptImport

/-- A record without the places of its declarations. -/
def ImportRecord.unplaced (r : ImportRecord) : ImportRecord :=
  { r with spans := [] }

/-- **The records of a script of import declarations**: one for each module, in the order in which
the modules first come up, with the bindings of all its declarations in their order, whatever trivia
stands between the tokens. -/
theorem readScriptImports_of_spells {ss : List Statement} {g t : Text} (hg : Text.IsTrivia g)
    (h : Spells Text.IsTrivia (ss.flatMap Statement.tokens) t) (importer : Text) :
    (readScriptImports importer (g ++ t)).importer = importer ∧
      (readScriptImports importer (g ++ t)).records.map ImportRecord.unplaced =
        (ss.map (·.path.text)).eraseDups.map (recordOf importer ss) := by
  have hfind : (scriptDeclarations (g ++ t)).map Declaration.unplaced =
      ss.map Statement.declaration := by
    rw [scriptDeclarations, visitCode, Cursor.ofText, visit_gap hg]
    exact visit_of_spells h (Cursor.allowsWord_gap hg fun _ => by simp [Cursor.AllowsWord])
  rw [readScriptImports, FileImports.records_foldl_add _ _ fun m => !Path.isRelative m]
  refine ⟨rfl, ?_⟩
  -- from here on only what the declarations say counts, not where they stand
  generalize scriptDeclarations (g ++ t) = ds at hfind
  have hmodules : ds.map (·.module) = ss.map (·.path.text) := by
    have := congrArg (List.map Declaration.module) hfind
    rwa [List.map_map, List.map_map] at this
  rw [hmodules, List.map_map]
  refine List.map_congr_left fun m _ => ?_
  have hsame : (ds.filter (·.module == m)).map Declaration.unplaced =
      (ss.filter (·.path.text == m)).map Statement.declaration := by
    have := congrArg (List.filter (·.module == m)) hfind
    rwa [List.filter_map, List.filter_map] at this
  have hbindings : (ds.filter (·.module == m)).flatMap (·.bindings) =
      (ss.filter (·.path.text == m)).flatMap Statement.bindings := by
    have := congrArg (List.flatMap Declaration.bindings) hsame
    rwa [List.flatMap_map, List.flatMap_map] at this
  have heffect : (ds.filter (·.module == m)).any (!·.hasClause) =
      (ss.filter (·.path.text == m)).any (·.clause?.isNone) := by
    have := congrArg (List.any · fun d : Declaration => !d.hasClause) hsame
    rw [List.any_map, List.any_map] at this
    refine this.trans (congrArg (List.any _) (funext fun s => ?_))
    exact Option.not_isSome s.clause?
  exact congrArg₂ (fun bs e => { FileImports.start importer .script (!Path.isRelative m) m with
    bindings := bs, sideEffect := e }) hbindings heffect

/-- A default export called `from` and again called `as`, in a clause that is marked, and a second
declaration of the module, behind a comment that looks like a third. -/
theorem readScriptImports_from_as :
    (readScriptImports [] ("/*import 'x'*/".toList ++
      "import type from , \x7b default as as \x7d from './m' import \"./m\" ; ".toList)).records.map
        ImportRecord.unplaced =
      [⟨"./m".toList, .script, false, [⟨"from".toList, .default, none, true⟩,
        ⟨"as".toList, .default, none, true⟩], [], true, none, none⟩] := by
  let clause : Clause :=
    ⟨true, .defaultAnd ⟨fromWord, by decide⟩ (.block [⟨false, defaultWord, some asWord⟩] false)⟩
  let ss : List Statement :=
    [⟨some clause, ⟨.single, "./m".toList, rfl, by decide⟩, false⟩,
      ⟨none, ⟨.double, "./m".toList, rfl, by decide⟩, true⟩]
  have hcomment : Text.IsTrivia "/*import 'x'*/".toList := by
    have hbody : ¬['*', '/'] <:+: "import 'x'".toList := by decide +kernel
    have := Text.IsTrivia.block hbody .nil
    rwa [show '/' :: '*' :: ("import 'x'".toList ++ ['*', '/']) ++ [] = "/*import 'x'*/".toList by
      decide +kernel] at this
  have hspace : Text.IsTrivia [' '] := .blank (by decide) .nil
  have hspells := Spells.spaced hspace (ss.flatMap Statement.tokens)
  have htext : (ss.flatMap Statement.tokens).flatMap (fun k => k.text ++ [' ']) =
      "import type from , \x7b default as as \x7d from './m' import \"./m\" ; ".toList := by
    decide +kernel
  rw [htext] at hspells
  refine (readScriptImports_of_spells hcomment hspells []).2.trans ?_
  decide +kernel

end ScriptSurvey
