import ScriptSurvey.Proofs.Import.Declarations
import ScriptSurvey.Proofs.Import.Mirror

/-!
# Comments mean nothing to the reader of declarations

The declarations of a script are those of the script without its comments. Two runs of the reader are
compared, one over each text, along cursors that mirror each other:

* the search for the end of a clause passes the same runs, or their spaces, and stops at the same
  path;
* the clause is read from a copy without comments in the first place, and taking them out twice
  changes nothing;
* a declaration ends where its path does, and there, or behind a keyword that begins none, the visits
  resume.

Only the places of the declarations differ.
-/

namespace ScriptSurvey

namespace ScriptImport

open Cursor

variable {b a : Bool} {c c' : Cursor}

/-! ## The search for the end of a clause -/

theorem reaches_word {w : Name} {after : Text} (h : c.rest = w.text ++ after) :
    c.Reaches (c.forward w.text.length) (w.text.map .code) :=
  reaches_forward h fun _ hx => Text.isPlain_of_isIdentifierPart (w.isPart hx)

/-- The search stops only at a `from`. -/
theorem isFrom_of_verdict_stop {isKeyword isFrom : Bool} {r : Run}
    (h : verdict b a isKeyword isFrom r = .stop) : isFrom = true := by
  unfold verdict at h
  split at h <;> cases b <;> simp at h
  -- a character without a meaning of its own, outside of braces
  cases isKeyword <;> simp_all

theorem exists_reaches_of_stop {isKeyword : Bool} {r : Run}
    (h : verdict b a isKeyword (atFrom c) r = .stop) :
    ∃ after, c.rest = fromWord.text ++ after := by
  have hfrom := isFrom_of_verdict_stop h
  rw [atFrom, Bool.and_eq_true] at hfrom
  obtain ⟨-, after, hrest, -⟩ := atKeyword_iff.mp hfrom.1
  exact ⟨after, hrest⟩

/-- What the search finds lies ahead. -/
theorem exists_reaches_clauseUpToFrom {cl : List Run} {q : Cursor}
    (h : clauseUpToFrom b a c = some (cl, q)) : ∃ rs, c.Reaches q rs := by
  induction hn : c.rest.length using Nat.strongRecOn generalizing b a c cl with
  | ind n ih =>
      subst hn
      cases hrest : c.rest with
      | nil =>
          rw [clauseUpToFrom_of_nil hrest] at h
          exact absurd h (by simp)
      | cons x t =>
          rw [clauseUpToFrom_of_cons hrest] at h
          have hpast := reaches_past hrest
          split at h
          · obtain ⟨p, hp, he⟩ := Option.map_eq_some_iff.mp h
            obtain ⟨-, rfl⟩ := Prod.mk.inj he
            obtain ⟨rs, hrs⟩ := ih _ (hpast.length_rest_lt (List.cons_ne_nil _ _)) hp rfl
            exact ⟨_, hpast.trans hrs⟩
          · next hstop =>
              obtain ⟨-, rfl⟩ := Prod.mk.inj (Option.some.inj h)
              obtain ⟨after, hfrom⟩ := exists_reaches_of_stop hstop
              exact ⟨_, (reaches_word hfrom).trans (reaches_skipTrivia _)⟩
          · exact absurd h (by simp)

theorem atFrom_eq (h : c.MirroredBy c') : atFrom c' = atFrom c := by
  rw [atFrom, atFrom, h.atKeyword_eq]
  cases hword : c.atKeyword fromWord.text with
  | false => rfl
  | true =>
      obtain ⟨-, after, hrest, -⟩ := atKeyword_iff.mp hword
      rw [(h.forward hrest).skipTrivia.atQuote_eq]

/-- No word begins at a comment. -/
theorem endsWord_of_comment {x : Char} {t : Text}
    (h : (Step.first x t).run.mode.isComment = true) : Text.EndsWord (x :: t) := by
  have hs := Step.isFirst x t
  generalize Step.first x t = s at hs h
  cases hs with
  | line t => exact Text.endsWord_cons (by decide) _
  | block t => exact Text.endsWord_cons (by decide) _
  | literal kind t => exact absurd h Bool.false_ne_true
  | code _ _ => exact absurd h Bool.false_ne_true

/-- The verdict on the space of a comment is that on the comment. -/
theorem verdict_blankComment {isKeyword isFrom : Bool} {r : Run}
    (h : r.mode.isComment = true → isKeyword = false ∧ isFrom = false) :
    verdict b a isKeyword isFrom r.blankComment = verdict b a isKeyword isFrom r := by
  cases r with
  | code x => rfl
  | literal kind x => rfl
  | comment kind x =>
      obtain ⟨rfl, rfl⟩ := h rfl
      cases b with
      | true => rfl
      | false => cases a <;> rfl

theorem verdict_mirrored (h : c.MirroredBy c') {x : Char} {t : Text} (hrest : c.rest = x :: t) :
    verdict b a (c'.atKeyword keyword) (atFrom c') (Step.first x t).run.blankComment =
      verdict b a (c.atKeyword keyword) (atFrom c) (Step.first x t).run := by
  have hkeyword : c'.atKeyword keyword = c.atKeyword keyword := h.atKeyword_eq importWord
  rw [hkeyword, atFrom_eq h]
  refine verdict_blankComment fun hcomment => ?_
  have hends : Text.EndsWord c.rest := by
    rw [hrest]
    exact endsWord_of_comment hcomment
  exact ⟨atKeyword_of_endsWord (v := importWord) hends,
    atFrom_of_not_keyword (atKeyword_of_endsWord hends)⟩

/-- **The search passes what is left of a clause** as it passes the clause, and stops at what is left
of the text behind it. -/
theorem clauseUpToFrom_mirrored (h : c.MirroredBy c') :
    Option.Rel (fun p p' => p'.1 = p.1.map Run.blankComment ∧ p.2.MirroredBy p'.2)
      (clauseUpToFrom b a c) (clauseUpToFrom b a c') := by
  induction hn : c.rest.length using Nat.strongRecOn generalizing b a c c' with
  | ind n ih =>
      subst hn
      cases hrest : c.rest with
      | nil =>
          rw [clauseUpToFrom_of_nil hrest,
            clauseUpToFrom_of_nil (by rw [h.rest, hrest, stripComments_nil])]
          exact .none
      | cons x t =>
          obtain ⟨y, u, hrest', hfirst, hpast⟩ := h.past hrest
          have hrun : (Step.first y u).run = (Step.first x t).run.blankComment := by
            rw [hfirst]
            rfl
          rw [clauseUpToFrom_of_cons hrest, clauseUpToFrom_of_cons hrest', hrun,
            verdict_mirrored h hrest]
          -- the verdict on the run is the same, so both searches go on, stop or fail here
          cases hverdict : verdict b a (c.atKeyword keyword) (atFrom c) (Step.first x t).run with
          | pass b' =>
              have hlt := (reaches_past hrest).length_rest_lt (List.cons_ne_nil _ _)
              simp only [Option.map_eq_bind]
              exact rel_bind (ih _ hlt hpast rfl) fun p p' _ _ hp =>
                .some ⟨congrArg (_ :: ·) hp.1, hp.2⟩
          | stop =>
              obtain ⟨after, hfrom⟩ := exists_reaches_of_stop hverdict
              exact .some ⟨rfl, (h.forward hfrom).skipTrivia⟩
          | fail => exact .none

/-! ## One declaration -/

/-- Whether there is at least one run from the first cursor to the second. -/
def LiesAhead (c d : Cursor) : Prop :=
  ∃ rs, rs ≠ [] ∧ c.Reaches d rs

theorem LiesAhead.trans {d e : Cursor} {rs : List Run} (h : LiesAhead c d) (h' : d.Reaches e rs) :
    LiesAhead c e := by
  obtain ⟨ss, hne, hss⟩ := h
  exact ⟨ss ++ rs, List.append_ne_nil_of_left_ne_nil hne rs, hss.trans h'⟩

theorem LiesAhead.length_rest_lt {d : Cursor} (h : LiesAhead c d) :
    d.rest.length < c.rest.length := by
  obtain ⟨rs, hne, hrs⟩ := h
  exact hrs.length_rest_lt hne

/-- Whether a declaration that begins at one cursor ends at another one ahead. -/
structure EndsAt (c : Cursor) (d : Declaration) (e : Cursor) : Prop where
  ahead : LiesAhead c e
  stop : d.span.stop = e.offset

/-- Declarations at two cursors that say the same and end at cursors of which one mirrors the
other. -/
def Alike (c c' : Cursor) (d d' : Declaration) : Prop :=
  d'.unplaced = d.unplaced ∧ ∃ e e', EndsAt c d e ∧ EndsAt c' d' e' ∧ e.MirroredBy e'

/-- The declaration that begins at the first cursor, with its path at the second. -/
def declarationUpTo (c q : Cursor) (bindings? : Option (List Binding)) (hasClause : Bool) :
    Option Declaration :=
  (readQuoted? q.rest).bind fun p =>
    bindings?.map fun bindings => ⟨p.1, bindings, c.spanTo p.2, hasClause⟩

theorem endsAt_of_span {d : Declaration} {e : Cursor} (h : LiesAhead c e)
    (hd : d.span = c.spanTo e.rest) : EndsAt c d e := by
  obtain ⟨rs, hne, hrs⟩ := h
  exact ⟨⟨rs, hne, hrs⟩, by rw [hd, hrs.stop_spanTo]⟩

theorem declarationUpTo_mirrored {q q' : Cursor} (h : q.MirroredBy q')
    (hq : LiesAhead c q) (hq' : LiesAhead c' q') (bindings? : Option (List Binding)) (hasClause : Bool) :
    Option.Rel (Alike c c') (declarationUpTo c q bindings? hasClause)
      (declarationUpTo c' q' bindings? hasClause) := by
  rw [declarationUpTo, declarationUpTo, h.rest, readQuoted?_stripComments]
  cases hread : readQuoted? q.rest with
  | none => exact .none
  | some p =>
      cases bindings? with
      | none => exact .none
      | some bindings =>
          obtain ⟨x, t, hrest, hfirst⟩ := exists_first_of_readQuoted? hread
          obtain ⟨y, u, hrest', hfirst', hpast⟩ := h.past hrest
          have htail : (q'.past (Step.first y u)).rest = stripComments p.2 := by
            rw [← hfirst, past, hfirst']
            rfl
          refine .some ⟨rfl, _, _, endsAt_of_span (hq.trans (reaches_past hrest)) ?_,
            endsAt_of_span (hq'.trans (reaches_past hrest')) ?_, hpast⟩
          · rw [past, hfirst]
          · rw [htail]

/-- Behind the keyword stands the path, or a clause with a path behind it. -/
theorem declarationAt?_eq {first : Cursor} (h : (c.forward keyword.length).skipTrivia = first) :
    declarationAt? c =
      if first.rest = [] then none
      else if atQuote first = true then declarationUpTo c first (some []) false
      else if first.rest.head? = some '(' ∨ first.rest.head? = some '.' then none
      else (clauseUpToFrom false true first).bind fun p =>
        declarationUpTo c p.2 (readClause (Run.join (p.1.map Run.blankComment))) true := by
  rw [declarationAt?]
  simp only [h]
  cases hrest : first.rest with
  | nil => rfl
  | cons d t =>
      simp only [List.cons_ne_nil, if_false, List.head?_cons, Option.some.injEq, declarationUpTo,
        hrest, Option.map_eq_bind]
      rfl

/-- The place behind a keyword lies ahead. -/
theorem liesAhead_keyword (h : c.atKeyword keyword = true) :
    LiesAhead c (c.forward keyword.length) := by
  obtain ⟨-, after, hrest, -⟩ := atKeyword_iff.mp h
  exact ⟨_, by decide, reaches_word (w := importWord) hrest⟩

/-- **A declaration is read from what is left of it** as it is read from the text. -/
theorem declarationAt?_mirrored (h : c.MirroredBy c') (hword : c.atKeyword keyword = true) :
    Option.Rel (Alike c c') (declarationAt? c) (declarationAt? c') := by
  have hword' : c'.atKeyword keyword = true := (h.atKeyword_eq importWord).trans hword
  obtain ⟨-, after, hrest, -⟩ := atKeyword_iff.mp hword
  have hfirst := (h.forward (w := importWord) hrest).skipTrivia
  have hahead := (liesAhead_keyword hword).trans (reaches_skipTrivia _)
  have hahead' := (liesAhead_keyword hword').trans (reaches_skipTrivia _)
  rw [declarationAt?_eq (c := c) rfl, declarationAt?_eq (c := c') rfl]
  change MirroredBy (c.forward keyword.length).skipTrivia
    (c'.forward keyword.length).skipTrivia at hfirst
  generalize (c.forward keyword.length).skipTrivia = first at hfirst hahead ⊢
  generalize (c'.forward keyword.length).skipTrivia = first' at hfirst hahead' ⊢
  simp only [hfirst.atQuote_eq, hfirst.rest, stripComments_eq_nil_iff,
    head?_stripComments_iff (show '(' ≠ ' ' by decide) (by decide),
    head?_stripComments_iff (show '.' ≠ ' ' by decide) (by decide)]
  split
  · exact .none
  split
  · -- a path without a clause
    exact declarationUpTo_mirrored hfirst hahead hahead' _ _
  split
  · exact .none
  · refine rel_bind (clauseUpToFrom_mirrored hfirst) fun p p' hp hp' ⟨hclause, hquote⟩ => ?_
    have htwice : p'.1.map Run.blankComment = p.1.map Run.blankComment := by
      rw [hclause, List.map_map]
      exact List.map_congr_left fun r _ => r.blankComment_blankComment
    rw [htwice]
    obtain ⟨rs, hrs⟩ := exists_reaches_clauseUpToFrom hp
    obtain ⟨rs', hrs'⟩ := exists_reaches_clauseUpToFrom hp'
    exact declarationUpTo_mirrored hquote (hahead.trans hrs) (hahead'.trans hrs') _ _

/-! ## All declarations -/

/-- A keyword is code. -/
theorem toCode_of_keyword (h : c.atKeyword keyword = true) : c.toCode = c := by
  obtain ⟨-, after, hrest, -⟩ := atKeyword_iff.mp h
  have hcons : c.rest = 'i' :: ("mport".toList ++ after) := hrest
  rw [toCode_of_cons hcons, Text.first_of_isPlain (by decide)]
  rfl

/-- From a keyword the visits go on at a cursor that lies ahead. -/
theorem visit_of_keyword {e : Cursor} {found : Option Declaration}
    (h : c.atKeyword keyword = true) (he : LiesAhead c e)
    (hlook : look c = (found, .resume e.offset)) :
    visit look c = found.toList ++ visit look ⟨e.passed, e.rest, .code⟩ := by
  obtain ⟨rs, hne, hrs⟩ := he
  have hstay := toCode_of_keyword h
  exact visit_of_resume (hstay.symm ▸ hrs) hne (hstay.symm ▸ hlook)

/-- With no declaration behind a keyword, the visits go on directly behind it. -/
theorem look_of_none (h : c.atKeyword keyword = true) (hd : declarationAt? c = none) :
    look c = (none, .resume (c.forward keyword.length).offset) := by
  obtain ⟨-, after, hrest, -⟩ := atKeyword_iff.mp h
  have hoffset := (reaches_word (w := importWord) hrest).offset_eq
  rw [Run.join_map_code] at hoffset
  rw [look, h, hd]
  exact congrArg (fun n => (none, Next.resume n)) hoffset.symm

/-- **The visits find the same declarations** in what is left of the text. -/
theorem visit_mirrored (h : c.MirroredBy c') :
    (visit look c').map Declaration.unplaced = (visit look c).map Declaration.unplaced := by
  induction hn : c.rest.length using Nat.strongRecOn generalizing c c' with
  | ind n ih =>
      subst hn
      have hsame : c'.atKeyword keyword = c.atKeyword keyword := h.atKeyword_eq importWord
      cases hrest : c.rest with
      | nil =>
          have hrest' : c'.rest = [] := by rw [h.rest, hrest, stripComments_nil]
          rw [visit_of_nil ((congrArg rest (toCode_of_nil hrest)).trans hrest),
            visit_of_nil ((congrArg rest (toCode_of_nil hrest')).trans hrest')]
      | cons x t =>
          cases hword : c.atKeyword keyword with
          | false =>
              -- past a run that begins no declaration, be it a comment or not
              obtain ⟨y, u, hrest', -, hpast⟩ := h.past hrest
              have hlt := (reaches_past hrest).length_rest_lt (List.cons_ne_nil _ _)
              rw [visit_past hrest fun _ => look_of_not_keyword hword,
                visit_past hrest' fun _ => look_of_not_keyword (hsame.trans hword)]
              exact ih _ hlt hpast rfl
          | true =>
              have hword' := hsame.trans hword
              have hrel := declarationAt?_mirrored h hword
              generalize hd : declarationAt? c = found at hrel
              generalize hd' : declarationAt? c' = found' at hrel
              cases hrel with
              | none =>
                  -- both go on behind the keyword
                  obtain ⟨-, after, himport, -⟩ := atKeyword_iff.mp hword
                  have hahead := liesAhead_keyword hword
                  rw [visit_of_keyword hword hahead (look_of_none hword hd),
                    visit_of_keyword hword' (liesAhead_keyword hword') (look_of_none hword' hd')]
                  exact ih _ hahead.length_rest_lt (h.forward (w := importWord) himport).code rfl
              | @some d d' halike =>
                  -- both go on where their declarations end
                  obtain ⟨hunplaced, e, e', ⟨hahead, hstop⟩, ⟨hahead', hstop'⟩, hends⟩ := halike
                  have hlook : look c = (some d, .resume e.offset) := by
                    rw [look_keyword hword hd, hstop]
                  have hlook' : look c' = (some d', .resume e'.offset) := by
                    rw [look_keyword hword' hd', hstop']
                  rw [visit_of_keyword hword hahead hlook, visit_of_keyword hword' hahead' hlook',
                    List.map_append, List.map_append, ih _ hahead.length_rest_lt hends.code rfl]
                  exact congrArg (· :: _) hunplaced

end ScriptImport

/-- **The declarations of a script** are those of the script without its comments, apart from their
places. -/
theorem scriptDeclarations_stripComments (t : Text) :
    (scriptDeclarations (stripComments t)).map Declaration.unplaced =
      (scriptDeclarations t).map Declaration.unplaced :=
  ScriptImport.visit_mirrored (.ofText t)

/-! ## Their records -/

/-- What declarations add to a record does not depend on their places, nor does the number of places
that they add. -/
theorem ImportRecord.addAll_unplaced (ds : List Declaration) (r : ImportRecord) :
    (r.addAll (ds.map Declaration.unplaced)).unplaced = (r.addAll ds).unplaced ∧
      (r.addAll (ds.map Declaration.unplaced)).spans.length = (r.addAll ds).spans.length := by
  have hbindings : (ds.map Declaration.unplaced).flatMap (·.bindings) =
      ds.flatMap (·.bindings) := by
    rw [List.flatMap_map]
    rfl
  have heffect : (ds.map Declaration.unplaced).any (!·.hasClause) = ds.any (!·.hasClause) :=
    List.any_map
  constructor
  · rw [addAll, addAll, hbindings, heffect]
    rfl
  · simp [addAll]

/-- The records of declarations that say the same differ in the places only. -/
theorem FileImports.recordOf_congr {ds ds' : List Declaration}
    (h : ds'.map Declaration.unplaced = ds.map Declaration.unplaced) (importer : Text)
    (grammar : Grammar) (isExternal : Text → Bool) (module : Text) :
    (recordOf importer grammar isExternal ds' module).unplaced =
        (recordOf importer grammar isExternal ds module).unplaced ∧
      (recordOf importer grammar isExternal ds' module).spans.length =
        (recordOf importer grammar isExternal ds module).spans.length := by
  have hfilter (es : List Declaration) : (es.filter (·.module == module)).map Declaration.unplaced =
      (es.map Declaration.unplaced).filter (·.module == module) := by
    rw [List.filter_map]
    rfl
  have hadd (es : List Declaration) := ImportRecord.addAll_unplaced
    (es.filter (·.module == module)) (start importer grammar (isExternal module) module)
  have hsame := congrArg (List.filter (·.module == module)) h
  rw [← hfilter, ← hfilter] at hsame
  rw [recordOf, recordOf, ← (hadd ds').1, ← (hadd ds').2, ← (hadd ds).1, ← (hadd ds).2, hsame]
  exact ⟨rfl, rfl⟩

/-- **Comments mean nothing to the reader of declarations.** Without them, a script has records of the
same modules in the same order, which say the same of their modules and hold as many places. -/
theorem readScriptImports_stripComments (importer t : Text) :
    (readScriptImports importer (stripComments t)).importer =
        (readScriptImports importer t).importer ∧
      (readScriptImports importer (stripComments t)).records.map ImportRecord.unplaced =
        (readScriptImports importer t).records.map ImportRecord.unplaced ∧
      (readScriptImports importer (stripComments t)).records.map (·.spans.length) =
        (readScriptImports importer t).records.map (·.spans.length) := by
  have hsame := scriptDeclarations_stripComments t
  have hmodules : (scriptDeclarations (stripComments t)).map (·.module) =
      (scriptDeclarations t).map (·.module) := by
    have := congrArg (List.map Declaration.module) hsame
    rwa [List.map_map, List.map_map] at this
  have hrecord := FileImports.recordOf_congr hsame importer .script fun m => !Path.isRelative m
  rw [readScriptImports, readScriptImports,
    FileImports.records_foldl_add importer .script fun m => !Path.isRelative m,
    FileImports.records_foldl_add importer .script fun m => !Path.isRelative m, hmodules]
  refine ⟨rfl, ?_, ?_⟩
  · rw [List.map_map, List.map_map]
    exact List.map_congr_left fun m _ => (hrecord m).1
  · rw [List.map_map, List.map_map]
    exact List.map_congr_left fun m _ => (hrecord m).2

example : (readScriptImports [] "import/*'*/x//from 'a'\n/**/from'./m'".toList).records.map
    (·.module) = ["./m".toList] := by decide +kernel

end ScriptSurvey
