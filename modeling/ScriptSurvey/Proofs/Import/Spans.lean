import Mathlib.Data.List.Pairwise
import ScriptSurvey.Proofs.Import.Comments
import ScriptSurvey.Proofs.Import.Rules

/-!
# Where declarations stand

The records of a file keep the places of its declarations. No two of them share a byte, since the visits
resume where a declaration ends, each is a piece of the text, and those of one record follow one another.

At the place of a script's declaration stand its keyword, as a word in the code of the whole text, and
last the string that holds the module: the visits of a script keep step with its scan, and so does all
that goes on between the keyword and the string. The places of a style sheet's rules only have the
keyword and the end of the path in common, as a path without quotes is read whatever it would be as code.
-/

namespace ScriptSurvey

/-! ## Places in records -/

/-- Whether a span ends where another one begins, or before that. -/
def Span.IsBefore (a b : Span) : Prop :=
  a.stop ≤ b.start

/-- Whether two spans share no byte. -/
def Span.IsApart (a b : Span) : Prop :=
  a.IsBefore b ∨ b.IsBefore a

/-- Whether the spans of the records are places of a text: every record has one, they are pieces of the
text, in order within each record, and no two of them share a byte. -/
structure FileImports.IsPlacedIn (f : FileImports) (t : Text) : Prop where
  placed : ∀ r ∈ f.records, r.spans ≠ []
  inside : ∀ r ∈ f.records, ∀ s ∈ r.spans, s.start < s.stop ∧ ∃ u, s.slice? t = some u
  ordered : ∀ r ∈ f.records, r.spans.Pairwise Span.IsBefore
  apart : (f.records.flatMap (·.spans)).Pairwise Span.IsApart

namespace FileImports

section

variable (importer : Text) (grammar : Grammar) (isExternal : Text → Bool) (ds : List Declaration)

theorem spans_recordOf (module : Text) :
    (recordOf importer grammar isExternal ds module).spans =
      (ds.filter (·.module == module)).map (·.span) := rfl

theorem mem_spans_recordOf {module : Text} {s : Span} :
    s ∈ (recordOf importer grammar isExternal ds module).spans ↔
      ∃ d ∈ ds, d.module = module ∧ d.span = s := by
  simp only [spans_recordOf, List.mem_map, List.mem_filter, beq_iff_eq, and_assoc]

/-- A span of a record is the place of a declaration of its module. -/
theorem exists_of_mem_spans {r : ImportRecord} {s : Span}
    (hr : r ∈ (ds.foldl (fun f d => f.add grammar (isExternal d.module) d) (empty importer)).records)
    (hs : s ∈ r.spans) : ∃ d ∈ ds, d.module = r.module ∧ d.span = s := by
  rw [records_foldl_add] at hr
  obtain ⟨module, -, rfl⟩ := List.mem_map.mp hr
  exact (mem_spans_recordOf importer grammar isExternal ds).mp hs

/-- **The places of declarations that follow one another in a text.** -/
theorem isPlacedIn_foldl_add {t : Text}
    (hinside : ∀ d ∈ ds, d.span.start < d.span.stop ∧ ∃ u, d.span.slice? t = some u)
    (hordered : ds.Pairwise fun d e => d.span.IsBefore e.span) :
    (ds.foldl (fun f d => f.add grammar (isExternal d.module) d) (empty importer)).IsPlacedIn t := by
  have hmem {module : Text} {s : Span} :
      s ∈ (recordOf importer grammar isExternal ds module).spans ↔
        ∃ d ∈ ds, d.module = module ∧ d.span = s :=
    mem_spans_recordOf importer grammar isExternal ds
  have hspans (module : Text) :
      (recordOf importer grammar isExternal ds module).spans.Pairwise Span.IsBefore := by
    rw [spans_recordOf, List.pairwise_map]
    exact hordered.filter _
  rw [records_foldl_add]
  constructor
  · intro r hr
    obtain ⟨module, hmodule, rfl⟩ := List.mem_map.mp hr
    obtain ⟨d, hd, rfl⟩ := List.mem_map.mp (List.mem_eraseDups.mp hmodule)
    exact List.ne_nil_of_mem (hmem.mpr ⟨d, hd, rfl, rfl⟩)
  · intro r hr s hs
    obtain ⟨module, -, rfl⟩ := List.mem_map.mp hr
    obtain ⟨d, hd, -, rfl⟩ := hmem.mp hs
    exact hinside d hd
  · intro r hr
    obtain ⟨module, -, rfl⟩ := List.mem_map.mp hr
    exact hspans module
  · rw [List.pairwise_flatMap]
    constructor
    · intro r hr
      obtain ⟨module, -, rfl⟩ := List.mem_map.mp hr
      exact (hspans module).imp Or.inl
    · rw [List.pairwise_map]
      refine (nodup_eraseDups _).imp fun hne a ha b hb => ?_
      -- declarations of different modules are two, and one of them comes first
      obtain ⟨d, hd, rfl, rfl⟩ := hmem.mp ha
      obtain ⟨e, he, rfl, rfl⟩ := hmem.mp hb
      have hsymm : Std.Symm fun d e : Declaration => d.span.IsApart e.span :=
        ⟨fun _ _ => Or.symm⟩
      have hapart : ds.Pairwise fun d e => d.span.IsApart e.span := hordered.imp Or.inl
      exact hapart.forall hd he fun h => hne (congrArg _ h)

end

/-- The places that visits find. -/
theorem isPlacedIn_visitCode {look : Cursor → Option Declaration × Cursor.Next}
    (h : Cursor.FindsSpans Declaration.span look) (importer : Text) (grammar : Grammar)
    (isExternal : Text → Bool) (t : Text) :
    ((visitCode look t).foldl (fun f d => f.add grammar (isExternal d.module) d)
      (empty importer)).IsPlacedIn t :=
  isPlacedIn_foldl_add importer grammar isExternal _ (fun _ hd => (h.slice? hd).2)
    (h.pairwise (Cursor.ofText t))

end FileImports

/-! ## Strings -/

/-- The string of a kind with the given contents. -/
def LiteralKind.enclose (kind : LiteralKind) (contents : Text) : Text :=
  kind.delimiter :: (contents ++ [kind.delimiter])

namespace Cursor

/-- What is read as a string is one run. -/
theorem exists_reaches_of_readQuoted? {q : Cursor} {contents rest : Text}
    (h : readQuoted? q.rest = some (contents, rest)) :
    ∃ kind e, kind.endsAtLineFeed = true ∧ e.rest = rest ∧
      q.Reaches e [.literal kind (kind.enclose contents)] := by
  obtain ⟨kind, u, hline, hrest, hbody, -⟩ := exists_of_readQuoted? h
  have hfirst : Step.first kind.delimiter u =
      ⟨.literal kind (kind.enclose contents), rest, false⟩ := by
    rw [Text.first_delimiter, hbody]
    rfl
  have hpast := reaches_past hrest
  rw [hfirst] at hpast
  exact ⟨kind, _, hline, rfl, hpast⟩

end Cursor

/-! ## Declarations of a script -/

namespace ScriptImport

open Cursor

variable {c : Cursor} {d : Declaration}

/-- Whether a declaration goes from one cursor to another: from its keyword, over some runs, to the
string that holds the module, and over that. -/
structure Extends (c : Cursor) (d : Declaration) (rs : List Run) (kind : LiteralKind) (q e : Cursor) :
    Prop where
  word : c.atKeyword keyword = true
  clause : c.Reaches q (keyword.map .code ++ rs)
  line : kind.endsAtLineFeed = true
  string : q.Reaches e [.literal kind (kind.enclose d.module)]
  read : readQuoted? q.rest = some (d.module, e.rest)
  span : d.span = c.spanTo e.rest

/-- **A declaration that is found** begins at the cursor, and the visits resume where it ends. -/
theorem exists_extends_of_look (h : (look c).1 = some d) :
    (∃ rs kind q e, Extends c d rs kind q e) ∧ (look c).2 = .resume d.span.stop := by
  have hword : c.atKeyword keyword = true := by
    by_contra hno
    rw [look_of_not_keyword (Bool.eq_false_iff.mpr hno)] at h
    exact absurd h (by simp)
  obtain ⟨-, after, hrest, -⟩ := atKeyword_iff.mp hword
  have hkeyword : c.Reaches (c.forward keyword.length) (keyword.map .code) :=
    reaches_word (w := importWord) hrest
  have hskip := reaches_skipTrivia (c.forward keyword.length)
  cases hd : declarationAt? c with
  | none =>
      rw [look_of_none hword hd] at h
      exact absurd h (by simp)
  | some d' =>
      rw [look_keyword hword hd] at h ⊢
      obtain rfl : d' = d := Option.some.inj h
      -- the string stands behind the keyword, or where the search for the end of the clause stops
      obtain ⟨q, rs, bindings?, hasClause, hq, hup⟩ : ∃ q rs bindings? hasClause,
          (c.forward keyword.length).Reaches q rs ∧
            declarationUpTo c q bindings? hasClause = some d' := by
        rw [declarationAt?_eq rfl] at hd
        split at hd
        · exact absurd hd (by simp)
        split at hd
        · exact ⟨_, _, _, _, hskip, hd⟩
        split at hd
        · exact absurd hd (by simp)
        · obtain ⟨p, hp, hd⟩ := Option.bind_eq_some_iff.mp hd
          obtain ⟨rs, hrs⟩ := exists_reaches_clauseUpToFrom hp
          exact ⟨_, _, _, _, hskip.trans hrs, hd⟩
      rw [declarationUpTo] at hup
      obtain ⟨p, hread, hup⟩ := Option.bind_eq_some_iff.mp hup
      obtain ⟨bindings, -, rfl⟩ := Option.map_eq_some_iff.mp hup
      obtain ⟨module, rest⟩ := p
      obtain ⟨kind, e, hline, rfl, hstring⟩ := exists_reaches_of_readQuoted? hread
      exact ⟨⟨rs, kind, q, e, hword, hkeyword.trans hq, hline, hstring, hread, rfl⟩, rfl⟩

/-- The span of a declaration is what stands from its keyword to the end of the string. -/
theorem findsSpans_look : FindsSpans Declaration.span look := by
  intro c d h
  obtain ⟨⟨rs, kind, q, e, hd⟩, hnext⟩ := exists_extends_of_look h
  have hrest := (hd.clause.trans hd.string).rest_eq
  refine ⟨hnext, _, e.rest, ?_, hrest, hd.span⟩
  rw [Run.join_append, Run.join_append]
  exact List.append_ne_nil_of_left_ne_nil
    (List.append_ne_nil_of_left_ne_nil (by decide) _) _

/-- The visits of a script resume behind a keyword or behind a declaration, and a scan comes by at
either. -/
theorem keepsStep_look : KeepsStep look := by
  intro c n hnext
  cases hword : c.atKeyword keyword with
  | false =>
      rw [look_of_not_keyword hword] at hnext
      exact absurd hnext (by simp)
  | true =>
      cases hd : declarationAt? c with
      | none =>
          rw [look_of_none hword hd] at hnext
          obtain ⟨rs, hne, hrs⟩ := liesAhead_keyword hword
          exact ⟨_, rs, hne, hrs, Next.resume.inj hnext⟩
      | some d =>
          have hfound : (look c).1 = some d := by rw [look_keyword hword hd]
          obtain ⟨⟨rs, kind, q, e, hd⟩, hstop⟩ := exists_extends_of_look hfound
          have hahead := hd.clause.trans hd.string
          refine ⟨e, _, List.append_ne_nil_of_right_ne_nil _ (List.cons_ne_nil _ _), hahead, ?_⟩
          rw [← Next.resume.inj (hstop.symm.trans hnext), hd.span, hahead.stop_spanTo]

/-- Whether a declaration of a module stands at a span of a script: its keyword begins there, as a word
and in code, and the string that holds the module, a run of the whole text, ends there. -/
structure StandsAt (t module : Text) (s : Span) (between : Text) (kind : LiteralKind) : Prop where
  slice : s.slice? t = some (keyword ++ (between ++ kind.enclose module))
  word : (place t s.start).atKeyword keyword = true
  code : (⟨s.start, s.start + 1⟩, .code 'i') ∈ (ofText t).scan.1
  line : kind.endsAtLineFeed = true
  string : (⟨s.stop - Text.size (kind.enclose module), s.stop⟩,
    .literal kind (kind.enclose module)) ∈ (ofText t).scan.1

/-- **A declaration of a script stands at its span.** -/
theorem exists_standsAt_of_mem {t : Text} (h : d ∈ scriptDeclarations t) :
    ∃ between kind, StandsAt t d.module d.span between kind := by
  obtain ⟨c, ss, x, u, hc, hcode, hlook⟩ := exists_reaches_of_mem_visit keepsStep_look h
  -- what the reader passed over from the keyword to the path are runs of the scan of the text
  obtain ⟨⟨rs, kind, q, e, hd⟩, -⟩ := exists_extends_of_look hlook
  have htext : c.text = t := hc.text_eq
  have hahead := hd.clause.trans hd.string
  have hstart : d.span.start = c.offset := congrArg Span.start hd.span
  have hstop : d.span.stop = e.offset := (congrArg Span.stop hd.span).trans hahead.stop_spanTo
  refine ⟨Run.join rs, kind, ?_, ?_, ?_, hd.line, ?_⟩
  · have hslice := hahead.slice?_eq
    rw [htext, ← hstart, ← hstop, Run.join_append, Run.join_append, Run.join_map_code] at hslice
    rw [hslice, List.append_assoc]
    simp [Run.text]
  · have hplace := place_offset c
    rw [htext, ← hstart] at hplace
    rw [hplace]
    exact hd.word
  · obtain ⟨-, after, himport, -⟩ := atKeyword_iff.mp hd.word
    have hcons : c.rest = 'i' :: ("mport".toList ++ after) := himport
    have hi := hcode
    rw [hcons, Text.runs_cons_of_isPlain (by decide), List.cons.injEq, Run.code.injEq] at hi
    have hmem := hc.mem_scan hcode
    rw [← hi.1, ← hstart] at hmem
    exact hmem
  · have hmem := (hc.trans hd.clause).mem_scan hd.string.ahead
    have hoffset := hd.string.offset_eq
    rw [Run.join_cons, Run.join_nil, List.append_nil, ← hstop] at hoffset
    rw [← hoffset] at hmem
    rw [show d.span.stop - Text.size (kind.enclose d.module) = q.offset from
      Nat.sub_eq_of_eq_add hoffset]
    exact hmem

end ScriptImport

/-! ## Rules of a style sheet -/

namespace StyleImport

open Cursor

/-- A rule that is found begins with its keyword and ends in a quote or a parenthesis, and the visits
resume behind that. -/
theorem exists_append_of_look {c : Cursor} {d : Declaration} (h : (look c).1 = some d) :
    ∃ between x after, x ∈ ['\'', '"', ')'] ∧
      c.rest = keyword ++ (between ++ [x]) ++ after ∧ d.span = c.spanTo after ∧
      (look c).2 = .resume d.span.stop := by
  obtain ⟨gap, t, path, after, hrest, -, hread, -, rfl, hnext⟩ := exists_of_look h
  obtain ⟨written, x, rfl, hx⟩ := hread.exists_append
  refine ⟨Run.join gap ++ written, x, after, hx, ?_, rfl, hnext⟩
  rw [hrest]
  simp only [List.append_assoc, List.singleton_append]

/-- The span of a rule is what stands from its keyword to the end of its path. -/
theorem findsSpans_look : FindsSpans Declaration.span look := by
  intro c d h
  obtain ⟨between, x, after, -, hsplit, hspan, hnext⟩ := exists_append_of_look h
  exact ⟨hnext, _, after, List.append_ne_nil_of_left_ne_nil (by decide) _, hsplit, hspan⟩

/-- The keyword of a rule stands at its span, and last a quote or a parenthesis. -/
theorem exists_slice?_of_mem {t : Text} {d : Declaration} (h : d ∈ styleDeclarations t) :
    ∃ between x, x ∈ ['\'', '"', ')'] ∧ d.span.slice? t = some (keyword ++ (between ++ [x])) := by
  obtain ⟨c, hahead, hlook⟩ := exists_of_mem_visit h
  obtain ⟨between, x, after, hx, hsplit, hspan, -⟩ := exists_append_of_look hlook
  have hslice := slice?_spanTo hsplit
  rw [← hspan, hahead.text_eq, text_ofText] at hslice
  exact ⟨between, x, hx, hslice⟩

end StyleImport

/-! ## Records -/

/-- **The places that records keep are sound.** Those of a script, as those of a style sheet, are pieces
of the text, apart from each other and in order within each record. At each of a script stands a
declaration of the record's module, and at each of a style sheet the keyword of a rule and what ends a
path. -/
theorem isPlacedIn_readImports (importer t : Text) :
    ((readScriptImports importer t).IsPlacedIn t ∧
      ∀ r ∈ (readScriptImports importer t).records, ∀ s ∈ r.spans,
        ∃ between kind, ScriptImport.StandsAt t r.module s between kind) ∧
    ((readStyleImports importer t).IsPlacedIn t ∧
      ∀ r ∈ (readStyleImports importer t).records, ∀ s ∈ r.spans,
        ∃ between x, x ∈ ['\'', '"', ')'] ∧
          s.slice? t = some (StyleImport.keyword ++ (between ++ [x]))) := by
  refine ⟨⟨?_, fun r hr s hs => ?_⟩, ?_, fun r hr s hs => ?_⟩
  · exact FileImports.isPlacedIn_visitCode ScriptImport.findsSpans_look importer .script
      (fun m => !Path.isRelative m) t
  · obtain ⟨d, hd, hmodule, rfl⟩ := FileImports.exists_of_mem_spans importer .script
      (fun m => !Path.isRelative m) _ hr hs
    rw [← hmodule]
    exact ScriptImport.exists_standsAt_of_mem hd
  · exact FileImports.isPlacedIn_visitCode StyleImport.findsSpans_look importer .style
      Path.isNetwork t
  · obtain ⟨d, hd, -, rfl⟩ := FileImports.exists_of_mem_spans importer .style Path.isNetwork _ hr hs
    exact StyleImport.exists_slice?_of_mem hd

/-- A module that is imported twice, with a comment and a call between that are no declarations. -/
theorem isPlacedIn_readImports_twice :
    ∃ t, t = "import a from 'x' // import 'y'\nimport('z')\nimport \"x\"".toList ∧
      (readScriptImports [] t).records.map (fun r => (r.module, r.spans)) =
        [("x".toList, [⟨0, 17⟩, ⟨44, 54⟩])] ∧
      (readScriptImports [] t).IsPlacedIn t ∧
      ∀ r ∈ (readScriptImports [] t).records, ∀ s ∈ r.spans,
        ∃ between kind, ScriptImport.StandsAt t r.module s between kind := by
  refine ⟨_, rfl, by decide +kernel, ?_⟩
  exact (isPlacedIn_readImports [] _).1

end ScriptSurvey
