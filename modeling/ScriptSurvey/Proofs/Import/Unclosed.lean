import Mathlib.Algebra.Group.Nat.Even
import ScriptSurvey.Proofs.Import.Spans

/-!
# Which strings are taken for closed

A string is closed by a quote with an even number of backslashes in front of it: each backslash makes
the next character inert, the next backslash too. A string also ends, unclosed, at the end of its line,
and the reader of modules tells the two apart by what it finds at the end of a string: its own quote,
with no lone backslash in front.

So an odd number of backslashes in front of the last quote on a line is taken for the end of a string
when there are three of them or more, and only then. Every other string that is read is closed.
-/

namespace ScriptSurvey

/-! ## Backslashes at the end -/

/-- The number of backslashes that a text ends in. -/
def Text.trailingBackslashes (t : Text) : Nat :=
  (t.reverse.takeWhile (· == '\\')).length

namespace Text

theorem trailingBackslashes_append (s t : Text) : trailingBackslashes (s ++ t) =
    if trailingBackslashes t = t.length then trailingBackslashes s + t.length
    else trailingBackslashes t := by
  rw [trailingBackslashes, List.reverse_append, List.takeWhile_append, List.length_reverse]
  show List.length (if trailingBackslashes t = t.length then _ else _) = _
  split
  · rw [List.length_append, List.length_reverse, Nat.add_comm]
    rfl
  · rfl

/-- What has an even number of them at its end makes no difference to what stands behind it. -/
theorem even_trailingBackslashes_append {s : Text} (hs : Even (trailingBackslashes s)) (t : Text) :
    Even (trailingBackslashes (s ++ t)) ↔ Even (trailingBackslashes t) := by
  rw [trailingBackslashes_append]
  split
  · next h => rw [h, Nat.even_add, iff_true_left hs]
  · rfl

theorem even_trailingBackslashes_escape (c : Char) (t : Text) :
    Even (trailingBackslashes ('\\' :: c :: t)) ↔ Even (trailingBackslashes t) := by
  refine even_trailingBackslashes_append (s := ['\\', c]) ?_ t
  by_cases hc : c = '\\'
  · rw [hc]
    decide
  · simp [trailingBackslashes, hc]

theorem even_trailingBackslashes_cons {c : Char} (hc : c ≠ '\\') (t : Text) :
    Even (trailingBackslashes (c :: t)) ↔ Even (trailingBackslashes t) := by
  refine even_trailingBackslashes_append (s := [c]) ?_ t
  simp [trailingBackslashes, hc]

end Text

/-- A lone backslash at the end is the only one there. -/
theorem endsInLoneBackslash_iff {t : Text} :
    endsInLoneBackslash t = true ↔ t.trailingBackslashes = 1 := by
  rw [endsInLoneBackslash, Text.trailingBackslashes]
  generalize t.reverse = r
  rcases r with _ | ⟨c, _ | ⟨d, r⟩⟩
  · simp
  · by_cases hc : c = '\\'
    · simp [hc]
    · simp [hc]
  · by_cases hc : c = '\\'
    · by_cases hd : d = '\\'
      · simp [hc, hd]
      · simp [hc, hd]
    · simp [hc]

/-! ## What closes a string -/

namespace Body

theorem push_eq_mk_iff {b : Body} {c d : Char} {t rest : Text} {closed : Bool} :
    b.push c = ⟨d :: t, rest, closed⟩ ↔ c = d ∧ b = ⟨t, rest, closed⟩ := by
  obtain ⟨u, v, w⟩ := b
  simp only [push, mk.injEq, List.cons.injEq, and_assoc]

/-- What a string has in it in front of its last quote does not end it. -/
theorem ofLiteral_of_append {kind : LiteralKind} {contents v rest : Text}
    (h : ofLiteral kind (contents ++ v) = ⟨contents ++ [kind.delimiter], rest, true⟩) :
    ofLiteral kind contents = ⟨contents, [], false⟩ := by
  induction contents using literal_induction kind with
  | nil => rfl
  | lone => rfl
  | escape c t ih =>
      rw [List.cons_append, List.cons_append, ofLiteral_escape, List.cons_append, List.cons_append,
        push_eq_mk_iff, push_eq_mk_iff] at h
      rw [ofLiteral_escape, ih h.2.2]
      rfl
  | delimiter t =>
      rw [List.cons_append, ofLiteral_delimiter, mk.injEq, List.cons_append, List.cons.injEq] at h
      exact absurd h.1.2.symm (by simp)
  | lineFeed t hk =>
      rw [List.cons_append, ofLiteral_lineFeed hk] at h
      exact absurd h (by simp)
  | inside c t hc hd hn ih =>
      rw [List.cons_append, ofLiteral_inside hc hd hn, List.cons_append, push_eq_mk_iff] at h
      rw [ofLiteral_inside hc hd hn, ih h.2]
      rfl

/-- **The quote behind an even number of backslashes** closes the string. One behind an odd number is a
character of it, and what comes next decides. -/
theorem ofLiteral_append_delimiter {kind : LiteralKind} {contents : Text}
    (h : ofLiteral kind contents = ⟨contents, [], false⟩) (rest : Text) :
    ofLiteral kind (contents ++ kind.delimiter :: rest) =
      if Even contents.trailingBackslashes then ⟨contents ++ [kind.delimiter], rest, true⟩
      else ⟨contents ++ kind.delimiter :: (ofLiteral kind rest).text, (ofLiteral kind rest).rest,
        (ofLiteral kind rest).closed⟩ := by
  -- along the scan of the string: an escape keeps the parity of the backslashes at the end
  induction contents using literal_induction kind with
  | nil => exact ofLiteral_delimiter kind rest
  | lone => exact ofLiteral_escape kind kind.delimiter rest
  | escape c t ih =>
      rw [ofLiteral_escape, push_eq_mk_iff, push_eq_mk_iff] at h
      rw [List.cons_append, List.cons_append, ofLiteral_escape, ih h.2.2]
      simp only [Text.even_trailingBackslashes_escape]
      split <;> rfl
  | delimiter t =>
      rw [ofLiteral_delimiter] at h
      exact absurd h (by simp)
  | lineFeed t hk =>
      rw [ofLiteral_lineFeed hk] at h
      exact absurd h (by simp)
  | inside c t hc hd hn ih =>
      rw [ofLiteral_inside hc hd hn, push_eq_mk_iff] at h
      rw [List.cons_append, ofLiteral_inside hc hd hn, ih h.2]
      simp only [Text.even_trailingBackslashes_cons hc]
      split <;> rfl

/-- Only the end of a line ends a string with nothing more in it. -/
theorem head?_rest_ofLiteral {kind : LiteralKind} {t : Text} (htext : (ofLiteral kind t).text = [])
    (hclosed : (ofLiteral kind t).closed = true) : (ofLiteral kind t).rest.head? = some '\n' := by
  cases t using literal_induction kind with
  | nil => exact absurd hclosed Bool.false_ne_true
  | lone => exact absurd hclosed Bool.false_ne_true
  | escape c t =>
      rw [ofLiteral_escape] at htext
      exact absurd htext (List.cons_ne_nil _ _)
  | delimiter t =>
      rw [ofLiteral_delimiter] at htext
      exact absurd htext (List.cons_ne_nil _ _)
  | lineFeed t hk => rw [ofLiteral_lineFeed hk, List.head?_cons]
  | inside c t hc hd hn =>
      rw [ofLiteral_inside hc hd hn] at htext
      exact absurd htext (List.cons_ne_nil _ _)

end Body

namespace LiteralKind

variable {kind : LiteralKind} {contents rest : Text}

theorem delimiter_injective {k l : LiteralKind} (h : k.delimiter = l.delimiter) : k = l := by
  revert h
  cases k <;> cases l <;> decide

/-- **A string is closed** exactly if its last quote has an even number of backslashes in front. -/
theorem isClosedQuote_enclose_iff (hline : kind.endsAtLineFeed = true)
    (h : Body.ofLiteral kind contents = ⟨contents, [], false⟩) :
    (kind.enclose contents).IsClosedQuote ↔ Even contents.trailingBackslashes := by
  have hbody := Body.ofLiteral_append_delimiter h []
  constructor
  · rintro ⟨kind', body, -, hsame, hclosed⟩
    obtain ⟨hkind, rfl⟩ := List.cons.inj hsame
    obtain rfl := delimiter_injective hkind
    by_contra hodd
    rw [if_neg hodd, hclosed] at hbody
    exact absurd (congrArg Body.closed hbody) (by simp [Body.ofLiteral])
  · intro heven
    rw [if_pos heven] at hbody
    exact ⟨kind, _, hline, rfl, hbody⟩

/-- Whether contents are taken for those of a string, with the given rest behind its last quote: nothing
in them ends the string, and the quote closes it, or has three or more backslashes in front of it and
the end of the line behind. -/
structure Takes (kind : LiteralKind) (contents rest : Text) : Prop where
  line : kind.endsAtLineFeed = true
  inert : Body.ofLiteral kind contents = ⟨contents, [], false⟩
  last : Even contents.trailingBackslashes ∨
    3 ≤ contents.trailingBackslashes ∧ rest.head? = some '\n'

end LiteralKind

/-- **The strings that are read.** -/
theorem readQuoted?_eq_some_iff {t contents rest : Text} :
    readQuoted? t = some (contents, rest) ↔
      ∃ kind : LiteralKind, kind.Takes contents rest ∧ t = kind.enclose contents ++ rest := by
  constructor
  · intro h
    obtain ⟨kind, u, hline, rfl, hbody, hlone⟩ := exists_of_readQuoted? h
    have happend := Body.ofLiteral_append kind u
    rw [hbody, List.append_assoc, List.singleton_append] at happend
    subst happend
    have hinert := Body.ofLiteral_of_append hbody
    refine ⟨kind, ⟨hline, hinert, ?_⟩, ?_⟩
    · by_cases heven : Even contents.trailingBackslashes
      · exact .inl heven
      · -- the string goes on behind the quote, and ends there
        rw [Body.ofLiteral_append_delimiter hinert, if_neg heven, Body.mk.injEq,
          List.append_right_inj, List.cons.injEq] at hbody
        have hfeed := Body.head?_rest_ofLiteral hbody.1.2 hbody.2.2
        rw [hbody.2.1] at hfeed
        have hone : contents.trailingBackslashes ≠ 1 := fun h =>
          Bool.false_ne_true (hlone.symm.trans (endsInLoneBackslash_iff.mpr h))
        rw [Nat.even_iff] at heven
        exact .inr ⟨by omega, hfeed⟩
    · rw [LiteralKind.enclose, List.cons_append, List.append_assoc]
      rfl
  · rintro ⟨kind, ⟨hline, hinert, hlast⟩, rfl⟩
    rw [LiteralKind.enclose, List.cons_append, List.append_assoc, List.singleton_append]
    have hbody := Body.ofLiteral_append_delimiter hinert rest
    refine readQuoted?_of_ofLiteral hline ?_ ?_
    · by_cases heven : Even contents.trailingBackslashes
      · rw [hbody, if_pos heven]
      · obtain ⟨-, hfeed⟩ := hlast.resolve_left heven
        obtain ⟨v, rfl⟩ := List.head?_eq_some_iff.mp hfeed
        rw [hbody, if_neg heven, Body.ofLiteral_lineFeed hline]
    · rw [Bool.eq_false_iff, Ne, endsInLoneBackslash_iff]
      rcases hlast with ⟨k, hk⟩ | ⟨hthree, -⟩ <;> omega

/-! ## The strings of declarations -/

/-- Whether a span of a text covers a string that is taken for one, with more of the span in front of
the string and behind it. -/
structure CoversString (t : Text) (s : Span) (front before : Text) (kind : LiteralKind)
    (contents behind rest : Text) : Prop where
  text : t = front ++ (before ++ (kind.enclose contents ++ behind) ++ rest)
  span : s = ⟨Text.size front,
    Text.size front + Text.size (before ++ (kind.enclose contents ++ behind))⟩
  takes : kind.Takes contents (behind ++ rest)
  closed_iff : (kind.enclose contents).IsClosedQuote ↔ Even contents.trailingBackslashes

/-- What is read as a string is covered by any span that goes on to its end. -/
theorem exists_coversString {t : Text} {c : Cursor} {before u contents behind rest : Text}
    (hc : (Cursor.ofText t).IsAhead c) (hrest : c.rest = before ++ u)
    (hread : readQuoted? u = some (contents, behind ++ rest)) :
    ∃ front kind, CoversString t (c.spanTo rest) front before kind contents behind rest := by
  obtain ⟨kind, htakes, rfl⟩ := readQuoted?_eq_some_iff.mp hread
  have hsplit : c.rest = before ++ (kind.enclose contents ++ behind) ++ rest := by
    rw [hrest, List.append_assoc, List.append_assoc]
  refine ⟨c.passed.reverse, kind, ?_, ?_, htakes,
    LiteralKind.isClosedQuote_enclose_iff htakes.line htakes.inert⟩
  · rw [← hsplit]
    exact hc.text_eq.symm
  · rw [Text.size_reverse]
    exact Cursor.spanTo_of_append hsplit

/-- The span of a declaration covers the string of its module. -/
theorem ScriptImport.exists_coversString_of_mem {t : Text} {d : Declaration}
    (h : d ∈ scriptDeclarations t) : ∃ front between kind rest,
      CoversString t d.span front (keyword ++ between) kind d.module [] rest := by
  obtain ⟨c, hahead, hlook⟩ := Cursor.exists_of_mem_visit h
  obtain ⟨⟨rs, kind, q, e, hd⟩, -⟩ := exists_extends_of_look hlook
  have hrest := hd.clause.rest_eq
  rw [Run.join_append, Run.join_map_code] at hrest
  have hread : readQuoted? q.rest = some (d.module, [] ++ e.rest) := hd.read
  obtain ⟨front, kind', hcovers⟩ := exists_coversString hahead hrest hread
  rw [← hd.span] at hcovers
  exact ⟨front, Run.join rs, kind', e.rest, hcovers⟩

/-- Every string that is taken for one is the module of a declaration somewhere. -/
theorem ScriptImport.exists_mem_of_takes {kind : LiteralKind} {contents rest : Text}
    (h : kind.Takes contents rest) :
    ∃ d ∈ scriptDeclarations (keyword ++ ' ' :: (kind.enclose contents ++ rest)),
      d.module = contents := by
  have hread := readQuoted?_eq_some_iff.mpr ⟨kind, h, rfl⟩
  obtain ⟨hquote, -⟩ := startsQuoted_of_readQuoted? hread
  generalize hc : Cursor.ofText (keyword ++ ' ' :: (kind.enclose contents ++ rest)) = c
  have hrest : c.rest = keyword ++ ' ' :: (kind.enclose contents ++ rest) := by
    rw [← hc]
    rfl
  have hword : c.atKeyword keyword = true := by
    refine Cursor.atKeyword_iff.mpr ⟨?_, _, hrest, Text.endsWord_cons (by decide) _⟩
    rw [← hc]
    exact fun _ hd => absurd hd (by simp [Cursor.ofText])
  -- the string stands behind the keyword and the blank
  have hfirst : (c.forward keyword.length).skipTrivia.rest = kind.enclose contents ++ rest := by
    have hblank := Cursor.skipTrivia_gap Text.isBlanks_space.isTrivia (keyword.reverse ++ c.passed)
      (t := kind.enclose contents ++ rest)
    rw [List.singleton_append] at hblank
    rw [Cursor.forward_of_append hrest, hblank, Cursor.skipTrivia_of_cons (x := kind.delimiter) rfl,
      Text.first_delimiter]
    rfl
  have hd : declarationAt? c = some ⟨contents, [], c.spanTo rest, false⟩ := by
    rw [declarationAt?_eq rfl, hfirst, if_neg (by simp [LiteralKind.enclose]), atQuote, hfirst,
      if_pos hquote, declarationUpTo, hfirst, hread]
    rfl
  refine ⟨_, Cursor.mem_visit_of_look (x := ⟨contents, [], c.spanTo rest, false⟩) ?_ ?_, rfl⟩
  · rw [hc, toCode_of_keyword hword, hrest]
    exact List.append_ne_nil_of_left_ne_nil (by decide) _
  · rw [hc, toCode_of_keyword hword, look_keyword hword hd]

namespace StyleImport

/-- What may stand around the string of a rule: nothing, or the parentheses of `url(` and blanks. -/
inductive Surrounds : Text → Text → Prop where
  | direct : Surrounds [] []
  | url {u g g' : Text} (url : IsUrlWord u) (gap : Text.IsBlanks g) (gap' : Text.IsBlanks g') :
      Surrounds (u ++ g) (g' ++ [')'])

/-- Whether a span of a text is that of a rule whose path has no quotes around it. -/
structure CoversBare (t : Text) (s : Span) (gap : List Run) (u path : Text) : Prop where
  slice : s.slice? t = some (keyword ++ (Run.join gap ++ (u ++ (path ++ [')']))))
  url : IsUrlWord u
  bare : startsQuoted (Text.trimStart path) = false

/-- The span of a rule covers a string with its path, or the path without quotes. -/
theorem exists_coversString_of_mem {t : Text} {d : Declaration} (h : d ∈ styleDeclarations t) :
    ∃ gap : List Run, (∀ r ∈ gap, r.isTrivia = true) ∧
      ((∃ front a kind contents b rest, Surrounds a b ∧
          CoversString t d.span front (keyword ++ (Run.join gap ++ a)) kind contents b rest ∧
          d.module = modulePath (Text.trim contents)) ∨
        ∃ u path, CoversBare t d.span gap u path) := by
  obtain ⟨c, hahead, hlook⟩ := Cursor.exists_of_mem_visit h
  obtain ⟨gap, v, path, after, hrest, hgap, hread, -, rfl, -⟩ := exists_of_look hlook
  refine ⟨gap, hgap, ?_⟩
  rw [← List.append_assoc] at hrest
  cases hread with
  | @quoted _ contents _ string =>
      have hread : readQuoted? v = some (contents, [] ++ after) := string
      obtain ⟨front, kind, hcovers⟩ := exists_coversString hahead hrest hread
      rw [← List.append_nil (Run.join gap)] at hcovers
      exact .inl ⟨front, [], kind, _, [], after, .direct, hcovers, rfl⟩
  | @urlQuoted u g w contents g' after url blanks string blanks' =>
      have hsplit : c.rest = keyword ++ (Run.join gap ++ (u ++ g)) ++ w := by
        rw [hrest]
        simp only [List.append_assoc]
      rw [show g' ++ ')' :: after = g' ++ [')'] ++ after by simp] at string
      obtain ⟨front, kind, hcovers⟩ := exists_coversString hahead hsplit string
      exact .inl ⟨front, _, kind, _, _, after, .url url blanks blanks', hcovers, rfl⟩
  | @urlBare u p after url bare line =>
      have hsplit : c.rest = keyword ++ (Run.join gap ++ (u ++ (p ++ [')']))) ++ after := by
        rw [hrest]
        simp only [List.append_assoc, List.singleton_append]
      refine .inr ⟨u, p, ⟨?_, url, bare⟩⟩
      have hslice := Cursor.slice?_spanTo hsplit
      rwa [hahead.text_eq] at hslice

end StyleImport

/-! ## Records -/

/-- **Which strings are taken for those of a module.** At every place that a record of a script keeps
stands a string with the module in it, and at every place of a style sheet's record one with its path, or
the path without quotes. Such a string is closed exactly if its last quote has an even number of
backslashes in front, and where it has an odd number, there are three or more and the line ends behind
the quote. Every string of either kind is the module of some script. -/
theorem coversString_readImports (importer t : Text) :
    (∀ r ∈ (readScriptImports importer t).records, ∀ s ∈ r.spans, ∃ front between kind rest,
      CoversString t s front (ScriptImport.keyword ++ between) kind r.module [] rest) ∧
    (∀ r ∈ (readStyleImports importer t).records, ∀ s ∈ r.spans,
      ∃ gap : List Run, (∀ g ∈ gap, g.isTrivia = true) ∧
        ((∃ front a kind contents b rest, StyleImport.Surrounds a b ∧
            CoversString t s front (StyleImport.keyword ++ (Run.join gap ++ a)) kind contents b
              rest ∧
            r.module = StyleImport.modulePath (Text.trim contents)) ∨
          ∃ u path, StyleImport.CoversBare t s gap u path)) ∧
    ∀ (kind : LiteralKind) (contents rest : Text), kind.Takes contents rest →
      contents ∈ (readScriptImports importer
        (ScriptImport.keyword ++ ' ' :: (kind.enclose contents ++ rest))).records.map (·.module) := by
  -- every place of a record is that of one of its declarations
  refine ⟨fun r hr s hs => ?_, fun r hr s hs => ?_, fun kind contents rest h => ?_⟩
  · obtain ⟨d, hd, hmodule, rfl⟩ := FileImports.exists_of_mem_spans importer .script
      (fun m => !Path.isRelative m) _ hr hs
    rw [← hmodule]
    exact ScriptImport.exists_coversString_of_mem hd
  · obtain ⟨d, hd, hmodule, rfl⟩ := FileImports.exists_of_mem_spans importer .style
      Path.isNetwork _ hr hs
    rw [← hmodule]
    exact StyleImport.exists_coversString_of_mem hd
  · obtain ⟨d, hd, hmodule⟩ := ScriptImport.exists_mem_of_takes h
    rw [readScriptImports,
      FileImports.records_foldl_add importer .script fun m => !Path.isRelative m, List.map_map]
    have hmem : contents ∈ (scriptDeclarations
        (ScriptImport.keyword ++ ' ' :: (kind.enclose contents ++ rest))).map (·.module) :=
      List.mem_map.mpr ⟨d, hd, hmodule⟩
    exact List.mem_map.mpr ⟨contents, List.mem_eraseDups.mpr hmem, rfl⟩

/-- A string with a quote in it, and one that ends in a backslash, are taken and are closed. -/
theorem coversString_readImports_escaped :
    LiteralKind.single.Takes "it\\'s".toList [] ∧
      LiteralKind.double.Takes "a\\\\".toList ";".toList ∧
      "it\\'s".toList ∈ (readScriptImports [] "import 'it\\'s'".toList).records.map (·.module) ∧
      "a\\\\".toList ∈ (readScriptImports [] "import \"a\\\\\";".toList).records.map (·.module) := by
  have hquote : LiteralKind.single.Takes "it\\'s".toList [] :=
    ⟨rfl, by decide +kernel, .inl (by decide +kernel)⟩
  have hbackslash : LiteralKind.double.Takes "a\\\\".toList ";".toList :=
    ⟨rfl, by decide +kernel, .inl (by decide +kernel)⟩
  exact ⟨hquote, hbackslash, (coversString_readImports [] []).2.2 .single _ _ hquote,
    (coversString_readImports [] []).2.2 .double _ _ hbackslash⟩

/-- Three backslashes in front of the last quote on a line are taken for the end of a string. -/
theorem module_of_unclosed_string :
    (readScriptImports [] "import 'a\\\\\\'\n".toList).records.map (fun r => (r.module, r.spans)) =
        [("a\\\\\\".toList, [⟨0, 13⟩])] ∧
      ¬(LiteralKind.single.enclose "a\\\\\\".toList).IsClosedQuote ∧
      ¬Even (Text.trailingBackslashes "a\\\\\\".toList) := by
  have hodd : ¬Even (Text.trailingBackslashes "a\\\\\\".toList) := by decide +kernel
  refine ⟨by decide +kernel, ?_, hodd⟩
  rw [LiteralKind.isClosedQuote_enclose_iff rfl (by decide +kernel)]
  exact hodd

end ScriptSurvey
