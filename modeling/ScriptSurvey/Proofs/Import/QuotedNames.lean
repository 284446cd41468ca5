import ScriptSurvey.Proofs.Import.Statements

/-!
# Blocks of quoted names

An export can be imported under a name in quotes, with a local name behind `as`. An entry of a block is
cut out by the scanner, so the string may hold commas, braces and what looks like a comment. But then the
entry is cut into words at its white space, and only a string that stands in front is kept whole. Behind
the marker `type` a string is taken for words like any other: one with white space in it is cut up, and
one that stands next to `type` or `as` is one word with it.

So an entry without a marker binds what it says, and one with a marker does if the string has no white
space in it and some on both sides. Any other entry with a marker binds nothing, but for a string without
white space that only `type` is too close to: then `type` is read as part of the name.
-/

namespace ScriptSurvey

namespace ScriptImport

open Cursor

/-! ## What is written -/

/-- White space between tokens, or none. -/
structure Gap where
  text : Text
  isBlanks : Text.IsBlanks text

theorem Gap.uncommented (g : Gap) {P : Char → Prop} (h : ∀ c, Text.isBlank c = true → P c) :
    g.text.Uncommented P :=
  .of_forall fun c hc => ⟨Text.isPlain_of_isBlank (g.isBlanks c hc), h c (g.isBlanks c hc)⟩

/-- An entry `'name' as local`, with `type` in front or not, and the gaps between its tokens. -/
structure QuotedEntry where
  front : Gap
  /-- The gap behind `type`, where that stands. -/
  marker? : Option Gap
  name : Text
  isClosed : name.IsClosedQuote
  behindName : Gap
  behindAs : Gap
  separates : behindAs.text ≠ []
  localName : Name
  back : Gap

namespace QuotedEntry

/-- The string and the local name. -/
def named (e : QuotedEntry) : Text :=
  e.name ++ (e.behindName.text ++ (asWord.text ++ (e.behindAs.text ++ e.localName.text)))

/-- The entry between the gaps at its ends. -/
def inner (e : QuotedEntry) : Text :=
  match e.marker? with
  | none => e.named
  | some gap => typeWord.text ++ (gap.text ++ e.named)

def text (e : QuotedEntry) : Text :=
  e.front.text ++ (e.inner ++ e.back.text)

/-- What the entry says. -/
def binding (e : QuotedEntry) : Binding :=
  ⟨e.name, .named, some e.localName.text, e.marker?.isSome⟩

/-- What the entry is read as. -/
def read (e : QuotedEntry) : Option Binding :=
  match e.marker? with
  | none => some e.binding
  | some gap =>
    if e.name.any Text.isBlank || e.behindName.text.isEmpty then none
    else if gap.text.isEmpty then
      some ⟨typeWord.text ++ e.name, .named, some e.localName.text, false⟩
    else some e.binding

/-- Whether the string is a word of its own. -/
def IsKeptWhole (e : QuotedEntry) : Prop :=
  ∀ gap, e.marker? = some gap →
    gap.text ≠ [] ∧ (∀ c ∈ e.name, Text.isBlank c = false) ∧ e.behindName.text ≠ []

/-- The entry is read as what it says exactly when its string is a word of its own. -/
theorem read_eq_iff (e : QuotedEntry) : e.read = some e.binding ↔ e.IsKeptWhole := by
  have hblank : e.name.any Text.isBlank = false ↔ ∀ c ∈ e.name, Text.isBlank c = false := by
    rw [List.any_eq_false]
    simp only [Bool.not_eq_true]
  unfold read IsKeptWhole
  cases hmarker : e.marker? with
  | none => exact iff_of_true rfl fun gap hgap => nomatch hgap
  | some gap =>
      simp only [Option.some.injEq, forall_eq']
      split
      · next h =>
          refine iff_of_false (Option.some_ne_none _).symm ?_
          rintro ⟨-, hname, hbehind⟩
          rw [hblank.mpr hname, Bool.false_or, List.isEmpty_iff] at h
          exact hbehind h
      · next h =>
          rw [Bool.not_eq_true, Bool.or_eq_false_iff, List.isEmpty_eq_false_iff] at h
          split
          · next hnil =>
              refine iff_of_false (fun heq => ?_) fun hkept => hkept.1 (List.isEmpty_iff.mp hnil)
              -- the marker is missing
              have htype := congrArg Binding.typeOnly (Option.some.inj heq)
              rw [binding, hmarker] at htype
              exact Bool.false_ne_true htype
          · next hgap =>
              exact iff_of_true rfl ⟨fun hnil => hgap (List.isEmpty_iff.mpr hnil), hblank.mp h.1, h.2⟩

/-- Entries are all read as what they say exactly when none of their strings is cut up. -/
theorem filterMap_read_eq_iff (es : List QuotedEntry) :
    es.filterMap read = es.map binding ↔ ∀ e ∈ es, e.IsKeptWhole := by
  induction es with
  | nil => exact iff_of_true rfl fun e he => nomatch he
  | cons e es ih =>
      rw [List.forall_mem_cons, ← read_eq_iff, ← ih, List.map_cons]
      cases hread : e.read with
      | none =>
          -- fewer bindings than entries
          rw [List.filterMap_cons_none hread]
          refine iff_of_false (fun h => ?_) fun h => nomatch h.1
          have hlength := List.length_filterMap_le read es
          rw [h, List.length_cons, List.length_map] at hlength
          exact absurd hlength (Nat.not_succ_le_self _)
      | some b => rw [List.filterMap_cons_some hread, List.cons.injEq, Option.some.injEq]

/-! ## What is read -/

/-- The local name is a word of its own. -/
theorem words_localName (e : QuotedEntry) : Text.words e.localName.text = [e.localName.text] :=
  Text.words_of_forall (fun _ hc => Text.isBlank_of_isIdentifierPart (e.localName.isPart hc))
    (Text.ne_nil_of_isIdentifier e.localName.isIdentifier)

/-- Behind the string stand two words. -/
theorem words_behindName (e : QuotedEntry) :
    Text.words (e.behindName.text ++ (asWord.text ++ (e.behindAs.text ++ e.localName.text))) =
      [asWord.text, e.localName.text] := by
  rw [Text.words_of_isBlanks e.behindName.isBlanks,
    Text.words_append (by decide) (by decide) e.behindAs.isBlanks fun h => absurd h e.separates,
    e.words_localName]

end QuotedEntry

/-- Words bind nothing when they are neither one nor three with `as` in the middle. -/
theorem entryBinding_eq_none (typeOnly : Bool) {ws : List Text} (hone : ws.length ≠ 1)
    (has : ∀ name keyword localName, ws = [name, keyword, localName] → keyword ≠ asWord.text) :
    entryBinding typeOnly ws = none := by
  unfold entryBinding
  split
  · exact absurd rfl hone
  · next name keyword localName => exact if_neg (has name keyword localName rfl)
  · rfl

/-- A quote is no blank, and no part of the words with a meaning. -/
theorem not_mem_of_quote {kind : LiteralKind} (hline : kind.endsAtLineFeed = true) :
    Text.isBlank kind.delimiter = false ∧ kind.delimiter ∉ asWord.text ∧
      kind.delimiter ∉ typeWord.text ∧ kind.delimiter ∉ defaultWord.text := by
  cases kind with
  | single => decide
  | double => decide
  | template => exact absurd hline Bool.false_ne_true

/-- A name with a quote in it is bound as it stands. -/
theorem entryBinding_of_quote (typeOnly : Bool) {kind : LiteralKind}
    (hline : kind.endsAtLineFeed = true) {name : Text} (h : kind.delimiter ∈ name) (y : Text) :
    entryBinding typeOnly [name, asWord.text, y] = some ⟨name, .named, some y, typeOnly⟩ := by
  obtain ⟨-, -, -, hdefault⟩ := not_mem_of_quote hline
  have hne : name ≠ defaultWord.text := fun he => hdefault (he ▸ h)
  rw [entryBinding, if_pos (show asWord.text = ['a', 's'] from rfl)]
  exact if_neg hne

/-- A word behind `type` is a word of its own, if there is white space in front of it. -/
theorem words_marker (gap : Gap) {w : Text} (hw : ∀ c ∈ w, Text.isBlank c = false) (hne : w ≠ []) :
    Text.words (typeWord.text ++ (gap.text ++ w)) =
      if gap.text.isEmpty then [typeWord.text ++ w] else [typeWord.text, w] := by
  split
  · next hgap =>
      rw [List.isEmpty_iff.mp hgap, List.nil_append]
      refine Text.words_of_forall (fun c hc => ?_) (List.append_ne_nil_of_right_ne_nil _ hne)
      rcases List.mem_append.mp hc with hc | hc
      · exact Text.isBlank_of_isIdentifierPart (typeWord.isPart hc)
      · exact hw c hc
  · next hgap =>
      rw [Text.words_append_gap _ gap.isBlanks fun hnil => hgap (List.isEmpty_iff.mpr hnil),
        Text.words_of_forall (by decide) (by decide), Text.words_of_forall hw hne]
      rfl

/-- Too many words bind nothing. -/
theorem wordsBinding_of_length (typeOnly : Bool) {ws : List Text} (h : 4 ≤ ws.length)
    (hmarker : ws.length = 4 → ws.head? ≠ some typeWord.text) : wordsBinding typeOnly ws = none := by
  have hnot : ¬(ws.head? = some typeWord.text ∧ (ws.length = 2 ∨ ws.length = 4)) := by
    rintro ⟨hhead, hlength | hlength⟩
    · omega
    · exact hmarker hlength hhead
  rw [wordsBinding, if_neg hnot]
  refine entryBinding_eq_none typeOnly (by omega) ?_
  rintro name keyword localName rfl
  exact absurd h (by simp)

/-- Words bind nothing when the last but one is another than `as`. -/
theorem wordsBinding_of_ne_as (typeOnly : Bool) {k : Text} (has : k ≠ asWord.text)
    (htype : k ≠ typeWord.text) (ws : List Text) (y : Text) :
    wordsBinding typeOnly (ws ++ [k, y]) = none := by
  have hmiddle : ∀ front name keyword localName, front ++ [k, y] = [name, keyword, localName] →
      keyword ≠ asWord.text := by
    intro front name keyword localName h
    have hlist : front ++ [k, y] = [name] ++ [keyword, localName] := h
    obtain ⟨-, hback⟩ := List.append_inj' hlist rfl
    exact (List.cons.inj hback).1 ▸ has
  rw [wordsBinding]
  split
  · next h =>
      -- the marker is not the word in question, so that word is still the last but one
      cases ws with
      | nil => exact absurd (Option.some.inj h.1) htype
      | cons a ws => exact entryBinding_eq_none true (by simp) (hmiddle ws)
  · exact entryBinding_eq_none typeOnly (by simp) (hmiddle ws)

namespace QuotedEntry

/-- The words of an entry with a marker, when white space stands in front of `as`. -/
theorem words_marked (e : QuotedEntry) (gap : Gap) (hbehind : e.behindName.text ≠ []) :
    Text.words (typeWord.text ++ (gap.text ++ e.named)) =
      Text.words (typeWord.text ++ (gap.text ++ e.name)) ++ [asWord.text, e.localName.text] := by
  rw [← e.words_behindName, Text.words_of_isBlanks e.behindName.isBlanks,
    ← Text.words_append_gap _ e.behindName.isBlanks hbehind]
  simp only [named, List.append_assoc]

/-- Next to `as` a string hides that word, so a marked entry binds nothing. -/
theorem wordsBinding_of_tied (e : QuotedEntry) (gap : Gap) (hbehind : e.behindName.text = []) :
    wordsBinding false (Text.words (typeWord.text ++ (gap.text ++ e.named))) = none := by
  obtain ⟨kind, contents, hline, hname, -⟩ := e.isClosed.exists_contents
  obtain ⟨hblank, has, htype, -⟩ := not_mem_of_quote hline
  have hclosing : ∀ c ∈ kind.delimiter :: asWord.text, Text.isBlank c = false := by
    intro c hc
    rcases List.mem_cons.mp hc with rfl | hc
    · exact hblank
    · exact Text.isBlank_of_isIdentifierPart (asWord.isPart hc)
  -- the closing quote and `as` are in one word
  obtain ⟨ws, u, hwords⟩ := Text.exists_words_append
    (typeWord.text ++ (gap.text ++ kind.delimiter :: contents)) hclosing (List.cons_ne_nil _ _)
  have hsplit : typeWord.text ++ (gap.text ++ e.named) =
      typeWord.text ++ (gap.text ++ kind.delimiter :: contents) ++ (kind.delimiter :: asWord.text) ++
        (e.behindAs.text ++ e.localName.text) := by
    rw [named, hbehind, hname]
    simp only [List.append_assoc, List.cons_append, List.nil_append]
  have hmem : kind.delimiter ∈ u ++ kind.delimiter :: asWord.text := by simp
  rw [hsplit, Text.words_append_gap _ e.behindAs.isBlanks e.separates, hwords, e.words_localName,
    List.append_assoc]
  exact wordsBinding_of_ne_as false (fun h => has (h ▸ hmem)) (fun h => htype (h ▸ hmem)) ws _

/-- A string with white space in it is more than one word, so a marked entry has too many. -/
theorem wordsBinding_of_blank (e : QuotedEntry) (gap : Gap) (hbehind : e.behindName.text ≠ [])
    (hblanks : e.name.any Text.isBlank = true) :
    wordsBinding false (Text.words (typeWord.text ++ (gap.text ++ e.named))) = none := by
  obtain ⟨kind, contents, hline, hname, -⟩ := e.isClosed.exists_contents
  obtain ⟨hblank, -, htype, -⟩ := not_mem_of_quote hline
  have hany : contents.any Text.isBlank = true := by
    rw [hname, List.any_cons, List.any_append, List.any_cons, List.any_nil, hblank] at hblanks
    simpa using hblanks
  -- the string is cut at its first blank
  obtain ⟨u, c, v, rfl, hc, hu⟩ := Text.exists_first_blank hany
  have hfirst : ∀ d ∈ kind.delimiter :: u, Text.isBlank d = false :=
    List.forall_mem_cons.mpr ⟨hblank, hu⟩
  have hsplit : typeWord.text ++ (gap.text ++ e.name) =
      typeWord.text ++ (gap.text ++ kind.delimiter :: u) ++ c :: (v ++ [kind.delimiter]) := by
    rw [hname]
    simp only [List.append_assoc, List.cons_append]
  obtain ⟨ws, w, hlast⟩ := Text.exists_words_append v
    (List.forall_mem_singleton.mpr hblank) (List.cons_ne_nil kind.delimiter [])
  have hback : 1 ≤ (Text.words (v ++ [kind.delimiter])).length := by
    rw [hlast, List.length_append]
    exact Nat.le_add_left 1 _
  rw [e.words_marked gap hbehind, hsplit, Text.words_append_cons _ _ hc,
    words_marker gap hfirst (List.cons_ne_nil _ _)]
  split
  · refine wordsBinding_of_length false ?_ fun _ hhead => ?_
    · simp only [List.length_append, List.length_cons, List.length_nil]
      omega
    · -- the marker has become part of the string
      refine htype ?_
      rw [← Option.some.inj hhead]
      exact List.mem_append_right _ List.mem_cons_self
  · refine wordsBinding_of_length false ?_ fun hlength => ?_
    · simp only [List.length_append, List.length_cons, List.length_nil]
      omega
    · simp only [List.length_append, List.length_cons, List.length_nil] at hlength
      omega

/-- A string without white space is one word, if `type` stands apart from it. -/
theorem wordsBinding_of_word (e : QuotedEntry) (gap : Gap) (hbehind : e.behindName.text ≠ [])
    (hname : ∀ c ∈ e.name, Text.isBlank c = false) :
    wordsBinding false (Text.words (typeWord.text ++ (gap.text ++ e.named))) =
      if gap.text.isEmpty then
        some ⟨typeWord.text ++ e.name, .named, some e.localName.text, false⟩
      else some ⟨e.name, .named, some e.localName.text, true⟩ := by
  obtain ⟨kind, contents, hline, hquoted, -⟩ := e.isClosed.exists_contents
  have hmem : kind.delimiter ∈ e.name := hquoted ▸ List.mem_cons_self
  rw [e.words_marked gap hbehind, words_marker gap hname (List.ne_nil_of_mem hmem)]
  split
  · exact (if_neg (by simp)).trans
      (entryBinding_of_quote false hline (List.mem_append_right _ hmem) e.localName.text)
  · exact (if_pos (by simp)).trans (entryBinding_of_quote true hline hmem e.localName.text)

/-- **An entry is read** as a binding by its words. -/
theorem readEntry_text (e : QuotedEntry) : readEntry false e.text = e.read := by
  rw [text, readEntry_between e.front.isBlanks e.back.isBlanks]
  have hlast (t : Text) : ∀ c, (t ++ e.named).getLast? = some c → Text.isBlank c = false := by
    have h := isBlank_last_name e.localName
      (t ++ (e.name ++ (e.behindName.text ++ (asWord.text ++ e.behindAs.text))))
    simpa only [named, List.append_assoc] using h
  unfold inner read
  -- a quoted name is kept whole only where no marker is in front; behind one its words are read
  cases hmarker : e.marker? with
  | none =>
      have hread := readEntry_quoted_of_words false e.isClosed (hlast []) e.words_behindName
      rwa [binding, hmarker]
  | some gap =>
      have hmarked : entryWords (typeWord.text ++ (gap.text ++ e.named)) =
          some (Text.words (typeWord.text ++ (gap.text ++ e.named))) := by
        have hend := hlast (typeWord.text ++ gap.text)
        rw [List.append_assoc] at hend
        exact entryWords_eq_words rfl (fun c hc => Option.some.inj hc ▸ by decide) hend
      simp only [readEntry_eq, hmarked, Option.bind_some, binding, hmarker, Option.isSome_some]
      split
      · next h =>
          by_cases hbehind : e.behindName.text = []
          · exact e.wordsBinding_of_tied gap hbehind
          · rw [List.isEmpty_eq_false_iff.mpr hbehind, Bool.or_false] at h
            exact e.wordsBinding_of_blank gap hbehind h
      · next h =>
          rw [Bool.not_eq_true, Bool.or_eq_false_iff, List.isEmpty_eq_false_iff, List.any_eq_false] at h
          exact e.wordsBinding_of_word gap h.2 fun c hc => Bool.not_eq_true _ ▸ h.1 c hc

/-- Outside of its string an entry has only words and white space. -/
theorem uncommented_text {P : Char → Prop} (hpart : ∀ c, Text.isIdentifierPart c = true → P c)
    (hblank : ∀ c, Text.isBlank c = true → P c) (e : QuotedEntry) : e.text.Uncommented P := by
  have hgap (g : Gap) : g.text.Uncommented P := g.uncommented hblank
  have hword (w : Name) : w.text.Uncommented P := w.uncommented hpart
  have hnamed : e.named.Uncommented P :=
    (e.isClosed.uncommented P).append ((hgap e.behindName).append
      ((hword asWord).append ((hgap e.behindAs).append (hword e.localName))))
  have hinner : e.inner.Uncommented P := by
    unfold inner
    cases e.marker? with
    | none => exact hnamed
    | some gap => exact (hword typeWord).append ((hgap gap).append hnamed)
  exact (hgap e.front).append (hinner.append (hgap e.back))

end QuotedEntry

/-! ## A declaration -/

/-- A declaration with a block of quoted names, and the gaps between its tokens. -/
structure QuotedImport where
  behindKeyword : Gap
  opening : Gap
  entries : List QuotedEntry
  behindBlock : Gap
  behindFrom : Gap
  path : QuotedPath

namespace QuotedImport

/-- What stands between the braces. -/
def block (d : QuotedImport) : Text :=
  d.opening.text ++ List.intercalate [','] (d.entries.map QuotedEntry.text)

def text (d : QuotedImport) : Text :=
  importWord.text ++ (d.behindKeyword.text ++ (braced d.block ++ d.behindBlock.text ++
    (fromWord.text ++ (d.behindFrom.text ++ (Token.path d.path).text))))

theorem readBlock_block (d : QuotedImport) :
    readBlock false d.block = d.entries.filterMap QuotedEntry.read := by
  have hcomma : ∀ e ∈ d.entries.map QuotedEntry.text, e.Uncommented (· ≠ ',') := by
    intro t ht
    obtain ⟨e, -, rfl⟩ := List.mem_map.mp ht
    refine e.uncommented_text (fun c hc => Text.ne_of_isIdentifierPart hc rfl) fun c hc => ?_
    rintro rfl
    exact absurd hc (by decide)
  have hread := readBlock_intercalate false hcomma .nil d.opening.isBlanks .nil
  rw [List.append_nil, List.filterMap_map] at hread
  refine hread.trans (congrArg (List.filterMap · d.entries) (funext fun e => ?_))
  exact e.readEntry_text

theorem block_uncommented (d : QuotedImport) : d.block.Uncommented (isPassed · = true) := by
  have hcomma : Text.Uncommented (isPassed · = true) [','] := .code (by decide) (by decide) .nil
  refine (d.opening.uncommented fun _ => isPassed_of_isBlank).append (hcomma.intercalate ?_)
  intro t ht
  obtain ⟨e, -, rfl⟩ := List.mem_map.mp ht
  exact e.uncommented_text (fun _ => isPassed_of_isIdentifierPart) fun _ => isPassed_of_isBlank

/-- The declaration is found behind its keyword, with the bindings that its entries are read as. -/
theorem declarationAt?_text (d : QuotedImport) (p : Text) :
    declarationAt? ⟨p, d.text, .code⟩ = some ⟨d.path.text, d.entries.filterMap QuotedEntry.read,
      spanTo [] ⟨p, d.text, .code⟩, true⟩ := by
  have hbraced := uncommented_braced d.block_uncommented
  have hgap := d.behindBlock.isBlanks.isTrivia
  have hallows (p : Text) : AllowsWord ((braced d.block ++ d.behindBlock.text).reverse ++ p) := by
    rw [List.reverse_append, List.append_assoc]
    refine allowsWord_gap hgap fun _ => ?_
    rw [braced, ← List.cons_append, List.reverse_append]
    exact allowsWord_cons Mark.closing.isApart_char _
  have hsearch (t : Text) : GoesOver true (braced d.block ++ d.behindBlock.text) t :=
    (goesOver_braced d.block_uncommented).append hbraced.sealed fun _ _ _ => clauseUpToFrom_gap hgap
  have hread : readClause (stripComments (braced d.block ++ d.behindBlock.text)) =
      some (d.entries.filterMap QuotedEntry.read) := by
    rw [(hbraced.append (d.behindBlock.uncommented fun _ _ => trivial)).stripComments,
      readClause_block d.behindBlock.isBlanks d.block_uncommented, d.readBlock_block]
  have hfound := declarationAt?_of_goesOver (v := []) d.behindKeyword.isBlanks.isTrivia
    d.behindFrom.isBlanks.isTrivia d.path.quotes
    ((beginsClause_braced d.block).append d.behindBlock.text) hallows (hsearch _) hread p
  rwa [List.append_nil] at hfound

/-- The declaration is all that is found. -/
theorem scriptDeclarations_text (d : QuotedImport) : scriptDeclarations d.text =
    [⟨d.path.text, d.entries.filterMap QuotedEntry.read, spanTo [] (ofText d.text), true⟩] := by
  have hends : Text.EndsWord (d.behindKeyword.text ++ (braced d.block ++ d.behindBlock.text ++
      (fromWord.text ++ (d.behindFrom.text ++ (Token.path d.path).text)))) :=
    d.behindKeyword.isBlanks.isTrivia.endsWord fun _ => Text.endsWord_cons (by decide) _
  have hword : atKeyword keyword (ofText d.text) = true :=
    atKeyword_self (w := importWord) (fun c hc => nomatch hc) hends
  have hlook := look_keyword hword (d.declarationAt?_text [])
  have hstop := stop_spanTo [] d.text []
  obtain ⟨s, hs⟩ : ∃ s, d.text = 'i' :: s := ⟨_, rfl⟩
  rw [hs] at hlook hstop ⊢
  rw [← List.append_nil ('i' :: s)] at hlook ⊢
  exact (visit_found (by decide) hlook hstop).trans (congrArg (List.cons _) (visit_end _))

/-- The file has one record, with the bindings that the entries are read as. -/
theorem content_records (d : QuotedImport) (importer : Text) :
    (readScriptImports importer d.text).records.map ImportRecord.content =
      [.ofScript d.path.text (d.entries.filterMap QuotedEntry.read) false] := by
  rw [readScriptImports, d.scriptDeclarations_text]
  rfl

end QuotedImport

end ScriptImport

open ScriptImport

/-- **A block of quoted names** makes one record, with what its entries are read as, in their order.
That is what they say, one binding for each entry, exactly when each string is a word of its own. -/
theorem content_quotedNames_iff (d : QuotedImport) (importer : Text) :
    (readScriptImports importer d.text).records.map ImportRecord.content =
        [.ofScript d.path.text (d.entries.filterMap QuotedEntry.read) false] ∧
      ((readScriptImports importer d.text).records.map ImportRecord.content =
          [.ofScript d.path.text (d.entries.map QuotedEntry.binding) false] ↔
        ∀ e ∈ d.entries, e.IsKeptWhole) := by
  refine ⟨d.content_records importer, ?_⟩
  rw [d.content_records importer, ← QuotedEntry.filterMap_read_eq_iff]
  constructor
  · intro h
    exact congrArg ImportRecord.bindings (List.cons.inj h).1
  · intro h
    rw [h]

/-- A comma, a brace and what looks like a comment, in front of `type` and behind it. -/
theorem content_quotedNames_comment :
    (readScriptImports [] "import\x7b'a, \x7d'as x,type \"/*b\" as y\x7dfrom './m'".toList).records.map
        ImportRecord.content =
      [.ofScript "./m".toList
        [⟨"'a, \x7d'".toList, .named, some "x".toList, false⟩,
          ⟨"\"/*b\"".toList, .named, some "y".toList, true⟩] false] := by
  let none : Gap := ⟨[], .nil⟩
  let one : Gap := ⟨[' '], Text.isBlanks_space⟩
  let first : QuotedEntry :=
    ⟨none, .none, "'a, \x7d'".toList, ⟨.single, _, rfl, rfl, by decide +kernel⟩, none, one,
      List.cons_ne_nil _ _, ⟨"x".toList, by decide⟩, none⟩
  let second : QuotedEntry :=
    ⟨none, some one, "\"/*b\"".toList, ⟨.double, _, rfl, rfl, by decide +kernel⟩, one, one,
      List.cons_ne_nil _ _, ⟨"y".toList, by decide⟩, none⟩
  have hfirst : first.IsKeptWhole := fun gap hgap => nomatch hgap
  have hsecond : second.IsKeptWhole := by
    intro gap hgap
    rw [← Option.some.inj hgap]
    exact ⟨List.cons_ne_nil _ _, by decide, List.cons_ne_nil _ _⟩
  exact (content_quotedNames_iff ⟨none, none, [first, second], none, one,
    ⟨.single, "./m".toList, rfl, by decide⟩⟩ []).2.mpr
      (List.forall_mem_cons.mpr ⟨hfirst, List.forall_mem_singleton.mpr hsecond⟩)

/-- Behind `type` a string is cut up at its white space, or taken for a word with what it touches. -/
theorem quotedNames_cut_up :
    Text.IsClosedQuote "'a b'".toList ∧
      (readScriptImports [] "import \x7b type 'a b' as c \x7d from './m'".toList).records.map
          ImportRecord.content = [.ofScript "./m".toList [] false] ∧
      (readScriptImports [] "import \x7b type'a' as c, type 'b'as d \x7d from './m'".toList).records.map
          ImportRecord.content =
        [.ofScript "./m".toList [⟨"type'a'".toList, .named, some "c".toList, false⟩] false] :=
  ⟨⟨.single, _, rfl, rfl, by decide +kernel⟩, by decide +kernel, by decide +kernel⟩

end ScriptSurvey
