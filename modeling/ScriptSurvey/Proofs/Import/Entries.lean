import ScriptSurvey.Proofs.Import.Literal
import ScriptSurvey.Proofs.Import.ReadClause

/-!
# Entries as they are written

A block is written with a comma and a space between its entries. Each entry is a name, or an exported
name and ` as ` and the local name, where the exported one may be a string in quotes. A string is
closed by its own quote, so nothing in it is taken for a comma, a brace or the end of the entry.
-/

namespace ScriptSurvey

/-- A name is all code. -/
theorem Name.uncommented (w : Name) {P : Char → Prop}
    (h : ∀ c, Text.isIdentifierPart c = true → P c) : w.text.Uncommented P :=
  .of_forall fun c hc => ⟨Text.isPlain_of_isIdentifierPart (w.isPart hc), h c (w.isPart hc)⟩

namespace ScriptImport

/-! ## One entry -/

theorem readEntry_between {g g' : Text} (hg : Text.IsBlanks g) (hg' : Text.IsBlanks g')
    (typeOnly : Bool) (e : Text) : readEntry typeOnly (g ++ (e ++ g')) = readEntry typeOnly e := by
  have hwords : entryWords (g ++ (e ++ g')) = entryWords e := by
    unfold entryWords
    rw [Text.trim_between hg hg']
  rw [readEntry_eq, readEntry_eq, hwords]

/-- An entry of words is read as what they bind. -/
theorem readEntry_of_spells (typeOnly : Bool) (e : Entry) {t : Text}
    (h : Spells Text.IsBlanks (e.words.map .word) t) :
    readEntry typeOnly t = some (e.binding typeOnly) := by
  have hwords := entryWords_of_spells .nil h
  rw [List.nil_append] at hwords
  rw [readEntry_eq, hwords]
  exact wordsBinding_words typeOnly e

theorem readEntry_name (typeOnly : Bool) (w : Name) :
    readEntry typeOnly w.text = some ⟨w.text, .named, none, typeOnly⟩ := by
  have h := readEntry_of_spells typeOnly ⟨false, w, none⟩ (Spells.single .nil (.word w))
  rwa [Entry.binding, Bool.or_false] at h

theorem readEntry_alias (typeOnly : Bool) (w y : Name) :
    readEntry typeOnly (w.text ++ " as ".toList ++ y.text) =
      some (Entry.boundAs typeOnly ⟨false, w, some y⟩) := by
  have hspells : Spells Text.IsBlanks [.word w, .word asWord, .word y]
      (w.text ++ ([' '] ++ (asWord.text ++ ([' '] ++ y.text)))) :=
    .cons Text.isBlanks_space (fun _ => List.cons_ne_nil _ _)
      (.cons Text.isBlanks_space (fun _ => List.cons_ne_nil _ _) (.single .nil (.word y)))
  have h := readEntry_of_spells typeOnly ⟨false, w, some y⟩ hspells
  rw [Entry.binding, Bool.or_false] at h
  rw [List.append_assoc]
  exact h

/-- A quoted name in front is one word, whatever it holds. -/
theorem entryWords_quoted {q t : Text} (hq : q.IsClosedQuote)
    (hlast : ∀ c, (q ++ t).getLast? = some c → Text.isBlank c = false) :
    entryWords (q ++ t) = some (q :: Text.words t) := by
  obtain ⟨kind, contents, hline, rfl, hread⟩ := hq.exists_contents
  have hdelim : startsQuoted [kind.delimiter] = true ∧ Text.isBlank kind.delimiter = false := by
    cases kind with
    | single => exact ⟨rfl, rfl⟩
    | double => exact ⟨rfl, rfl⟩
    | template => exact absurd hline Bool.false_ne_true
  have hquote : startsQuoted (kind.delimiter :: (contents ++ [kind.delimiter]) ++ t) = true :=
    hdelim.1
  have hfound := hread t
  -- the quote itself is not blank, so trimming leaves it the first character
  have htrim : Text.trim (kind.delimiter :: (contents ++ [kind.delimiter]) ++ t) =
      kind.delimiter :: (contents ++ [kind.delimiter]) ++ t :=
    Text.trim_of_ends (fun c hc => Option.some.inj hc ▸ hdelim.2) hlast
  rw [List.cons_append] at hquote hfound htrim ⊢
  unfold entryWords
  simp only [htrim, hquote, if_true, hfound, Option.map_some]
  rfl

/-- A quoted name with a local name binds the export under that name. -/
theorem readEntry_quoted_of_words (typeOnly : Bool) {q t : Text} (hq : q.IsClosedQuote) {y : Text}
    (hlast : ∀ c, (q ++ t).getLast? = some c → Text.isBlank c = false)
    (hwords : Text.words t = [asWord.text, y]) :
    readEntry typeOnly (q ++ t) = some ⟨q, .named, some y, typeOnly⟩ := by
  -- without the quotes this name would be read as a default import
  have hne : q ≠ "default".toList := by
    rintro rfl
    exact absurd hq.startsQuoted (by decide)
  rw [readEntry_eq, entryWords_quoted hq hlast, hwords, Option.bind_some, wordsBinding,
    if_neg (by simp), entryBinding, if_pos (show asWord.text = ['a', 's'] from rfl), if_neg hne]

theorem isBlank_last_name (w : Name) (t : Text) :
    ∀ c, (t ++ w.text).getLast? = some c → Text.isBlank c = false := by
  intro c hc
  have hne := Text.ne_nil_of_isIdentifier w.isIdentifier
  rw [List.getLast?_append_of_ne_nil t hne] at hc
  exact Text.isBlank_of_isIdentifierPart (w.isPart (List.mem_of_getLast? hc))

theorem readEntry_quoted (typeOnly : Bool) {q : Text} (hq : q.IsClosedQuote) (y : Name) :
    readEntry typeOnly (q ++ " as ".toList ++ y.text) =
      some ⟨q, .named, some y.text, typeOnly⟩ := by
  have hspells : Spells Text.IsBlanks ([asWord, y].map .word) (asWord.text ++ ([' '] ++ y.text)) :=
    .cons Text.isBlanks_space (fun _ => List.cons_ne_nil _ _) (.single .nil (.word y))
  have hwords : Text.words (" as ".toList ++ y.text) = [asWord.text, y.text] :=
    (Text.words_of_isBlanks Text.isBlanks_space _).trans hspells.words
  have hlast := isBlank_last_name y (q ++ " as ".toList)
  rw [List.append_assoc] at hlast ⊢
  exact readEntry_quoted_of_words typeOnly hq hlast hwords

/-- Without a quote in front, an entry is cut into its words. -/
theorem entryWords_eq_words {t : Text} (hquote : startsQuoted t = false)
    (hhead : ∀ c, t.head? = some c → Text.isBlank c = false)
    (hlast : ∀ c, t.getLast? = some c → Text.isBlank c = false) :
    entryWords t = some (Text.words t) := by
  unfold entryWords
  rw [Text.trim_of_ends hhead hlast]
  cases t with
  | nil => rfl
  | cons c t => simp only [hquote, Bool.false_eq_true, if_false]

/-! ## A block -/

/-- Without a comma there is one entry. -/
theorem readBlock_of_uncommented (typeOnly : Bool) {e : Text} (he : e.Uncommented (· ≠ ',')) :
    readBlock typeOnly e = [e].filterMap (readEntry typeOnly) := by
  have hcomma : Run.code ',' ∉ runs e := fun hmem => he.of_mem_runs hmem rfl
  rw [readBlock, entries_of_not_mem hcomma, List.filterMap_cons, join_runs, List.filterMap_cons]
  rfl

/-- The first entry ends at the first comma, but for those in strings. -/
theorem readBlock_append_comma (typeOnly : Bool) {e : Text} (he : e.Uncommented (· ≠ ',')) (t : Text) :
    readBlock typeOnly (e ++ ',' :: t) =
      [e].filterMap (readEntry typeOnly) ++ readBlock typeOnly t := by
  have hcomma : Run.code ',' ∉ runs e := fun hmem => he.of_mem_runs hmem rfl
  rw [readBlock, he.sealed.runs_append, Text.runs_cons_of_isPlain (by decide),
    entries_append_comma hcomma, ← List.singleton_append, List.filterMap_append, List.filterMap_cons,
    join_runs, List.filterMap_cons]
  rfl

/-- **A block is read entry by entry**, whatever blanks stand at its ends and behind its commas. -/
theorem readBlock_intercalate (typeOnly : Bool) {es : List Text}
    (h : ∀ e ∈ es, e.Uncommented (· ≠ ',')) {s g g' : Text} (hs : Text.IsBlanks s)
    (hg : Text.IsBlanks g) (hg' : Text.IsBlanks g') :
    readBlock typeOnly (g ++ (List.intercalate (',' :: s) es ++ g')) =
      es.filterMap (readEntry typeOnly) := by
  have hblank {g : Text} (hg : Text.IsBlanks g) : g.Uncommented (· ≠ ',') := by
    refine .of_forall fun c hc => ⟨Text.isPlain_of_isBlank (hg c hc), ?_⟩
    rintro rfl
    exact absurd (hg _ hc) (by decide)
  have hone {e : Text} (he : e.Uncommented (· ≠ ',')) {g : Text} (hg : Text.IsBlanks g) :
      readBlock typeOnly (g ++ (e ++ g')) = [e].filterMap (readEntry typeOnly) := by
    rw [readBlock_of_uncommented typeOnly ((hblank hg).append (he.append (hblank hg'))),
      List.filterMap_cons, readEntry_between hg hg', List.filterMap_cons]
  -- by the entries, with any blanks in front, since each comma leaves some to the next entry
  induction es generalizing g with
  | nil => exact hone .nil hg
  | cons e es ih =>
      have he := h e List.mem_cons_self
      cases es with
      | nil =>
          rw [List.intercalate_singleton]
          exact hone he hg
      | cons e' es =>
          have hrest := ih (fun x hx => h x (List.mem_cons_of_mem e hx)) hs
          have hsplit : g ++ (List.intercalate (',' :: s) (e :: e' :: es) ++ g') =
              g ++ e ++ ',' :: (s ++ (List.intercalate (',' :: s) (e' :: es) ++ g')) := by
            rw [List.intercalate_cons_cons]
            simp only [List.append_assoc, List.cons_append]
          have hread := readEntry_between hg .nil typeOnly e
          rw [List.append_nil] at hread
          rw [hsplit, readBlock_append_comma typeOnly ((hblank hg).append he), hrest,
            List.filterMap_cons, hread, ← List.filterMap_cons, ← List.filterMap_append]
          rfl

/-- A block has the bindings of the entries that it is written with. -/
theorem readBlock_commaJoin (typeOnly : Bool) {es : List Text}
    (h : ∀ e ∈ es, e.Uncommented (· ≠ ',')) {g g' : Text} (hg : Text.IsBlanks g)
    (hg' : Text.IsBlanks g') :
    readBlock typeOnly (g ++ (Text.commaJoin es ++ g')) = es.filterMap (readEntry typeOnly) :=
  readBlock_intercalate typeOnly h Text.isBlanks_space hg hg'

end ScriptImport

end ScriptSurvey
