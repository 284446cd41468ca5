import ScriptSurvey.Proofs.Import.Grammar
import ScriptSurvey.Proofs.Lexical.Cuts

/-!
# Reading a clause

A clause is read from a text without comments, in which only blanks stand between the tokens. Its
items are found one after another, its entries between the commas of a block, and the words of an
entry between blanks, so what is read are the words that were written.
-/

namespace ScriptSurvey

namespace Spells

variable {k : Token} {ks : List Token} {g t : Text}

theorem single {IsGap : Text → Prop} (hnil : IsGap []) (k : Token) : Spells IsGap [k] k.text := by
  have hone : Spells IsGap [k] (k.text ++ ([] ++ [])) := .cons hnil (fun h => absurd h.2 id) .nil
  rwa [List.append_nil, List.append_nil] at hone

/-- No token begins with a blank. -/
theorem isBlank_head {IsGap : Text → Prop} (h : Spells IsGap ks t) :
    ∀ c, t.head? = some c → Text.isBlank c = false := by
  intro c hc
  cases h with
  | nil => exact absurd hc (by simp)
  | @cons k ks g u _ _ _ =>
      obtain ⟨d, v, hk, hd, -⟩ := k.exists_head
      rw [hk] at hc
      exact Option.some.inj hc ▸ hd

theorem trimStart (h : Spells Text.IsBlanks ks t) (hg : Text.IsBlanks g) :
    Text.trimStart (g ++ t) = t :=
  Text.trimStart_append hg h.isBlank_head

/-- A trimmed text spells the same tokens. -/
theorem trim (h : Spells Text.IsBlanks ks t) (hg : Text.IsBlanks g) :
    Spells Text.IsBlanks ks (Text.trim (g ++ t)) := by
  rw [Text.trim, h.trimStart hg]
  induction h with
  | nil => exact .nil
  | @cons k ks g u hg hmeet hu ih =>
      cases hu with
      | nil =>
          rw [List.append_nil, Text.trimEnd_append hg k.isBlank_last]
          exact single .nil k
      | @cons k' ks g' u' hg' hmeet' hu' =>
          have hsome : ∃ c ∈ k'.text ++ (g' ++ u'), Text.isBlank c = false := by
            obtain ⟨c, v, hk, hc, -⟩ := k'.exists_head
            exact ⟨c, List.mem_append_left _ (hk ▸ List.mem_cons_self), hc⟩
          rw [Text.trimEnd, ← List.append_assoc, Text.dropWhileEnd_append hsome, List.append_assoc]
          exact .cons hg hmeet ih

/-- The words of a text that spells words. -/
theorem words {ws : List Name} (h : Spells Text.IsBlanks (ws.map .word) t) :
    Text.words t = ws.map Name.text := by
  induction ws generalizing t with
  | nil =>
      cases h
      rfl
  | cons w ws ih =>
      obtain ⟨g, u, rfl, hg, hmeet, hu⟩ := h.exists_cons
      have hgap : g = [] → u = [] := by
        intro hnil
        cases ws with
        | nil =>
            cases hu
            rfl
        | cons v ws => exact absurd hnil (hmeet ⟨rfl, trivial⟩)
      have hblank : ∀ c ∈ w.text, Text.isBlank c = false := fun c hc =>
        Text.isBlank_of_isIdentifierPart (w.isPart hc)
      rw [List.map_cons, ← ih hu]
      exact Text.words_append hblank (Text.ne_nil_of_isIdentifier w.isIdentifier) hg hgap

/-- Words in front of a mark end at it. -/
theorem exists_mark {ws : List Name} {m : Mark}
    (h : Spells Text.IsBlanks (ws.map .word ++ .mark m :: ks) t) :
    ∃ s g u, t = s ++ m.char :: (g ++ u) ∧ Spells Text.IsBlanks (ws.map .word) s ∧
      Text.IsBlanks g ∧ Spells Text.IsBlanks ks u := by
  induction ws generalizing t with
  | nil =>
      obtain ⟨g, u, rfl, hg, -, hu⟩ := h.exists_cons
      exact ⟨[], g, u, rfl, .nil, hg, hu⟩
  | cons w ws ih =>
      rw [List.map_cons, List.cons_append] at h
      obtain ⟨g, u, rfl, hg, hmeet, hu⟩ := h.exists_cons
      obtain ⟨s, g', u', rfl, hs, hg', hu'⟩ := ih hu
      refine ⟨w.text ++ (g ++ s), g', u', by simp [Token.text],
        .cons hg (fun hm => ?_) hs, hg', hu'⟩
      exact hmeet ⟨hm.1, Token.startsWithWord_append hm.2 _⟩

/-- What spells words is plain, and holds no mark. -/
theorem isPlain_of_words {ws : List Name} (h : Spells Text.IsBlanks (ws.map .word) t) {c : Char}
    (hc : c ∈ t) :
    Text.isPlain c = true ∧ (Text.isIdentifierPart c = true ∨ Text.isBlank c = true) := by
  induction ws generalizing t with
  | nil =>
      cases h
      exact absurd hc List.not_mem_nil
  | cons w ws ih =>
      obtain ⟨g, u, rfl, hg, -, hu⟩ := h.exists_cons
      rcases List.mem_append.mp hc with hc | hc
      · have := w.isPart hc
        exact ⟨Text.isPlain_of_isIdentifierPart this, .inl this⟩
      · rcases List.mem_append.mp hc with hc | hc
        · exact ⟨Text.isPlain_of_isBlank (hg c hc), .inr (hg c hc)⟩
        · exact ih hu hc

end Spells

namespace ScriptImport

/-! ## Entries -/

theorem entryWords_of_spells {ws : List Name} {g s : Text} (hg : Text.IsBlanks g)
    (hs : Spells Text.IsBlanks (ws.map .word) s) :
    entryWords (g ++ s) = some (ws.map Name.text) := by
  have htrim := hs.trim hg
  rw [entryWords]
  generalize Text.trim (g ++ s) = entry at htrim
  cases ws with
  | nil =>
      cases htrim
      rfl
  | cons w ws =>
      have hquote : startsQuoted entry = false := htrim.startsQuoted_eq
      have hwords := htrim.words
      cases entry with
      | nil => exact absurd hwords (by simp [Text.words])
      | cons c entry => simp only [hquote, hwords, Bool.false_eq_true, if_false]

theorem startsQuoted_name (w : Name) : startsQuoted w.text = false := by
  have hone : Spells Text.IsBlanks [.word w] w.text := .single .nil (.word w)
  exact hone.startsQuoted_eq

theorem entryBinding_nameWords (typeOnly : Bool) (e : Entry) :
    entryBinding typeOnly (e.nameWords.map Name.text) = some (e.boundAs typeOnly) := by
  obtain ⟨marked, x, alias?⟩ := e
  cases alias? with
  | none => exact if_neg (by rw [startsQuoted_name]; decide)
  | some y =>
      have hread : entryBinding typeOnly [x.text, asWord.text, y.text] =
          if x.text = defaultWord.text then some ⟨y.text, .default, none, typeOnly⟩
          else some ⟨x.text, .named, some y.text, typeOnly⟩ := by
        simp only [entryBinding]
        rw [if_pos (show asWord.text = ['a', 's'] from rfl)]
        rfl
      refine hread.trans ?_
      rw [Entry.boundAs]
      split <;> rfl

theorem Entry.length_nameWords (e : Entry) : e.nameWords.length = 1 ∨ e.nameWords.length = 3 := by
  obtain ⟨marked, x, alias?⟩ := e
  cases alias? with
  | none => exact .inl rfl
  | some y => exact .inr rfl

/-- The binding that words make, with a marker in front or not. -/
def wordsBinding (typeOnly : Bool) (ws : List Text) : Option Binding :=
  if ws.head? = some typeWord.text ∧ (ws.length = 2 ∨ ws.length = 4) then entryBinding true ws.tail
  else entryBinding typeOnly ws

theorem readEntry_eq (typeOnly : Bool) (entry : Text) :
    readEntry typeOnly entry = (entryWords entry).bind (wordsBinding typeOnly) := by
  rw [readEntry]
  cases entryWords entry <;> rfl

/-- The words of an entry make its binding: one or three of them, and one more with a marker. -/
theorem wordsBinding_words (typeOnly : Bool) (e : Entry) :
    wordsBinding typeOnly (e.words.map Name.text) = some (e.binding typeOnly) := by
  have hlength := e.length_nameWords
  rw [wordsBinding, Entry.words, Entry.binding]
  cases e.typeOnly with
  | false =>
      rw [if_neg Bool.false_ne_true, Bool.or_false, List.length_map, if_neg (by omega)]
      exact entryBinding_nameWords typeOnly e
  | true =>
      rw [if_pos rfl, Bool.or_true, List.length_map, List.length_cons, if_pos ⟨rfl, by omega⟩]
      exact entryBinding_nameWords true e

/-! ## Blocks -/

theorem entries_append_comma {p : List Run} (h : .code ',' ∉ p) (rs : List Run) :
    entries (p ++ .code ',' :: rs) = p :: entries rs := by
  induction p with
  | nil => exact if_pos rfl
  | cons r p ih =>
      have hr : ¬r.isChar ',' = true := by
        simp only [Run.isChar, beq_iff_eq]
        exact fun he => h (he ▸ List.mem_cons_self)
      rw [List.cons_append, entries, if_neg hr, ih fun hm => h (List.mem_cons_of_mem r hm)]

theorem entries_of_not_mem {p : List Run} (h : .code ',' ∉ p) : entries p = [p] := by
  induction p with
  | nil => rfl
  | cons r p ih =>
      have hr : ¬r.isChar ',' = true := by
        simp only [Run.isChar, beq_iff_eq]
        exact fun he => h (he ▸ List.mem_cons_self)
      rw [entries, if_neg hr, ih fun hm => h (List.mem_cons_of_mem r hm)]

/-- A piece between commas: plain, with no comma or brace in it, and with the words that were
written. -/
theorem piece_of_spells {ws : List Name} {g s : Text} (hg : Text.IsBlanks g)
    (hs : Spells Text.IsBlanks (ws.map .word) s) :
    (∀ c ∈ g ++ s, Text.isPlain c = true ∧ c ≠ '\x7d') ∧ Run.code ',' ∉ (g ++ s).map .code ∧
      entryWords (Run.join ((g ++ s).map .code)) = some (ws.map Name.text) := by
  -- words and blanks are all that is in a piece, and no mark is either of the two
  have hchars : ∀ c ∈ g ++ s, Text.isPlain c = true ∧
      (Text.isIdentifierPart c = true ∨ Text.isBlank c = true) := by
    intro c hc
    rcases List.mem_append.mp hc with hc | hc
    · exact ⟨Text.isPlain_of_isBlank (hg c hc), .inr (hg c hc)⟩
    · exact hs.isPlain_of_words hc
  have hmark (m : Mark) : m.char ∉ g ++ s := by
    intro hm
    rcases (hchars _ hm).2 with hpart | hblank
    · exact absurd (m.isApart_char.1.symm.trans hpart) Bool.false_ne_true
    · exact absurd (m.isBlank_char.symm.trans hblank) Bool.false_ne_true
  refine ⟨fun c hc => ⟨(hchars c hc).1, ?_⟩, ?_, ?_⟩
  · rintro rfl
    exact hmark .closing hc
  · rw [List.mem_map]
    rintro ⟨c, hc, he⟩
    rw [Run.code.inj he] at hc
    exact hmark .comma hc
  · rw [← Text.runs_of_isPlain fun c hc => (hchars c hc).1, join_runs]
    exact entryWords_of_spells hg hs

/-- The text between braces: it ends at the first closing one, and its entries are the pieces that
were written. -/
theorem exists_block {ks : List Token} : ∀ {pieces : List (List Name)} {g t : Text}, pieces ≠ [] →
    Text.IsBlanks g → Spells Text.IsBlanks (separated pieces ++ .mark .closing :: ks) t →
    ∃ body g' u, t = body ++ '\x7d' :: (g' ++ u) ∧ Text.IsBlanks g' ∧ Spells Text.IsBlanks ks u ∧
      (∀ c ∈ g ++ body, Text.isPlain c = true ∧ c ≠ '\x7d') ∧
      (entries ((g ++ body).map .code)).map (fun e => entryWords (Run.join e)) =
        pieces.map fun ws => some (ws.map Name.text)
  | [], _, _, hne, _, _ => absurd rfl hne
  | [ws], g, t, _, hg, h => by
      rw [separated, List.map_singleton, List.intercalate_singleton] at h
      obtain ⟨s, g', u, rfl, hs, hg', hu⟩ := h.exists_mark
      obtain ⟨hplain, hcomma, hwords⟩ := piece_of_spells hg hs
      refine ⟨s, g', u, rfl, hg', hu, hplain, ?_⟩
      rw [entries_of_not_mem hcomma, List.map_singleton, hwords]
      rfl
  | ws :: vs :: pieces, g, t, _, hg, h => by
      rw [separated, List.map_cons, List.map_cons, List.intercalate_cons_cons, List.append_assoc,
        List.append_assoc] at h
      obtain ⟨s, g₁, u₁, rfl, hs, hg₁, hu₁⟩ := h.exists_mark
      obtain ⟨body, g', u, rfl, hg', hu, hbody, hentries⟩ :=
        exists_block (List.cons_ne_nil vs pieces) hg₁ hu₁
      obtain ⟨hplain, hcomma, hwords⟩ := piece_of_spells hg hs
      refine ⟨s ++ ',' :: (g₁ ++ body), g', u, by simp [Mark.char], hg', hu, ?_, ?_⟩
      · intro c hc
        rw [← List.append_assoc, List.mem_append, List.mem_cons] at hc
        rcases hc with hc | rfl | hc
        · exact hplain c hc
        · exact ⟨by decide, by decide⟩
        · exact hbody c hc
      · rw [← List.append_assoc, List.map_append, List.map_cons, entries_append_comma hcomma,
          List.map_cons, hwords, hentries]
        rfl

/-- A text is cut where the first such character of code stands. -/
theorem cutAtCode_append {c : Char} {x : Text} (hc : Text.isPlain c = true) (hx : x.Sealed)
    (hnone : Run.code c ∉ runs x) (y : Text) : cutAtCode c (x ++ c :: y) = some (x, y) := by
  rw [cutAtCode, hx.runs_append, Text.runs_cons_of_isPlain hc, Run.cutAtChar_append hnone,
    Run.cutAtChar_cons_self, Option.map_some, Option.map_some, List.append_nil, join_runs, join_runs]

/-- What the words between the commas of a block bind: what stands behind the last comma does not.
-/
theorem filterMap_blockPieces (typeOnly : Bool) (entries : List Entry) (trailingComma : Bool) :
    (blockPieces entries trailingComma).filterMap
      (fun ws => wordsBinding typeOnly (ws.map Name.text)) =
      entries.map (Entry.binding typeOnly) := by
  have hentries : (entries.map Entry.words).filterMap
      (fun ws => wordsBinding typeOnly (ws.map Name.text)) =
        entries.map (Entry.binding typeOnly) := by
    rw [List.filterMap_map]
    exact (congrArg (List.filterMap · entries) (funext (wordsBinding_words typeOnly))).trans
      (congrFun List.filterMap_eq_map entries)
  rw [blockPieces, List.filterMap_append, hentries]
  cases trailingComma with
  | true => exact List.append_nil _
  | false => exact List.append_nil _

/-- A block has the bindings of its entries. -/
theorem readItem_block (typeOnly : Bool) {entries : List Entry} {trailingComma : Bool}
    {ks : List Token} {t : Text}
    (h : Spells Text.IsBlanks ((Group.block entries trailingComma).tokens ++ ks) t) :
    ∃ g u, readItem typeOnly t = some (entries.map (Entry.binding typeOnly), g ++ u) ∧
      Text.IsBlanks g ∧ Spells Text.IsBlanks ks u := by
  -- an empty block has one piece too, without words
  obtain ⟨pieces, hne, hpieces, hbind⟩ : ∃ pieces : List (List Name), pieces ≠ [] ∧
      separated pieces = separated (blockPieces entries trailingComma) ∧
      pieces.filterMap (fun ws => wordsBinding typeOnly (ws.map Name.text)) =
        entries.map (Entry.binding typeOnly) := by
    have hbind := filterMap_blockPieces typeOnly entries trailingComma
    by_cases hnil : blockPieces entries trailingComma = []
    · rw [hnil] at hbind ⊢
      exact ⟨[[]], List.cons_ne_nil _ _, rfl, hbind⟩
    · exact ⟨_, hnil, rfl, hbind⟩
  rw [Group.tokens, ← hpieces, List.cons_append, List.append_assoc] at h
  obtain ⟨g, t, rfl, hg, -, ht⟩ := h.exists_cons
  obtain ⟨body, g', u, rfl, hg', hu, hbody, hentries⟩ := exists_block hne hg ht
  refine ⟨g', u, ?_, hg', hu⟩
  have hplain : ∀ c ∈ g ++ body, Text.isPlain c = true := fun c hc => (hbody c hc).1
  have hopen : Run.code '\x7d' ∉ runs (g ++ body) := by
    rw [Text.runs_of_isPlain hplain, List.mem_map]
    rintro ⟨c, hc, he⟩
    exact (hbody c hc).2 (Run.code.inj he)
  have hread : readBlock typeOnly (g ++ body) = entries.map (Entry.binding typeOnly) := by
    rw [← hbind, readBlock, Text.runs_of_isPlain hplain]
    have := congrArg (List.filterMap fun ws => ws.bind (wordsBinding typeOnly)) hentries
    rw [List.filterMap_map, List.filterMap_map] at this
    refine Eq.trans ?_ this
    exact congrArg (List.filterMap · _) (funext fun e => readEntry_eq typeOnly (Run.join e))
  show (cutAtCode '\x7d' (g ++ (body ++ '\x7d' :: (g' ++ u)))).map _ = _
  rw [← List.append_assoc, cutAtCode_append rfl (Text.sealed_of_isPlain hplain) hopen,
    Option.map_some, hread]

/-! ## Items -/

theorem afterAs?_of_spells {w : Name} {ks : List Token} {g t : Text} (hg : Text.IsBlanks g)
    (h : Spells Text.IsBlanks (.word asWord :: .word w :: ks) t) :
    ∃ u, afterAs? (g ++ t) = some u ∧ Spells Text.IsBlanks (.word w :: ks) u := by
  have htrim := h.trimStart hg
  obtain ⟨g', u, rfl, hg', hmeet, hu⟩ := h.exists_cons
  obtain ⟨c, b, rfl⟩ := List.exists_cons_of_ne_nil (hmeet ⟨rfl, trivial⟩)
  have hfront : List.isPrefixOf? ['a', 's'] ((Token.word asWord).text ++ c :: (b ++ u)) =
      some (c :: (b ++ u)) := Text.isPrefixOf?_append asWord.text _
  refine ⟨u, ?_, hu⟩
  rw [afterAs?, htrim]
  simp only [List.cons_append, hfront, hg' c List.mem_cons_self, if_true, hu.trimStart hg'.tail]

/-- A name in front is the default import. -/
theorem readItem_word (typeOnly : Bool) (w : Name) {t : Text} (ht : Text.EndsWord t) :
    readItem typeOnly (w.text ++ t) = some ([⟨w.text, .default, none, typeOnly⟩], t) := by
  have htake := Text.takeIdentifier?_append w.isIdentifier ht
  obtain ⟨c, s, hw, hc⟩ := w.exists_cons
  have hopen : c ≠ '\x7b' := Text.ne_of_isIdentifierPart hc rfl
  have hstar : c ≠ '*' := Text.ne_of_isIdentifierPart hc rfl
  have hthird : readItem typeOnly (w.text ++ t) =
      (Text.takeIdentifier? (w.text ++ t)).map fun p =>
        ([⟨p.1, .default, none, typeOnly⟩], p.2) := by
    rw [hw]
    refine readItem.eq_3 typeOnly _ (fun v hv => ?_) (fun v hv => ?_)
    · exact hopen (List.cons.inj hv).1
    · exact hstar (List.cons.inj hv).1
  rw [hthird, htake]
  rfl

theorem readItem_default (typeOnly : Bool) {w : Name} {ks : List Token} {t : Text}
    (h : Spells Text.IsBlanks (.word w :: ks) t) :
    ∃ g u, readItem typeOnly t = some ([⟨w.text, .default, none, typeOnly⟩], g ++ u) ∧
      Text.IsBlanks g ∧ Spells Text.IsBlanks ks u := by
  obtain ⟨g, u, rfl, hg, hmeet, hu⟩ := h.exists_cons
  exact ⟨g, u, readItem_word typeOnly w (hu.endsWord hg.isTrivia hmeet), hg, hu⟩

theorem readItem_group (typeOnly : Bool) {i : Group} {ks : List Token} {t : Text}
    (h : Spells Text.IsBlanks (i.tokens ++ ks) t) :
    ∃ g u, readItem typeOnly t = some (i.bindings typeOnly, g ++ u) ∧ Text.IsBlanks g ∧
      Spells Text.IsBlanks ks u := by
  cases i with
  | block entries trailingComma => exact readItem_block typeOnly h
  | «namespace» x =>
      obtain ⟨g, t, rfl, hg, -, ht⟩ := h.exists_cons
      obtain ⟨t', hafter, ht'⟩ := afterAs?_of_spells hg ht
      obtain ⟨g', u, rfl, hg', hmeet, hu⟩ := ht'.exists_cons
      refine ⟨g', u, ?_, hg', hu⟩
      have htake := Text.takeIdentifier?_append x.isIdentifier (hu.endsWord hg'.isTrivia hmeet)
      show ((afterAs? (g ++ t)).bind Text.takeIdentifier?).map _ = _
      rw [hafter, Option.bind_some]
      exact congrArg (Option.map _) htake

theorem readItems_of_readItem {typeOnly : Bool} {t rest : Text} {bs : List Binding}
    (h : readItem typeOnly t = some (bs, rest)) :
    readItems typeOnly t = match Text.trimStart rest with
      | [] => some bs
      | c :: more =>
        if c = ',' then (readItems typeOnly (Text.trimStart more)).map (bs ++ ·) else none := by
  rw [readItems]
  split
  · next hnone => exact absurd (hnone.symm.trans h) (by simp)
  · next bs' rest' hsome =>
      rw [h, Option.some.injEq, Prod.mk.injEq] at hsome
      obtain ⟨rfl, rfl⟩ := hsome
      split
      · next hnil => rw [hnil]
      · next c more hcons => rw [hcons]

/-- The items of a clause are read as what they bind. -/
theorem readItems_of_spells (typeOnly : Bool) {i : Items} {t : Text}
    (h : Spells Text.IsBlanks i.tokens t) : readItems typeOnly t = some (i.bindings typeOnly) := by
  have hlast {bs : List Binding} {g u : Text} (hread : readItem typeOnly t = some (bs, g ++ u))
      (hg : Text.IsBlanks g) (hu : Spells Text.IsBlanks [] u) : readItems typeOnly t = some bs := by
    rw [readItems_of_readItem hread, hu.trimStart hg]
    cases hu
    rfl
  cases i with
  | «default» x =>
      obtain ⟨g, u, hread, hg, hu⟩ := readItem_default typeOnly h
      exact hlast hread hg hu
  | group i =>
      rw [Items.tokens, ← List.append_nil i.tokens] at h
      obtain ⟨g, u, hread, hg, hu⟩ := readItem_group typeOnly h
      exact hlast hread hg hu
  | defaultAnd x i =>
      obtain ⟨g, u, hread, hg, hu⟩ := readItem_default typeOnly h
      have htrim := hu.trimStart hg
      obtain ⟨g', u', rfl, hg', -, hu'⟩ := hu.exists_cons
      -- behind the comma the group is the only item
      have hgroup : readItems typeOnly u' = some (i.bindings typeOnly) := by
        rw [← List.append_nil i.tokens] at hu'
        obtain ⟨g, u, hread, hg, hu⟩ := readItem_group typeOnly hu'
        rw [readItems_of_readItem hread, hu.trimStart hg]
        cases hu
        rfl
      rw [readItems_of_readItem hread, htrim]
      show (readItems typeOnly (Text.trimStart (g' ++ u'))).map _ = _
      rw [hu'.trimStart hg', hgroup]
      rfl

/-! ## The marker of a clause -/

theorem afterTypeMarker?_append (after : Text) :
    afterTypeMarker? (typeWord.text ++ after) =
      match Text.trimStart after with
      | [] => none
      | c :: rest =>
        if c ≠ ',' ∧ (rest.length + 1 < after.length ∨ c = '\x7b' ∨ c = '*') then some (c :: rest)
        else none := by
  have hfront : List.isPrefixOf? "type".toList (typeWord.text ++ after) = some after :=
    Text.isPrefixOf?_append typeWord.text after
  cases htrim : Text.trimStart after with
  | nil => simp only [afterTypeMarker?, hfront, htrim]
  | cons c rest => simp only [afterTypeMarker?, hfront, htrim]

/-- Items begin with a word, a brace or a star. -/
theorem Items.exists_head (i : Items) :
    (∃ w ks, i.tokens = .word w :: ks) ∨
      ∃ m ks, i.tokens = .mark m :: ks ∧ (m = .opening ∨ m = .star) := by
  cases i with
  | «default» x => exact .inl ⟨_, _, rfl⟩
  | group i =>
      cases i with
      | block entries trailingComma => exact .inr ⟨_, _, rfl, .inl rfl⟩
      | «namespace» x => exact .inr ⟨_, _, rfl, .inr rfl⟩
  | defaultAnd x i => exact .inl ⟨_, _, rfl⟩

/-- In front of its items, `type` marks a clause. -/
theorem afterTypeMarker?_marked {i : Items} {t : Text}
    (h : Spells Text.IsBlanks (.word typeWord :: i.tokens) t) :
    ∃ u, afterTypeMarker? t = some u ∧ Spells Text.IsBlanks i.tokens u := by
  obtain ⟨g, u, rfl, hg, hmeet, hu⟩ := h.exists_cons
  refine ⟨u, ?_, hu⟩
  show afterTypeMarker? (typeWord.text ++ (g ++ u)) = some u
  rw [afterTypeMarker?_append, hu.trimStart hg]
  rcases i.exists_head with ⟨w, ks, hi⟩ | ⟨m, ks, hi, hm⟩
  · -- a blank keeps the marker apart from a word
    rw [hi] at hu hmeet
    have hgap := List.length_pos_iff.mpr (hmeet ⟨rfl, trivial⟩)
    obtain ⟨g', v, rfl, -⟩ := hu.exists_cons
    obtain ⟨c, s, hw, hc⟩ := w.exists_cons
    have hcomma : c ≠ ',' := Text.ne_of_isIdentifierPart hc rfl
    rw [Token.text, hw]
    refine if_pos ⟨hcomma, .inl ?_⟩
    show (s ++ (g' ++ v)).length + 1 < (g ++ (c :: s ++ (g' ++ v))).length
    simp only [List.length_append, List.length_cons]
    omega
  · rw [hi] at hu
    obtain ⟨g', v, rfl, -⟩ := hu.exists_cons
    rcases hm with rfl | rfl
    · exact if_pos ⟨by decide, .inr (.inl rfl)⟩
    · exact if_pos ⟨by decide, .inr (.inr rfl)⟩

/-- A word is no marker when it does not equal `type`, or when a comma or nothing is behind it. -/
theorem afterTypeMarker?_word {w : Name} {t : Text} (ht : Text.EndsWord t)
    (hbehind : w.text = typeWord.text → Text.trimStart t = [] ∨
      (Text.trimStart t).head? = some ',') :
    afterTypeMarker? (w.text ++ t) = none := by
  cases hfront : List.isPrefixOf? typeWord.text (w.text ++ t) with
  | none => rw [afterTypeMarker?, show "type".toList = typeWord.text from rfl, hfront]
  | some after =>
      have hsplit := (List.append_eq_of_isPrefixOf?_eq_some hfront).symm
      have hsame (hw : w.text = typeWord.text) : afterTypeMarker? (w.text ++ t) = none := by
        rw [hw, afterTypeMarker?_append]
        rcases hbehind hw with hnil | hcomma
        · rw [hnil]
        · obtain ⟨u, hu⟩ := List.head?_eq_some_iff.mp hcomma
          rw [hu]
          exact if_neg fun h => h.1 rfl
      rcases List.append_eq_append_iff.mp hsplit with ⟨s, hv, hs⟩ | ⟨s, hw, hs⟩
      · -- `type` goes on where the word ends
        cases s with
        | nil => exact hsame (by rw [hv, List.append_nil])
        | cons c s =>
            have hpart := typeWord.isPart (c := c) (by rw [hv]; simp)
            exact absurd ((ht c (by rw [hs]; rfl)).symm.trans hpart) Bool.false_ne_true
      · -- the word goes on where `type` ends
        cases s with
        | nil => exact hsame (by rw [hw, List.append_nil])
        | cons c s =>
            have hpart := w.isPart (c := c) (by rw [hw]; simp)
            have htrim : Text.trimStart (c :: s ++ t) = c :: s ++ t :=
              Text.dropWhile_of_head? fun d hd =>
                Option.some.inj hd ▸ Text.isBlank_of_isIdentifierPart hpart
            rw [hw, List.append_assoc, afterTypeMarker?_append, htrim]
            refine if_neg fun h => ?_
            rcases h.2 with hlt | hopen | hstar
            · exact absurd hlt (Nat.lt_irrefl _)
            · exact Text.ne_of_isIdentifierPart hpart rfl hopen
            · exact Text.ne_of_isIdentifierPart hpart rfl hstar

/-- Without a marker a clause has none, even if its first name is `type`. -/
theorem afterTypeMarker?_unmarked {i : Items} {t : Text} (h : Spells Text.IsBlanks i.tokens t) :
    afterTypeMarker? t = none := by
  cases i with
  | «default» x =>
      obtain ⟨g, u, rfl, hg, hmeet, hu⟩ := h.exists_cons
      refine afterTypeMarker?_word (hu.endsWord hg.isTrivia hmeet) fun _ => .inl ?_
      rw [hu.trimStart hg]
      cases hu
      rfl
  | group i =>
      cases i with
      | block entries trailingComma =>
          obtain ⟨g, u, rfl, -⟩ := h.exists_cons
          rfl
      | «namespace» x =>
          obtain ⟨g, u, rfl, -⟩ := h.exists_cons
          rfl
  | defaultAnd x i =>
      obtain ⟨g, u, rfl, hg, hmeet, hu⟩ := h.exists_cons
      refine afterTypeMarker?_word (hu.endsWord hg.isTrivia hmeet) fun _ => .inr ?_
      rw [hu.trimStart hg]
      obtain ⟨g', u', rfl, -⟩ := hu.exists_cons
      rfl

/-- **A clause without comments is read as what it binds.** -/
theorem readClause_of_spells (c : Clause) {t : Text} (h : Spells Text.IsBlanks c.tokens t) :
    readClause t = some (c.items.bindings c.typeOnly) := by
  have htrim := h.trim .nil
  rw [List.nil_append] at htrim
  rw [readClause]
  obtain ⟨typeOnly, i⟩ := c
  cases typeOnly with
  | true =>
      obtain ⟨u, hmarker, hu⟩ := afterTypeMarker?_marked htrim
      rw [hmarker]
      exact readItems_of_spells true hu
  | false =>
      rw [afterTypeMarker?_unmarked htrim]
      exact readItems_of_spells false htrim

end ScriptImport

end ScriptSurvey
