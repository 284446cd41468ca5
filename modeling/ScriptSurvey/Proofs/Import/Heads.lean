import Mathlib.Data.List.TakeDrop
import ScriptSurvey.Import.Rebase
import ScriptSurvey.Proofs.Text.Identifier

/-!
# Where the passes find a specifier

A pass copies a text up to the next place where a specifier is named, writes the new specifier there, and
goes on behind it. A quoted specifier stands behind one of a few words and blanks, with a marker in front.
None of these words has a quote in it, so what stands in front of the first quote of a text is passed
over as it is, unless it is one of the words, to the character, with blanks behind it.
-/

namespace ScriptSurvey.Rebase

open Text

/-! ## Passing over a text -/

section Passes

variable {find : Option Char → Text → Option SpecifierMatch} {rebase : Text → Text}

/-- A front part in which no match begins stays as it is. -/
theorem replaceAll_append {u v : Text} (before : Option Char)
    (h : ∀ before a b, u = a ++ b → b ≠ [] → find before (b ++ v) = none) :
    replaceAll find rebase before (u ++ v) =
      u ++ replaceAll find rebase (u.getLast?.or before) v := by
  induction u generalizing before with
  | nil => rfl
  | cons c u ih =>
      have hnone : find before (c :: (u ++ v)) = none := h before [] (c :: u) rfl (List.cons_ne_nil c u)
      have hlast : u.getLast?.or (some c) = (c :: u).getLast?.or before := by
        rw [List.getLast?_cons]
        cases u.getLast? <;> rfl
      rw [List.cons_append, replaceAll, hnone, List.cons_append, ← hlast]
      exact congrArg (c :: ·) (ih (some c) fun before a b hu hb =>
        h before (c :: a) b (congrArg (c :: ·) hu) hb)

/-- The same with one more character at the end of the part. -/
theorem replaceAll_append_cons {a u : Text} {q : Char} (before : Option Char)
    (h : ∀ before x b, a = x ++ b → find before (b ++ q :: u) = none) :
    replaceAll find rebase before (a ++ q :: u) = a ++ q :: replaceAll find rebase (some q) u := by
  have hpass : replaceAll find rebase before ((a ++ [q]) ++ u) =
      (a ++ [q]) ++ replaceAll find rebase ((a ++ [q]).getLast?.or before) u := by
    refine replaceAll_append before fun before x b hab hb => ?_
    obtain ⟨b, d, rfl⟩ := (List.eq_nil_or_concat b).resolve_left hb
    rw [List.concat_eq_append, ← List.append_assoc] at hab
    obtain ⟨hax, hqd⟩ := List.append_inj' hab rfl
    obtain rfl := List.singleton_inj.mp hqd
    rw [List.concat_eq_append, List.append_assoc]
    exact h before x b hax
  rwa [List.append_assoc, List.append_assoc, List.getLast?_concat] at hpass

/-- A match at the front is written with its new specifier, and the pass goes on behind it. -/
theorem replaceAll_of_some {before : Option Char} {m : SpecifierMatch} {s : Text} (hs : s ≠ [])
    (h : find before (s ++ m.rest) = some m) :
    replaceAll find rebase before (s ++ m.rest) =
      m.write rebase ++ replaceAll find rebase s.getLast? m.rest := by
  obtain ⟨c, s, rfl⟩ := List.exists_cons_of_ne_nil hs
  rw [List.cons_append] at h ⊢
  have htake : (c :: (s ++ m.rest)).take ((s ++ m.rest).length + 1 - m.rest.length) = c :: s := by
    rw [← List.cons_append, List.take_left' (by simp; omega)]
  rw [replaceAll, h]
  dsimp only
  rw [if_pos (by simp), htake]

end Passes

/-! ## Heads -/

/-- The words behind which, blanks apart, a quoted specifier stands. -/
inductive HeadWord : Text → Prop
  | clause : HeadWord "from".toList
  | bare : HeadWord "import".toList
  | call {gap : Text} : IsBlanks gap → HeadWord ("import".toList ++ gap ++ ['('])
  | rule : HeadWord "@import".toList
  | url {gap : Text} : IsBlanks gap → gap ≠ [] → HeadWord ("@import".toList ++ gap ++ "url(".toList)

/-- What is left behind one of the words and blanks. -/
def LeadsTo (t rest : Text) : Prop :=
  ∃ word gap, HeadWord word ∧ IsBlanks gap ∧ t = word ++ gap ++ rest

theorem blanks_eq (t : Text) : blanks t = (t.takeWhile isBlank, t.dropWhile isBlank) :=
  List.span_eq_takeWhile_dropWhile isBlank t

theorem isBlanks_blanks (t : Text) : IsBlanks (blanks t).1 := by
  rw [blanks_eq]
  exact fun _ hc => List.mem_takeWhile_imp hc

theorem blanks_eq_self (t : Text) : (blanks t).1 ++ (blanks t).2 = t := by
  rw [blanks_eq]
  exact List.takeWhile_append_dropWhile

theorem isBlanks_append {g g' : Text} (hg : IsBlanks g) (hg' : IsBlanks g') : IsBlanks (g ++ g') :=
  fun c hc => (List.mem_append.mp hc).elim (hg c) (hg' c)

theorem optionalParenthesis_cases (t : Text) :
    optionalParenthesis t = ([], t) ∨ ∃ u, t = '(' :: u ∧ optionalParenthesis t = (['('], u) := by
  unfold optionalParenthesis
  split
  · next u => exact .inr ⟨u, rfl, rfl⟩
  · exact .inl rfl

theorem eq_append_of_wholeWord? {before : Option Char} {word t rest : Text}
    (h : wholeWord? before word t = some rest) : t = word ++ rest := by
  unfold wholeWord? at h
  split at h
  · exact absurd h (by simp)
  · exact (List.isPrefixOf?_eq_some_iff_append_eq.mp h).symm

theorem leadsTo_of_fromHead? {before : Option Char} {t head rest : Text}
    (h : fromHead? before t = some (head, rest)) : LeadsTo t rest := by
  obtain ⟨v, hword, hv⟩ := Option.map_eq_some_iff.mp h
  have hrest : (blanks v).2 = rest := congrArg Prod.snd hv
  refine ⟨_, (blanks v).1, .clause, isBlanks_blanks v, ?_⟩
  rw [eq_append_of_wholeWord? hword, ← hrest, List.append_assoc, blanks_eq_self]

theorem leadsTo_of_importHead? {before : Option Char} {t head rest : Text}
    (h : importHead? before t = some (head, rest)) : LeadsTo t rest := by
  obtain ⟨v, hword, hv⟩ := Option.map_eq_some_iff.mp h
  have hrest : (blanks (optionalParenthesis (blanks v).2).2).2 = rest := congrArg Prod.snd hv
  rw [eq_append_of_wholeWord? hword]
  rcases optionalParenthesis_cases (blanks v).2 with hnone | ⟨u, hu, hsome⟩
  · rw [hnone] at hrest
    refine ⟨_, (blanks v).1 ++ (blanks (blanks v).2).1, .bare,
      isBlanks_append (isBlanks_blanks v) (isBlanks_blanks _), ?_⟩
    rw [← hrest, List.append_assoc, List.append_assoc, blanks_eq_self, blanks_eq_self]
  · rw [hsome] at hrest
    refine ⟨_, (blanks u).1, .call (isBlanks_blanks v), isBlanks_blanks u, ?_⟩
    rw [← hrest, List.append_assoc _ (blanks u).1, blanks_eq_self, List.append_assoc,
      List.singleton_append, List.append_assoc, ← hu, blanks_eq_self]

/-- A rule begins with its word and at least one blank. -/
theorem eq_append_of_ruleHead? {t head rest : Text} (h : ruleHead? t = some (head, rest)) :
    ∃ gap, IsBlanks gap ∧ gap ≠ [] ∧ t = "@import".toList ++ gap ++ rest := by
  obtain ⟨v, hword, hv⟩ := Option.bind_eq_some_iff.mp h
  dsimp only at hv
  split at hv
  · exact absurd hv (by simp)
  · next hgap =>
      have hrest : (blanks v).2 = rest := congrArg Prod.snd (Option.some.inj hv)
      refine ⟨_, isBlanks_blanks v, fun hnil => hgap (List.isEmpty_iff.mpr hnil), ?_⟩
      rw [← List.isPrefixOf?_eq_some_iff_append_eq.mp hword, ← hrest, List.append_assoc, blanks_eq_self]

theorem eq_append_of_urlHead? {t head rest : Text} (h : urlHead? t = some (head, rest)) :
    ∃ gap, IsBlanks gap ∧ t = "url(".toList ++ gap ++ rest := by
  obtain ⟨v, hword, hv⟩ := Option.map_eq_some_iff.mp h
  have hrest : (blanks v).2 = rest := congrArg Prod.snd hv
  refine ⟨_, isBlanks_blanks v, ?_⟩
  rw [← List.isPrefixOf?_eq_some_iff_append_eq.mp hword, ← hrest, List.append_assoc, blanks_eq_self]

theorem quoted?_eq_some {head t : Text} {m : SpecifierMatch} (h : quoted? head t = some m) :
    ∃ q u, t = q :: u ∧ isQuote q = true ∧ (marker? u).isSome = true := by
  unfold quoted? at h
  split at h
  · exact absurd h (by simp)
  · next q u =>
      split at h
      · next hq =>
          obtain ⟨p, hp, -⟩ := Option.bind_eq_some_iff.mp h
          exact ⟨q, u, rfl, hq, by rw [hp]; rfl⟩
      · exact absurd h (by simp)

/-- **A quoted specifier is found behind one of the words**, and it has a marker in front. -/
theorem exists_of_quotedAt? {before : Option Char} {t : Text} {m : SpecifierMatch}
    (h : quotedAt? before t = some m) : ∃ q u, LeadsTo t (q :: u) ∧ isQuote q = true ∧
      (marker? u).isSome = true := by
  obtain ⟨head, rest, hleads, hquoted⟩ : ∃ head rest, LeadsTo t rest ∧ quoted? head rest = some m := by
    rw [quotedAt?, Option.or_eq_some_iff, Option.or_eq_some_iff] at h
    rcases h with h | ⟨-, h | ⟨-, h⟩⟩
    · obtain ⟨⟨head, rest⟩, hhead, hquoted⟩ := Option.bind_eq_some_iff.mp h
      exact ⟨head, rest, leadsTo_of_fromHead? hhead, hquoted⟩
    · obtain ⟨⟨head, rest⟩, hhead, hquoted⟩ := Option.bind_eq_some_iff.mp h
      exact ⟨head, rest, leadsTo_of_importHead? hhead, hquoted⟩
    · obtain ⟨⟨head, rest⟩, hhead, hquoted⟩ := Option.bind_eq_some_iff.mp h
      obtain ⟨gap, hgap, hne, ht⟩ := eq_append_of_ruleHead? hhead
      dsimp only at hquoted
      split at hquoted
      · next url v hurl =>
          obtain ⟨gap', hgap', hrest⟩ := eq_append_of_urlHead? hurl
          refine ⟨_, v, ⟨_, gap', .url hgap hne, hgap', ?_⟩, hquoted⟩
          rw [ht, hrest]
          simp only [List.append_assoc]
      · exact ⟨head, rest, ⟨_, gap, .rule, hgap, ht⟩, hquoted⟩
  obtain ⟨q, u, rfl, hq, hmarker⟩ := quoted?_eq_some hquoted
  exact ⟨q, u, hleads, hq, hmarker⟩

/-- **An unquoted specifier is found in a rule**, behind `url(`. -/
theorem exists_of_unquotedAt? {before : Option Char} {t : Text} {m : SpecifierMatch}
    (h : unquotedAt? before t = some m) : ∃ gap, IsBlanks gap ∧ gap ≠ [] ∧
      "@import".toList ++ gap ++ "url(".toList <+: t := by
  obtain ⟨⟨head, rest⟩, hhead, h⟩ := Option.bind_eq_some_iff.mp h
  obtain ⟨gap, hgap, hne, ht⟩ := eq_append_of_ruleHead? hhead
  obtain ⟨⟨url, v⟩, hurl, -⟩ := Option.bind_eq_some_iff.mp h
  obtain ⟨gap', -, hrest⟩ := eq_append_of_urlHead? hurl
  refine ⟨gap, hgap, hne, gap' ++ v, ?_⟩
  rw [ht, hrest]
  simp only [List.append_assoc]

/-! ## Where nothing is found -/

theorem isQuote_of_isBlank {c : Char} (h : isBlank c = true) : isQuote c = false :=
  of_isBlank (P := fun c => isQuote c = false) (by decide) h

theorem eq_of_isQuote {c : Char} (h : isQuote c = true) : c = '\'' ∨ c = '"' := by
  simpa [isQuote] using h

theorem isBlank_of_isQuote {c : Char} (h : isQuote c = true) : isBlank c = false := by
  rcases eq_of_isQuote h with rfl | rfl <;> decide

/-- What holds of two words and of blanks holds of the words with blanks between them. -/
theorem forall_mem_spaced {P : Char → Prop} {front gap back : Text} (hfront : ∀ c ∈ front, P c)
    (hblank : ∀ c, isBlank c = true → P c) (hgap : IsBlanks gap) (hback : ∀ c ∈ back, P c) :
    ∀ c ∈ front ++ gap ++ back, P c := by
  intro c hc
  rcases List.mem_append.mp hc with hc | hc
  · exact (List.mem_append.mp hc).elim (hfront c) fun hc => hblank c (hgap c hc)
  · exact hback c hc

namespace HeadWord

variable {word : Text}

theorem not_isQuote (h : HeadWord word) : ∀ c ∈ word, isQuote c = false := by
  cases h with
  | clause => decide
  | bare => decide
  | call hgap => exact forall_mem_spaced (by decide) (fun _ => isQuote_of_isBlank) hgap (by decide)
  | rule => decide
  | url hgap _ => exact forall_mem_spaced (by decide) (fun _ => isQuote_of_isBlank) hgap (by decide)

/-- Only one of the words ends as `from` does. -/
theorem eq_from_or_getLast? (h : HeadWord word) :
    word = "from".toList ∨ word.getLast? = some 't' ∨ word.getLast? = some '(' := by
  cases h with
  | clause => exact .inl rfl
  | bare => exact .inr (.inl rfl)
  | call _ => exact .inr (.inr (by rw [List.getLast?_concat]))
  | rule => exact .inr (.inl rfl)
  | url _ _ => exact .inr (.inr (by rw [List.getLast?_append_of_ne_nil _ (by decide)]; rfl))

theorem trimEnd_append (h : HeadWord word) {gap : Text} (hgap : IsBlanks gap) :
    trimEnd (word ++ gap) = word := by
  refine Text.trimEnd_append hgap fun c hc => ?_
  rcases h.eq_from_or_getLast? with rfl | hlast | hlast
  · obtain rfl : 'm' = c := Option.some.inj hc
    decide
  · rw [Option.some.inj (hc.symm.trans hlast)]
    decide
  · rw [Option.some.inj (hc.symm.trans hlast)]
    decide

/-- What ends in `from` and a blank is one of the words if there is nothing in front. -/
theorem eq_nil_of_from {gap v : Text} (h : HeadWord word) (hgap : IsBlanks gap)
    (hv : v ++ "from ".toList = word ++ gap) : v = [] := by
  have hword : v ++ "from".toList = word := by
    have htrim := h.trimEnd_append hgap
    rw [← hv, show "from ".toList = "from".toList ++ [' '] from rfl, ← List.append_assoc,
      Text.trimEnd_append isBlanks_space] at htrim
    · exact htrim
    · intro c hc
      rw [List.getLast?_append_of_ne_nil _ (by decide)] at hc
      obtain rfl : 'm' = c := Option.some.inj hc
      decide
  have hlast : word.getLast? = some 'm' := by
    rw [← hword, List.getLast?_append_of_ne_nil _ (by decide)]
    rfl
  rcases h.eq_from_or_getLast? with rfl | ht | hp
  · exact List.append_left_eq_self.mp hword
  · exact absurd (hlast.symm.trans ht) (by decide)
  · exact absurd (hlast.symm.trans hp) (by decide)

end HeadWord

/-- A text has one first quote. -/
theorem append_quote_inj {a a' u u' : Text} {q q' : Char} (ha : ∀ c ∈ a, isQuote c = false)
    (ha' : ∀ c ∈ a', isQuote c = false) (hq : isQuote q = true) (hq' : isQuote q' = true)
    (h : a ++ q :: u = a' ++ q' :: u') : a = a' ∧ u = u' := by
  have hfront {a u : Text} {q : Char} (ha : ∀ c ∈ a, isQuote c = false) (hq : isQuote q = true) :
      (a ++ q :: u).takeWhile (fun c => !isQuote c) = a := by
    rw [List.takeWhile_append_of_pos fun c hc => by rw [ha c hc]; rfl,
      List.takeWhile_cons_of_neg (by simp [hq]), List.append_nil]
  obtain rfl : a = a' := by rw [← hfront ha hq, h, hfront ha' hq']
  exact ⟨rfl, (List.cons.inj (List.append_cancel_left h)).2⟩

/-- Nothing is found in front of a quote, unless one of the words stands there and a marker behind the
quote. -/
theorem quotedAt?_of_quote {a u : Text} {q : Char} (ha : ∀ c ∈ a, isQuote c = false)
    (hq : isQuote q = true)
    (h : marker? u = none ∨ ∀ word gap, HeadWord word → IsBlanks gap → a ≠ word ++ gap)
    (before : Option Char) : quotedAt? before (a ++ q :: u) = none := by
  rw [Option.eq_none_iff_forall_ne_some]
  intro m hm
  obtain ⟨q', u', ⟨word, gap, hword, hgap, ht⟩, hq', hmarker⟩ := exists_of_quotedAt? hm
  have hlead : ∀ c ∈ word ++ gap, isQuote c = false := fun c hc =>
    (List.mem_append.mp hc).elim (hword.not_isQuote c) fun hc => isQuote_of_isBlank (hgap c hc)
  obtain ⟨ha', rfl⟩ := append_quote_inj ha hlead hq hq' ht
  rcases h with h | h
  · rw [h] at hmarker
    exact Bool.noConfusion hmarker
  · exact h word gap hword hgap ha'

/-! ## Where a specifier is found -/

theorem blanks_append {gap t : Text} (hgap : IsBlanks gap)
    (ht : ∀ c, t.head? = some c → isBlank c = false) : blanks (gap ++ t) = (gap, t) := by
  rw [blanks_eq, List.takeWhile_append_of_pos hgap, List.dropWhile_append_of_pos hgap,
    dropWhile_of_head? ht]
  cases t with
  | nil => rw [List.takeWhile_nil, List.append_nil]
  | cons c t =>
      rw [List.takeWhile_cons_of_neg (by rw [ht c rfl]; exact Bool.false_ne_true), List.append_nil]

theorem wholeWord?_append {before : Option Char} (h : before.any isWordChar = false) (word t : Text) :
    wholeWord? before word (word ++ t) = some t := by
  rw [wholeWord?, h, if_neg Bool.false_ne_true, isPrefixOf?_append]

/-- Whether a text can stand between quotes: no quote is in it, and no line feed. -/
def IsEnclosable (t : Text) : Prop :=
  ∀ c ∈ t, isQuote c = false ∧ c ≠ '\n'

/-- A specifier with a marker is found between two quotes. -/
theorem quoted?_append {marker path : Text} {q : Char} (hq : isQuote q = true)
    (hmarker : ∀ u, marker? (marker ++ path ++ u) = some (marker, path ++ u))
    (hpath : IsEnclosable path) (head u : Text) :
    quoted? head (q :: (marker ++ path ++ q :: u)) = some ⟨head, [q], marker ++ path, u⟩ := by
  have hin : ∀ c ∈ path, (!isQuote c && c != '\n') = true := fun c hc => by
    rw [(hpath c hc).1, bne_iff_ne.mpr (hpath c hc).2]
    rfl
  have htake : (path ++ q :: u).takeWhile (fun c => !isQuote c && c != '\n') = path := by
    rw [List.takeWhile_append_of_pos hin, List.takeWhile_cons_of_neg (by simp [hq]), List.append_nil]
  have hdrop : (path ++ q :: u).dropWhile (fun c => !isQuote c && c != '\n') = q :: u := by
    rw [List.dropWhile_append_of_pos hin, List.dropWhile_cons_of_neg (by simp [hq])]
  rw [quoted?, if_pos hq, hmarker, Option.bind_some]
  simp only [htake, hdrop]
  exact if_pos hq

theorem isPrefixOf?_of_head {c d : Char} (h : d ≠ c) (word t : Text) :
    List.isPrefixOf? (d :: word) (c :: t) = none := by
  rw [List.isPrefixOf?, if_neg (by simpa using h)]

section Heads

variable {before : Option Char} {q : Char}

theorem blanks_space (hq : isQuote q = true) (t : Text) : blanks (' ' :: q :: t) = ([' '], q :: t) :=
  blanks_append isBlanks_space fun _ hc => Option.some.inj hc ▸ isBlank_of_isQuote hq

theorem blanks_quote (hq : isQuote q = true) (t : Text) : blanks (q :: t) = ([], q :: t) :=
  blanks_append IsBlanks.nil fun _ hc => Option.some.inj hc ▸ isBlank_of_isQuote hq

theorem fromHead?_clause (hbefore : before.any isWordChar = false) (hq : isQuote q = true) (t : Text) :
    fromHead? before ("from".toList ++ ' ' :: q :: t) = some ("from ".toList, q :: t) := by
  rw [fromHead?, wholeWord?_append hbefore, Option.map_some, blanks_space hq]
  rfl

theorem importHead?_bare (hbefore : before.any isWordChar = false) (hq : isQuote q = true) (t : Text) :
    importHead? before ("import".toList ++ ' ' :: q :: t) = some ("import ".toList, q :: t) := by
  have hparenthesis : optionalParenthesis (q :: t) = ([], q :: t) := by
    rcases eq_of_isQuote hq with rfl | rfl <;> rfl
  rw [importHead?, wholeWord?_append hbefore, Option.map_some, blanks_space hq]
  simp only [hparenthesis, blanks_quote hq]
  rfl

theorem importHead?_call (hbefore : before.any isWordChar = false) (hq : isQuote q = true) (t : Text) :
    importHead? before ("import".toList ++ '(' :: q :: t) = some ("import(".toList, q :: t) := by
  have hnone : blanks ('(' :: q :: t) = ([], '(' :: q :: t) :=
    blanks_append IsBlanks.nil fun _ hc => Option.some.inj hc ▸ (by decide)
  rw [importHead?, wholeWord?_append hbefore, Option.map_some, hnone]
  change some ("import".toList ++ [] ++ ['('] ++ (blanks (q :: t)).1, (blanks (q :: t)).2) = _
  rw [blanks_quote hq]
  rfl

theorem ruleHead?_rule (hq : isQuote q = true) (t : Text) :
    ruleHead? ("@import".toList ++ ' ' :: q :: t) = some ("@import ".toList, q :: t) := by
  rw [ruleHead?, isPrefixOf?_append, Option.bind_some, blanks_space hq]
  rfl

theorem urlHead?_quote (hq : isQuote q = true) (t : Text) : urlHead? (q :: t) = none := by
  have hne : 'u' ≠ q := by
    rintro rfl
    exact absurd hq (by decide)
  have hnone : List.isPrefixOf? "url(".toList (q :: t) = none := isPrefixOf?_of_head hne _ t
  rw [urlHead?, hnone, Option.map_none]

theorem fromHead?_of_head {c : Char} (hc : 'f' ≠ c) (t : Text) : fromHead? before (c :: t) = none := by
  have hnone : List.isPrefixOf? "from".toList (c :: t) = none := isPrefixOf?_of_head hc _ t
  rw [fromHead?, wholeWord?, hnone, ite_self, Option.map_none]

theorem importHead?_of_head {c : Char} (hc : 'i' ≠ c) (t : Text) :
    importHead? before (c :: t) = none := by
  have hnone : List.isPrefixOf? "import".toList (c :: t) = none := isPrefixOf?_of_head hc _ t
  rw [importHead?, wholeWord?, hnone, ite_self, Option.map_none]

theorem ruleHead?_of_head {c : Char} (hc : '@' ≠ c) (t : Text) : ruleHead? (c :: t) = none := by
  have hnone : List.isPrefixOf? "@import".toList (c :: t) = none := isPrefixOf?_of_head hc _ t
  rw [ruleHead?, hnone, Option.bind_none]

/-- Nothing is found where none of the words begins. -/
theorem quotedAt?_of_head {c : Char} (hc : c ∉ ['f', 'i', '@']) (before : Option Char) (t : Text) :
    quotedAt? before (c :: t) = none := by
  simp only [List.mem_cons, List.not_mem_nil, or_false, not_or] at hc
  rw [quotedAt?, fromHead?_of_head (Ne.symm hc.1), importHead?_of_head (Ne.symm hc.2.1), quotedRule?,
    ruleHead?_of_head (Ne.symm hc.2.2)]
  rfl

theorem unquotedAt?_of_head {c : Char} (hc : '@' ≠ c) (before : Option Char) (t : Text) :
    unquotedAt? before (c :: t) = none := by
  rw [unquotedAt?, ruleHead?_of_head hc, Option.bind_none]

end Heads

end ScriptSurvey.Rebase
