import ScriptSurvey.Proofs.Import.Heads
import ScriptSurvey.Proofs.Path.Place

/-!
# Moving a text of declarations

A text of declarations in the usual form is moved declaration by declaration. The first pass replaces the
specifiers that have a marker and keeps the others, which are `.` and `..`. The second one keeps them all,
as long as no new specifier has a rule in it: what the first pass wrote is text like any other to it.
-/

namespace ScriptSurvey.Rebase

open Text

/-! ## Declarations -/

/-- The ways to name a module by a specifier in quotes. -/
inductive MentionForm where
  /-- Behind a clause of names and `from`. -/
  | clause (names : Text)
  /-- Alone, for the effects of the module. -/
  | bare
  /-- In a call. -/
  | call
  /-- In a rule of a style sheet. -/
  | rule
deriving DecidableEq, Repr

namespace MentionForm

/-- What stands in front of the word that the specifier stands behind. -/
def lead : MentionForm → Text
  | clause names => "import ".toList ++ names ++ [' ']
  | _ => []

/-- The word that the specifier stands behind, with what is between them. -/
def word : MentionForm → Text
  | clause _ => "from ".toList
  | bare => "import ".toList
  | call => "import(".toList
  | rule => "@import ".toList

/-- What stands behind the specifier. -/
def last : MentionForm → Char
  | call => ')'
  | _ => ';'

theorem lead_clause (names : Text) : (clause names).lead = "import ".toList ++ names ++ [' '] := rfl

theorem not_isQuote_word (form : MentionForm) : ∀ c ∈ form.word, isQuote c = false := by
  cases form with
  | clause names => exact (by decide : ∀ c ∈ "from ".toList, isQuote c = false)
  | bare => decide
  | call => decide
  | rule => decide

/-- No part of a word stands in front of the word. -/
theorem any_getLast?_lead (form : MentionForm) {before : Option Char}
    (h : before.any isWordChar = false) : (form.lead.getLast?.or before).any isWordChar = false := by
  cases form with
  | clause names =>
      rw [lead_clause, List.getLast?_concat]
      exact (by decide +kernel : isWordChar ' ' = false)
  | bare => exact h
  | call => exact h
  | rule => exact h

/-- No word begins behind the specifier. -/
theorem last_not_mem (form : MentionForm) : form.last ∉ ['f', 'i', '@'] := by
  cases form with
  | call => decide
  | _ => exact (by decide : ';' ∉ ['f', 'i', '@'])

end MentionForm

/-- A declaration that names a module. -/
structure Mention where
  form : MentionForm
  quote : Char
  specifier : Text
deriving DecidableEq, Repr

/-- Whether the specifier has a marker: dots and a separator, for which the passes look. -/
def hasMarker (specifier : Text) : Bool :=
  (marker? specifier).isSome

namespace Mention

/-- The text of the declaration. -/
def text (m : Mention) : Text :=
  m.form.lead ++ (m.form.word ++ m.quote :: (m.specifier ++ m.quote :: [m.form.last]))

/-- A text of declarations, one on each line. -/
def textOf (ms : List Mention) : Text :=
  List.intercalate ['\n'] (ms.map text)

/-- The declaration with another specifier, if it has a marker. -/
def move (rebase : Text → Text) (m : Mention) : Mention :=
  if hasMarker m.specifier then { m with specifier := rebase m.specifier } else m

/-- Whether a quote stands around the specifier of a declaration, and none in front of it, nor the sign
that rules begin with. -/
structure IsWritten (m : Mention) : Prop where
  quote : isQuote m.quote = true
  lead : ∀ c ∈ m.form.lead, isQuote c = false ∧ c ≠ '@'

/-- Whether a declaration names a module relative to its own place. -/
structure IsRelative (m : Mention) : Prop extends m.IsWritten where
  relative : Path.isRelative m.specifier = true
  unrooted : Path.startsAtRoot m.specifier = false

theorem textOf_singleton (m : Mention) : textOf [m] = m.text :=
  List.intercalate_singleton

theorem textOf_cons_cons (m m' : Mention) (ms : List Mention) :
    textOf (m :: m' :: ms) = m.text ++ '\n' :: textOf (m' :: ms) := by
  rw [textOf, List.map_cons, List.map_cons, List.intercalate_cons_cons, List.append_assoc]
  rfl

theorem IsWritten.move {m : Mention} (hm : m.IsWritten) (rebase : Text → Text) :
    (m.move rebase).IsWritten := by
  unfold Mention.move
  split
  · exact ⟨hm.quote, hm.lead⟩
  · exact hm

theorem move_of_hasMarker {m : Mention} (h : hasMarker m.specifier = true) (rebase : Text → Text) :
    m.move rebase = { m with specifier := rebase m.specifier } :=
  if_pos h

theorem move_of_not_hasMarker {m : Mention} (h : ¬hasMarker m.specifier = true)
    (rebase : Text → Text) : m.move rebase = m :=
  if_neg h

theorem text_append (m : Mention) (v : Text) : m.text ++ v =
    m.form.lead ++ (m.form.word ++ m.quote :: (m.specifier ++ m.quote :: m.form.last :: v)) := by
  simp [text]

end Mention

/-- A relative specifier is no more than its dots, or a separator stands behind them. -/
theorem relative_cases {s : Text} (hrelative : Path.isRelative s = true)
    (hroot : Path.startsAtRoot s = false) :
    (s = ['.'] ∨ s = Path.up) ∨ ∃ u, s = ['.', '/'] ++ u ∨ s = ['.', '.', '/'] ++ u := by
  simp only [Path.isRelative, Bool.or_eq_true, beq_iff_eq, List.isPrefixOf_iff_prefix] at hrelative
  obtain (((rfl | rfl) | ⟨u, rfl⟩) | ⟨u, rfl⟩) | ⟨u, rfl⟩ := hrelative
  · exact .inl (.inl rfl)
  · exact .inl (.inr rfl)
  · exact .inr ⟨u, .inl rfl⟩
  · exact .inr ⟨u, .inr rfl⟩
  · exact absurd hroot (by simp [Path.startsAtRoot, Path.unifySeparators])

/-- A relative specifier has a marker, or is no more than its dots. -/
theorem hasMarker_or {s : Text} (hrelative : Path.isRelative s = true)
    (hroot : Path.startsAtRoot s = false) :
    (hasMarker s = true ∧
      ∃ marker path, s = marker ++ path ∧ ∀ u, marker? (s ++ u) = some (marker, path ++ u)) ∨
    hasMarker s = false ∧ (s = ['.'] ∨ s = Path.up) := by
  rcases relative_cases hrelative hroot with hdots | ⟨path, rfl | rfl⟩
  · exact .inr ⟨by rcases hdots with rfl | rfl <;> rfl, hdots⟩
  · exact .inl ⟨rfl, _, path, rfl, fun u => rfl⟩
  · exact .inl ⟨rfl, _, path, rfl, fun u => rfl⟩

theorem hasMarker_iff {s : Text} (hrelative : Path.isRelative s = true)
    (hroot : Path.startsAtRoot s = false) : hasMarker s = true ↔ s ∉ [['.'], Path.up] := by
  rcases hasMarker_or hrelative hroot with ⟨hs, -⟩ | ⟨hnone, hs⟩
  · refine iff_of_true hs fun hmem => ?_
    simp only [List.mem_cons, List.not_mem_nil, or_false] at hmem
    rcases hmem with rfl | rfl <;> exact absurd hs (by decide)
  · rw [hnone]
    refine iff_of_false Bool.false_ne_true fun hmem => hmem ?_
    simpa only [List.mem_cons, List.not_mem_nil, or_false] using hs

/-- Behind the word of a declaration a quoted specifier is looked for, and nothing else. -/
theorem quotedAt?_word (form : MentionForm) {before : Option Char} {q : Char}
    (hbefore : before.any isWordChar = false) (hq : isQuote q = true) (t : Text) :
    quotedAt? before (form.word ++ q :: t) = quoted? form.word (q :: t) := by
  -- each form has its own head, and the heads of the others do not begin with its word
  cases form with
  | clause names =>
      have himport : importHead? before ("from".toList ++ ' ' :: q :: t) = none :=
        importHead?_of_head (by decide) _
      have hrule : ruleHead? ("from".toList ++ ' ' :: q :: t) = none := ruleHead?_of_head (by decide) _
      change quotedAt? before ("from".toList ++ ' ' :: q :: t) = _
      rw [quotedAt?, fromHead?_clause hbefore hq, himport, quotedRule?, hrule, Option.bind_some,
        Option.bind_none, Option.bind_none, Option.or_none, Option.or_none]
      rfl
  | bare =>
      have hfrom : fromHead? before ("import".toList ++ ' ' :: q :: t) = none :=
        fromHead?_of_head (by decide) _
      have hrule : ruleHead? ("import".toList ++ ' ' :: q :: t) = none := ruleHead?_of_head (by decide) _
      change quotedAt? before ("import".toList ++ ' ' :: q :: t) = _
      rw [quotedAt?, hfrom, importHead?_bare hbefore hq, quotedRule?, hrule, Option.bind_some,
        Option.bind_none, Option.bind_none, Option.none_or, Option.or_none]
      rfl
  | call =>
      have hfrom : fromHead? before ("import".toList ++ '(' :: q :: t) = none :=
        fromHead?_of_head (by decide) _
      have hrule : ruleHead? ("import".toList ++ '(' :: q :: t) = none := ruleHead?_of_head (by decide) _
      change quotedAt? before ("import".toList ++ '(' :: q :: t) = _
      rw [quotedAt?, hfrom, importHead?_call hbefore hq, quotedRule?, hrule, Option.bind_some,
        Option.bind_none, Option.bind_none, Option.none_or, Option.or_none]
      rfl
  | rule =>
      have hfrom : fromHead? before ("@import".toList ++ ' ' :: q :: t) = none :=
        fromHead?_of_head (by decide) _
      have himport : importHead? before ("@import".toList ++ ' ' :: q :: t) = none :=
        importHead?_of_head (by decide) _
      change quotedAt? before ("@import".toList ++ ' ' :: q :: t) = _
      rw [quotedAt?, hfrom, himport, quotedRule?, ruleHead?_rule hq, Option.bind_some,
        Option.bind_none, Option.none_or, Option.none_or]
      dsimp only
      rw [urlHead?_quote hq]
      rfl

/-! ## The first pass -/

section Quoted

variable {rebase : Text → Text}

/-- The pass leaves a text without quotes and the quote behind it, if no marker follows. -/
theorem replaceAll_quotedAt?_unmarked {a u : Text} {q : Char} (ha : ∀ c ∈ a, isQuote c = false)
    (hq : isQuote q = true) (hu : marker? u = none) (before : Option Char) :
    replaceAll quotedAt? rebase before (a ++ q :: u) =
      a ++ q :: replaceAll quotedAt? rebase (some q) u := by
  refine replaceAll_append_cons before fun before x b hab => ?_
  exact quotedAt?_of_quote (fun c hc => ha c (hab ▸ List.mem_append_right x hc)) hq (.inl hu) before

/-- The pass leaves a text in which none of the words begins. -/
theorem replaceAll_quotedAt?_wordless {a : Text} (ha : ∀ c ∈ a, c ∉ ['f', 'i', '@'])
    (before : Option Char) (v : Text) :
    replaceAll quotedAt? rebase before (a ++ v) =
      a ++ replaceAll quotedAt? rebase (a.getLast?.or before) v := by
  refine replaceAll_append before fun before x b hab hb => ?_
  obtain ⟨c, b, rfl⟩ := List.exists_cons_of_ne_nil hb
  exact quotedAt?_of_head (ha c (hab ▸ List.mem_append_right x List.mem_cons_self)) before _

/-- The pass leaves what stands in front of the word of a clause. -/
theorem replaceAll_quotedAt?_lead {m : Mention} (hm : m.IsWritten) (before : Option Char) (u : Text) :
    replaceAll quotedAt? rebase before (m.form.lead ++ (m.form.word ++ m.quote :: u)) =
      m.form.lead ++
        replaceAll quotedAt? rebase (m.form.lead.getLast?.or before) (m.form.word ++ m.quote :: u) := by
  obtain ⟨form, q, s⟩ := m
  cases form with
  | clause names =>
      refine replaceAll_append before fun before x b hab hb => ?_
      rw [← List.append_assoc]
      refine quotedAt?_of_quote ?_ hm.quote (.inr fun word gap hword hgap heq => ?_) before
      · intro c hc
        rcases List.mem_append.mp hc with hc | hc
        · exact (hm.lead c (hab ▸ List.mem_append_right x hc)).1
        · exact MentionForm.not_isQuote_word (.clause names) c hc
      · exact hb (hword.eq_nil_of_from hgap heq)
  | bare => rfl
  | call => rfl
  | rule => rfl

/-- The pass replaces a specifier with a marker. -/
theorem replaceAll_quotedAt?_marked (form : MentionForm) {before : Option Char} {marker path : Text}
    {q : Char} (hbefore : before.any isWordChar = false) (hq : isQuote q = true)
    (hmarker : ∀ u, marker? (marker ++ path ++ u) = some (marker, path ++ u))
    (hpath : IsEnclosable path) (u : Text) :
    replaceAll quotedAt? rebase before (form.word ++ q :: (marker ++ path ++ q :: u)) =
      form.word ++ q :: (rebase (marker ++ path) ++ q :: replaceAll quotedAt? rebase (some q) u) := by
  have hfound : quotedAt? before ((form.word ++ q :: (marker ++ path ++ [q])) ++ u) =
      some ⟨form.word, [q], marker ++ path, u⟩ := by
    rw [← quoted?_append hq hmarker hpath, ← quotedAt?_word form hbefore hq]
    simp only [List.append_assoc, List.cons_append, List.nil_append]
  have hlast : (form.word ++ q :: (marker ++ path ++ [q])).getLast? = some q := by
    rw [List.getLast?_append_cons, ← List.cons_append, List.getLast?_concat]
  have hreplaced : replaceAll quotedAt? rebase before
      ((form.word ++ q :: (marker ++ path ++ [q])) ++ u) =
        SpecifierMatch.write rebase ⟨form.word, [q], marker ++ path, u⟩ ++
          replaceAll quotedAt? rebase (some q) u := by
    rw [← hlast]
    exact replaceAll_of_some (m := ⟨form.word, [q], marker ++ path, u⟩)
      (List.append_ne_nil_of_right_ne_nil form.word (List.cons_ne_nil q _)) hfound
  simpa only [SpecifierMatch.write, List.append_assoc, List.cons_append, List.nil_append] using hreplaced

/-- **One declaration in the first pass.** Its specifier is replaced if it has a marker, and nothing else
is. -/
theorem replaceAll_quotedAt?_text {m : Mention} (hm : m.IsRelative)
    (hclean : IsEnclosable m.specifier) {before : Option Char}
    (hbefore : before.any isWordChar = false) (v : Text) :
    replaceAll quotedAt? rebase before (m.text ++ v) =
      (m.move rebase).text ++ replaceAll quotedAt? rebase (some m.form.last) v := by
  have hlast (q : Char) : replaceAll quotedAt? rebase (some q) (m.form.last :: v) =
      m.form.last :: replaceAll quotedAt? rebase (some m.form.last) v :=
    replaceAll_quotedAt?_wordless (List.forall_mem_singleton.mpr m.form.last_not_mem) (some q) v
  have hword := m.form.any_getLast?_lead hbefore
  rw [Mention.text_append, Mention.text_append, replaceAll_quotedAt?_lead hm.toIsWritten]
  obtain ⟨form, q, s⟩ := m
  -- with a marker the specifier is found and replaced; dots alone are passed over with their quotes
  rcases hasMarker_or hm.relative hm.unrooted with ⟨hmarked, marker, path, hs, hmarker⟩ | ⟨hnone, hs⟩
  · obtain rfl : s = marker ++ path := hs
    rw [replaceAll_quotedAt?_marked form hword hm.quote hmarker
      (fun c hc => hclean c (List.mem_append_right marker hc)), hlast,
      Mention.move_of_hasMarker hmarked]
  · have hq := hm.quote
    have hdots : ∀ c ∈ s ++ [q], c ∉ ['f', 'i', '@'] := by
      intro c hc
      rcases List.mem_append.mp hc with hc | hc
      · rcases hs with rfl | rfl
        · exact (by decide : ∀ c ∈ ['.'], c ∉ ['f', 'i', '@']) c hc
        · exact (by decide : ∀ c ∈ Path.up, c ∉ ['f', 'i', '@']) c hc
      · rw [List.mem_singleton.mp hc]
        rcases eq_of_isQuote hq with rfl | rfl <;> decide
    have hu : marker? (s ++ q :: form.last :: v) = none := by
      rcases hs with rfl | rfl <;> rcases eq_of_isQuote hq with rfl | rfl <;> rfl
    rw [replaceAll_quotedAt?_unmarked form.not_isQuote_word hq hu, List.append_cons s,
      replaceAll_quotedAt?_wordless hdots, List.getLast?_concat, Option.some_or, hlast,
      Mention.move_of_not_hasMarker (Bool.not_eq_true _ ▸ hnone), ← List.append_cons]

end Quoted

/-! ## The second pass -/

/-- What stands in front and has no such character in it ends in front of the first one. -/
theorem prefix_of_append_cons {w a b : Text} {c : Char} (h : w <+: a ++ c :: b) (hc : c ∉ w) :
    w <+: a := by
  rcases List.prefix_or_prefix_of_prefix h (List.prefix_append a (c :: b)) with hwa | ⟨v, rfl⟩
  · exact hwa
  · rw [List.prefix_append_right_inj, List.prefix_cons_iff] at h
    rcases h with rfl | ⟨v, rfl, -⟩
    · exact ⟨[], by simp⟩
    · exact absurd (List.mem_append_right a List.mem_cons_self) hc

/-- Whether no rule with `url(` begins in a text. -/
def Unruled (t : Text) : Prop :=
  ∀ gap, IsBlanks gap → gap ≠ [] → ¬"@import".toList ++ gap ++ "url(".toList <:+: t

theorem Unruled.of_isInfix {t u : Text} (h : Unruled t) (hu : u <:+: t) : Unruled u :=
  fun gap hgap hne hfound => h gap hgap hne (hfound.trans hu)

theorem unruled_of_not_mem {t : Text} (h : '@' ∉ t) : Unruled t :=
  fun _ _ _ hfound => h (hfound.subset (List.mem_append_left _ (List.mem_append_left _ (by decide))))

/-- Where there is no blank, no rule begins. -/
theorem unruled_of_not_isBlank {t : Text} (h : ∀ c ∈ t, isBlank c = false) : Unruled t := by
  intro gap hgap hne hfound
  obtain ⟨c, gap, rfl⟩ := List.exists_cons_of_ne_nil hne
  have hc : c ∈ t := hfound.subset (by simp)
  exact absurd (hgap c List.mem_cons_self) (by rw [h c hc]; exact Bool.false_ne_true)

/-- A text as long as the word of a rule and a blank is too short for it. -/
theorem unruled_of_length {t : Text} (h : t.length ≤ 11) : Unruled t := by
  intro gap hgap hne hfound
  have hlength := hfound.length_le
  have hpos := List.length_pos_iff.mpr hne
  simp only [List.length_append] at hlength
  rw [show "@import".toList.length = 7 from rfl, show "url(".toList.length = 4 from rfl] at hlength
  omega

/-- No rule begins in front of a specifier: only one form has the word for it, and no more. -/
theorem MentionForm.unruled_lead_word (form : MentionForm) (h : '@' ∉ form.lead) :
    Unruled (form.lead ++ form.word) := by
  cases form with
  | clause names =>
      refine unruled_of_not_mem fun hmem => ?_
      rcases List.mem_append.mp hmem with hlead | hword
      · exact h hlead
      · exact absurd hword (by decide : '@' ∉ "from ".toList)
  | bare => exact unruled_of_not_mem (by decide)
  | call => exact unruled_of_not_mem (by decide)
  | rule => exact unruled_of_length (by decide)

section Unquoted

variable {rebase : Text → Text}

/-- The pass leaves a text in which no rule begins, and the quote behind it. -/
theorem replaceAll_unquotedAt?_unruled {a u : Text} {q : Char} (ha : Unruled a) (hq : isQuote q = true)
    (before : Option Char) :
    replaceAll unquotedAt? rebase before (a ++ q :: u) =
      a ++ q :: replaceAll unquotedAt? rebase (some q) u := by
  refine replaceAll_append_cons before fun before x b hab => ?_
  rw [Option.eq_none_iff_forall_ne_some]
  intro m hm
  obtain ⟨gap, hgap, hne, hfound⟩ := exists_of_unquotedAt? hm
  have hquote : q ∉ "@import".toList ++ gap ++ "url(".toList := fun hmem =>
    absurd hq (by rw [(HeadWord.url hgap hne).not_isQuote q hmem]; exact Bool.false_ne_true)
  have hb := prefix_of_append_cons hfound hquote
  exact ha gap hgap hne (hb.isInfix.trans (hab ▸ List.infix_append_right))

/-- **One declaration in the second pass** stays as it is. -/
theorem replaceAll_unquotedAt?_text {m : Mention} (hm : m.IsWritten) (h : Unruled m.specifier)
    (before : Option Char) (v : Text) :
    replaceAll unquotedAt? rebase before (m.text ++ v) =
      m.text ++ replaceAll unquotedAt? rebase (some m.form.last) v := by
  have hlast : replaceAll unquotedAt? rebase (some m.quote) (m.form.last :: v) =
      m.form.last :: replaceAll unquotedAt? rebase (some m.form.last) v :=
    replaceAll_append_cons (a := []) (some m.quote) fun before x b hab => by
      obtain ⟨-, rfl⟩ := List.nil_eq_append_iff.mp hab
      exact unquotedAt?_of_head (fun h => m.form.last_not_mem (by simp [← h])) before v
  have hfront := m.form.unruled_lead_word fun hmem => (hm.lead _ hmem).2 rfl
  rw [Mention.text_append, Mention.text_append, ← List.append_assoc, ← List.append_assoc,
    replaceAll_unquotedAt?_unruled hfront hm.quote, replaceAll_unquotedAt?_unruled h hm.quote, hlast]

end Unquoted

/-! ## Both passes -/

/-- A pass through a text of declarations is one through each of them. -/
theorem replaceAll_textOf {find : Option Char → Text → Option SpecifierMatch} {rebase : Text → Text}
    {f : Mention → Mention} {ms : List Mention}
    (hline : ∀ before t, find before ('\n' :: t) = none)
    (h : ∀ m ∈ ms, ∀ before v, before.any isWordChar = false →
      replaceAll find rebase before (m.text ++ v) =
        (f m).text ++ replaceAll find rebase (some m.form.last) v)
    {before : Option Char} (hbefore : before.any isWordChar = false) :
    replaceAll find rebase before (Mention.textOf ms) = Mention.textOf (ms.map f) := by
  induction ms generalizing before with
  | nil => simp [Mention.textOf, replaceAll]
  | cons m ms ih =>
      have hm := fun v => h m List.mem_cons_self before v hbefore
      cases ms with
      | nil =>
          have hend := hm []
          rw [List.append_nil, replaceAll, List.append_nil] at hend
          rw [List.map_singleton, Mention.textOf_singleton, Mention.textOf_singleton, hend]
      | cons m' ms =>
          have hline' : (some '\n').any isWordChar = false := by decide +kernel
          have hrest := ih (fun m hm => h m (List.mem_cons_of_mem _ hm)) hline'
          rw [List.map_cons, List.map_cons, Mention.textOf_cons_cons, hm, replaceAll, hline]
          dsimp only
          rw [hrest, List.map_cons, Mention.textOf_cons_cons]

/-- **A text of declarations, moved.** Each specifier with a marker is replaced, and nothing else is. -/
theorem rebaseImports_textOf {source target : Text} {ms : List Mention}
    (hms : ∀ m ∈ ms, m.IsRelative)
    (hclean : ∀ m ∈ ms, IsEnclosable m.specifier)
    (hunruled : ∀ m ∈ ms, Unruled (m.move (specifier source target)).specifier) :
    rebaseImports source target (Mention.textOf ms) =
      Mention.textOf (ms.map (Mention.move (specifier source target))) := by
  have hfirst : replaceAll quotedAt? (specifier source target) none (Mention.textOf ms) =
      Mention.textOf (ms.map (Mention.move (specifier source target))) :=
    replaceAll_textOf (fun before t => quotedAt?_of_head (by decide) before t)
      (fun m hm before v hbefore => replaceAll_quotedAt?_text (hms m hm) (hclean m hm) hbefore v) rfl
  rw [rebaseImports, hfirst]
  refine (replaceAll_textOf (f := id) (fun before t => unquotedAt?_of_head (by decide) before t)
    (fun m hm before v _ => ?_) rfl).trans (congrArg Mention.textOf (List.map_id _))
  obtain ⟨m, hmem, rfl⟩ := List.mem_map.mp hm
  exact replaceAll_unquotedAt?_text ((hms m hmem).toIsWritten.move _) (hunruled m hmem) before v

end ScriptSurvey.Rebase
