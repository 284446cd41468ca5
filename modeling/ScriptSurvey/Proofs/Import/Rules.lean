import ScriptSurvey.Import.Style
import ScriptSurvey.Proofs.Import.Literal
import ScriptSurvey.Proofs.Lexical.Visits

/-!
# Import rules as they stand

A path stands behind the keyword of a rule in one of three ways: in a string, in a string between the
parentheses of `url(`, or between them as it is. The reader of paths answers exactly when one of them is
there, and a rule is found exactly where a path that is not blank stands behind a keyword.
-/

namespace ScriptSurvey

theorem Text.cutAtFirst_eq_some_iff {p : Char → Bool} {t a b : Text} :
    cutAtFirst p t = some (a, b) ↔ ∃ c, t = a ++ c :: b ∧ p c = true ∧ ∀ d ∈ a, p d = false := by
  induction t generalizing a with
  | nil => simp [cutAtFirst]
  | cons c t ih =>
      rw [cutAtFirst]
      cases hc : p c with
      | true =>
          -- the cut is here, and no cut further on leaves this character in front
          rw [if_pos rfl, Option.some.injEq, Prod.mk.injEq]
          constructor
          · rintro ⟨rfl, rfl⟩
            exact ⟨c, rfl, hc, fun d hd => absurd hd List.not_mem_nil⟩
          · rintro ⟨d, happend, -, ha⟩
            cases a with
            | nil => exact ⟨rfl, (List.cons.inj happend).2⟩
            | cons e a =>
                obtain rfl := (List.cons.inj happend).1
                exact absurd (hc.symm.trans (ha c List.mem_cons_self)) (by simp)
      | false =>
          rw [if_neg Bool.false_ne_true]
          constructor
          · intro h
            obtain ⟨⟨a', b'⟩, hcut, hp⟩ := Option.map_eq_some_iff.mp h
            obtain ⟨rfl, rfl⟩ := Prod.mk.inj hp
            obtain ⟨d, rfl, hd, ha⟩ := ih.mp hcut
            refine ⟨d, rfl, hd, fun e he => ?_⟩
            rcases List.mem_cons.mp he with rfl | he
            · exact hc
            · exact ha e he
          · rintro ⟨d, happend, hd, ha⟩
            cases a with
            | nil =>
                obtain rfl := (List.cons.inj happend).1
                exact absurd (hc.symm.trans hd) (by simp)
            | cons e a =>
                obtain ⟨rfl, rfl⟩ := List.cons.inj happend
                have hcut := ih.mpr ⟨d, rfl, hd, fun e he => ha e (List.mem_cons_of_mem _ he)⟩
                rw [hcut]
                rfl

/-- A string begins with a quote, which is no blank. -/
theorem startsQuoted_of_readQuoted? {t contents after : Text}
    (h : readQuoted? t = some (contents, after)) :
    startsQuoted t = true ∧ Text.trimStart t = t := by
  obtain ⟨kind, u, hline, rfl, -⟩ := exists_of_readQuoted? h
  cases kind with
  | single => exact ⟨rfl, rfl⟩
  | double => exact ⟨rfl, rfl⟩
  | template => exact absurd hline Bool.false_ne_true

namespace StyleImport

/-! ## Paths -/

/-- The word `url(`, in any case. -/
def IsUrlWord (u : Text) : Prop :=
  Text.toLower u = "url(".toList

theorem isUrlWord_url : IsUrlWord "url(".toList := by
  unfold IsUrlWord
  decide

theorem IsUrlWord.length_eq {u : Text} (h : IsUrlWord u) : u.length = 4 := by
  have := congrArg List.length h
  rwa [Text.toLower, List.length_map] at this

/-- A quote is no letter in any case. -/
theorem IsUrlWord.startsQuoted_append {u : Text} (h : IsUrlWord u) (t : Text) :
    startsQuoted (u ++ t) = false := by
  cases u with
  | nil => exact absurd h (by unfold IsUrlWord; decide)
  | cons c u =>
      have hc : c.toLower = 'u' := (List.cons.inj h).1
      rw [List.cons_append, startsQuoted, Bool.or_eq_false_iff, beq_eq_false_iff_ne,
        beq_eq_false_iff_ne]
      constructor
      · rintro rfl
        exact absurd hc (by decide)
      · rintro rfl
        exact absurd hc (by decide)

theorem afterUrl?_eq_some_iff {t after : Text} :
    afterUrl? t = some after ↔ ∃ u, IsUrlWord u ∧ t = u ++ after := by
  rw [afterUrl?, Option.ite_none_right_eq_some]
  constructor
  · rintro ⟨hurl, hdrop⟩
    exact ⟨t.take 4, hurl, by rw [← Option.some.inj hdrop, List.take_append_drop]⟩
  · rintro ⟨u, hurl, rfl⟩
    rw [← hurl.length_eq, List.take_left, List.drop_left]
    exact ⟨hurl, rfl⟩

/-- The ways in which a path stands in front of what follows it. -/
inductive ReadsPath : Text → Text → Text → Prop where
  /-- In a string. -/
  | quoted {t contents after : Text} (string : readQuoted? t = some (contents, after)) :
      ReadsPath t (Text.trim contents) after
  /-- In a string, which has the parentheses of `url(` for itself. -/
  | urlQuoted {u g t contents g' after : Text} (url : IsUrlWord u) (gap : Text.IsBlanks g)
      (string : readQuoted? t = some (contents, g' ++ ')' :: after)) (gap' : Text.IsBlanks g') :
      ReadsPath (u ++ (g ++ t)) (Text.trim contents) after
  /-- As it is, up to the first parenthesis, which stands on the same line in front of any
  semicolon. -/
  | urlBare {u p after : Text} (url : IsUrlWord u)
      (bare : startsQuoted (Text.trimStart p) = false)
      (line : ∀ c ∈ p, c ≠ '\n' ∧ c ≠ ';' ∧ c ≠ ')') :
      ReadsPath (u ++ (p ++ ')' :: after)) (Text.trim p) after

/-- No quote is a parenthesis, so a string in front of one begins before it. -/
theorem startsQuoted_trimStart_paren (p after : Text) :
    startsQuoted (Text.trimStart (p ++ ')' :: after)) = startsQuoted (Text.trimStart p) := by
  have hparen : (')' :: after).dropWhile Text.isBlank = ')' :: after := by
    rw [List.dropWhile_cons_of_neg (by decide)]
  rw [Text.trimStart, Text.trimStart, List.dropWhile_append, hparen]
  cases p.dropWhile Text.isBlank <;> rfl

/-- What ends a line, or a rule, ends the search for a parenthesis. -/
theorem cutAtParen_iff {t p : Text} :
    (∃ b, Text.cutAtFirst (· == ')') (t.takeWhile fun c => c != '\n' && c != ';') = some (p, b)) ↔
      ∃ after, t = p ++ ')' :: after ∧ ∀ c ∈ p, c ≠ '\n' ∧ c ≠ ';' ∧ c ≠ ')' := by
  constructor
  · rintro ⟨b, hcut⟩
    obtain ⟨c, hline, hparen, hp⟩ := Text.cutAtFirst_eq_some_iff.mp hcut
    obtain rfl := beq_iff_eq.mp hparen
    have hsplit := List.takeWhile_append_dropWhile (p := fun c => c != '\n' && c != ';') (l := t)
    rw [hline, List.append_assoc, List.cons_append] at hsplit
    refine ⟨_, hsplit.symm, fun c hc => ?_⟩
    have hkept := List.mem_takeWhile_imp (hline ▸ List.mem_append_left _ hc)
    rw [Bool.and_eq_true, bne_iff_ne, bne_iff_ne] at hkept
    exact ⟨hkept.1, hkept.2, beq_eq_false_iff_ne.mp (hp c hc)⟩
  · rintro ⟨after, rfl, hp⟩
    refine ⟨after.takeWhile fun c => c != '\n' && c != ';', ?_⟩
    have hkept : ∀ c ∈ p, (c != '\n' && c != ';') = true := fun c hc => by
      rw [Bool.and_eq_true, bne_iff_ne, bne_iff_ne]
      exact ⟨(hp c hc).1, (hp c hc).2.1⟩
    rw [List.takeWhile_append_of_pos hkept]
    exact Text.cutAtFirst_eq_some_iff.mpr
      ⟨')', rfl, rfl, fun c hc => beq_eq_false_iff_ne.mpr (hp c hc).2.2⟩

/-- In the parentheses of `url(`, a string is read with the parenthesis behind it. -/
theorem readUrl?_quoted_iff {t path after : Text} (h : startsQuoted (Text.trimStart t) = true) :
    readUrl? t = some (path, after) ↔
      ∃ contents g, readQuoted? (Text.trimStart t) = some (contents, g ++ ')' :: after) ∧
        Text.IsBlanks g ∧ path = Text.trim contents := by
  rw [readUrl?, if_pos h]
  constructor
  · intro hread
    obtain ⟨⟨contents, v⟩, hstring, hclose⟩ := Option.bind_eq_some_iff.mp hread
    obtain ⟨g, hg, hback⟩ := Text.exists_eq_append_trimStart v
    simp only at hclose
    split at hclose
    · next w hparen =>
        obtain ⟨rfl, rfl⟩ := Prod.mk.inj (Option.some.inj hclose)
        rw [hback, hparen] at hstring
        exact ⟨contents, g, hstring, hg, rfl⟩
    · exact absurd hclose (by simp)
  · rintro ⟨contents, g, hstring, hg, rfl⟩
    have hback : Text.trimStart (g ++ ')' :: after) = ')' :: after :=
      Text.trimStart_append hg fun c hc => Option.some.inj hc ▸ (by decide)
    rw [hstring, Option.bind_some]
    simp only [hback]

/-- In the parentheses of `url(`, a path without quotes is read up to the parenthesis. -/
theorem readUrl?_bare_iff {t path after : Text} (h : startsQuoted (Text.trimStart t) = false) :
    readUrl? t = some (path, after) ↔
      ∃ p, t = p ++ ')' :: after ∧ (∀ c ∈ p, c ≠ '\n' ∧ c ≠ ';' ∧ c ≠ ')') ∧
        path = Text.trim p := by
  rw [readUrl?, if_neg (by rw [h]; exact Bool.false_ne_true)]
  have hdrop (p v : Text) : (p ++ ')' :: v).drop (p.length + 1) = v := by
    rw [show p ++ ')' :: v = (p ++ [')']) ++ v by simp,
      show p.length + 1 = (p ++ [')']).length by simp, List.drop_left]
  constructor
  · intro hread
    obtain ⟨⟨p, b⟩, hcut, hp⟩ := Option.map_eq_some_iff.mp hread
    obtain ⟨rfl, rfl⟩ := Prod.mk.inj hp
    obtain ⟨v, rfl, hline⟩ := cutAtParen_iff.mp ⟨b, hcut⟩
    exact ⟨p, by rw [hdrop], hline, rfl⟩
  · rintro ⟨p, rfl, hline, rfl⟩
    obtain ⟨b, hcut⟩ := cutAtParen_iff.mpr ⟨after, rfl, hline⟩
    simp only [hcut, Option.map_some, hdrop]

/-- **A path is read** exactly when it stands there in one of the three ways. -/
theorem readPath?_eq_some_iff {t path after : Text} :
    readPath? t = some (path, after) ↔ ReadsPath t path after := by
  have hurl {u : Text} (hu : IsUrlWord u) (v : Text) : readPath? (u ++ v) = readUrl? v := by
    rw [readPath?, if_neg (by rw [hu.startsQuoted_append]; exact Bool.false_ne_true),
      afterUrl?_eq_some_iff.mpr ⟨u, hu, rfl⟩, Option.bind_some]
  constructor
  · intro h
    rw [readPath?] at h
    split at h
    · obtain ⟨⟨contents, v⟩, hread, hp⟩ := Option.map_eq_some_iff.mp h
      obtain ⟨rfl, rfl⟩ := Prod.mk.inj hp
      exact .quoted hread
    · obtain ⟨v, hafter, hread⟩ := Option.bind_eq_some_iff.mp h
      obtain ⟨u, hu, rfl⟩ := afterUrl?_eq_some_iff.mp hafter
      cases hquote : startsQuoted (Text.trimStart v) with
      | true =>
          obtain ⟨contents, g', hstring, hg', rfl⟩ := (readUrl?_quoted_iff hquote).mp hread
          obtain ⟨g, hg, hfront⟩ := Text.exists_eq_append_trimStart v
          rw [hfront]
          exact .urlQuoted hu hg hstring hg'
      | false =>
          obtain ⟨p, rfl, hline, rfl⟩ := (readUrl?_bare_iff hquote).mp hread
          rw [startsQuoted_trimStart_paren] at hquote
          exact .urlBare hu hquote hline
  · intro h
    cases h with
    | quoted string =>
        rw [readPath?, if_pos (startsQuoted_of_readQuoted? string).1, string]
        rfl
    | @urlQuoted u g v contents g' after url gap string gap' =>
        obtain ⟨hquote, htrim⟩ := startsQuoted_of_readQuoted? string
        have hfront : Text.trimStart (g ++ v) = v := by
          rw [Text.trimStart, List.dropWhile_append_of_pos gap]
          exact htrim
        rw [hurl url]
        exact (readUrl?_quoted_iff (hfront.symm ▸ hquote)).mpr
          ⟨contents, g', hfront.symm ▸ string, gap', rfl⟩
    | @urlBare u p after url bare line =>
        rw [hurl url]
        exact (readUrl?_bare_iff (by rwa [startsQuoted_trimStart_paren])).mpr ⟨p, rfl, line, rfl⟩

/-- What follows a path is what is left of the text behind it, and the path ends in a quote or in a
parenthesis. -/
theorem ReadsPath.exists_append {t path after : Text} (h : ReadsPath t path after) :
    ∃ written c, t = written ++ c :: after ∧ c ∈ ['\'', '"', ')'] := by
  cases h with
  | @quoted t contents after string =>
      obtain ⟨kind, hline, rfl⟩ := append_of_readQuoted? string
      exact ⟨kind.delimiter :: contents, kind.delimiter, rfl,
        List.mem_append_left [')'] (LiteralKind.delimiter_mem hline)⟩
  | @urlQuoted u g t contents g' after url gap string gap' =>
      obtain ⟨kind, -, rfl⟩ := append_of_readQuoted? string
      exact ⟨u ++ (g ++ kind.delimiter :: (contents ++ kind.delimiter :: g')), ')',
        by simp only [List.append_assoc, List.cons_append], by decide⟩
  | @urlBare u p after url bare line => exact ⟨u ++ p, ')', by rw [List.append_assoc], by decide⟩

theorem eq_paren_of_toLower {c : Char} (h : c.toLower = '(') : c = '(' := by
  unfold Char.toLower at h
  split at h
  · next hupper =>
      -- an upper case letter has a lower case letter
      have hlow : 65 ≤ c.val.toNat := UInt32.le_iff_toNat_le.mp hupper.1
      have hhigh : c.val.toNat ≤ 90 := UInt32.le_iff_toNat_le.mp hupper.2
      have hval : (c.val + 32).toNat = 40 := congrArg (fun d : Char => d.val.toNat) h
      rw [UInt32.toNat_add, show (32 : UInt32).toNat = 32 from rfl] at hval
      omega
  · exact h

theorem IsUrlWord.mem {u : Text} (h : IsUrlWord u) : '(' ∈ u := by
  have hmem : '(' ∈ Text.toLower u := by
    rw [h]
    decide
  obtain ⟨c, hc, hlower⟩ := List.mem_map.mp hmem
  exact eq_paren_of_toLower hlower ▸ hc

/-- No path is read without a quote or an opening parenthesis. -/
theorem ReadsPath.exists_mem {t path after : Text} (h : ReadsPath t path after) :
    ∃ c ∈ t, c ∈ ['\'', '"', '('] := by
  cases h with
  | quoted string =>
      obtain ⟨kind, hline, rfl⟩ := append_of_readQuoted? string
      exact ⟨kind.delimiter, List.mem_cons_self,
        List.mem_append_left ['('] (LiteralKind.delimiter_mem hline)⟩
  | urlQuoted url gap string gap' => exact ⟨'(', List.mem_append_left _ url.mem, by decide⟩
  | urlBare url bare line => exact ⟨'(', List.mem_append_left _ url.mem, by decide⟩

/-! ## Rules -/

variable {c : Cursor} {d : Declaration}

/-- The module of a path that is not blank. -/
def modulePath (path : Text) : Text :=
  if Path.isNetwork path then path else Path.withMarker path

theorem atRule_iff : atRule c = true ↔
    ∃ after, c.rest = keyword ++ after ∧
      ∀ x, after.head? = some x → Text.isIdentifierPart x = false ∧ x ≠ '-' := by
  rw [atRule]
  cases hfront : List.isPrefixOf? keyword c.rest with
  | none =>
      refine ⟨fun h => absurd h Bool.false_ne_true, ?_⟩
      rintro ⟨after, hrest, -⟩
      rw [hrest, Text.isPrefixOf?_append] at hfront
      exact absurd hfront (by simp)
  | some after =>
      have hrest := List.append_eq_of_isPrefixOf?_eq_some hfront
      have hsame (u : Text) : c.rest = keyword ++ u ↔ u = after := by
        rw [← hrest]
        exact ⟨fun h => (List.append_cancel_left h).symm, fun h => h ▸ rfl⟩
      simp only [hsame, exists_eq_left]
      cases after with
      | nil => simp
      | cons x u => simp

theorem ruleAt?_eq_some_iff : ruleAt? c = some d ↔
    ∃ path after, ReadsPath (c.forward keyword.length).skipTrivia.rest path after ∧ path ≠ [] ∧
      d = ⟨modulePath path, [], c.spanTo after, false⟩ := by
  rw [ruleAt?, Option.bind_eq_some_iff]
  constructor
  · rintro ⟨⟨path, after⟩, hread, hd⟩
    split at hd
    · exact absurd hd (by simp)
    · next hne =>
        refine ⟨path, after, readPath?_eq_some_iff.mp hread, ?_, (Option.some.inj hd).symm⟩
        rintro rfl
        exact hne rfl
  · rintro ⟨path, after, hread, hne, rfl⟩
    refine ⟨(path, after), readPath?_eq_some_iff.mpr hread, ?_⟩
    rw [if_neg (by rw [List.isEmpty_iff]; exact hne)]
    rfl

/-- A rule that is found has its keyword there, then trivia and its path, and the visits resume behind
it. -/
theorem exists_of_look (h : (look c).1 = some d) :
    ∃ gap t path after, c.rest = keyword ++ (Run.join gap ++ t) ∧
      (∀ r ∈ gap, Run.isTrivia r = true) ∧ ReadsPath t path after ∧ path ≠ [] ∧
      d = ⟨modulePath path, [], c.spanTo after, false⟩ ∧ (look c).2 = .resume d.span.stop := by
  rw [look] at h ⊢
  split at h
  · next hword =>
      rw [if_pos hword]
      cases hrule : ruleAt? c with
      | none =>
          rw [hrule] at h
          exact absurd h (by simp)
      | some e =>
          rw [hrule] at h
          obtain rfl : e = d := Option.some.inj h
          obtain ⟨path, after, hread, hne, hd⟩ := ruleAt?_eq_some_iff.mp hrule
          obtain ⟨u, hrest, -⟩ := atRule_iff.mp hword
          have hgap := Cursor.reaches_skipTrivia (c.forward keyword.length)
          refine ⟨(runs (c.forward keyword.length).rest).takeWhile Run.isTrivia, _, path, after, ?_,
            fun r hr => List.mem_takeWhile_imp hr, hread, hne, hd, rfl⟩
          rw [← hgap.rest_eq, Cursor.forward_of_append hrest, hrest]
  · exact absurd h (by simp)

end StyleImport

end ScriptSurvey
