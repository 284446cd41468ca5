import ScriptSurvey.Proofs.Import.Walk
import ScriptSurvey.Proofs.Lexical.Uncommented

/-!
# Quoted strings

Where a string in single or double quotes is closed by its own quote, its contents are read as they
stand, with every backslash in them. So is the path of a module, and so is a name in quotes.
-/

namespace ScriptSurvey

/-- A string in single or double quotes that its own quote closes. -/
def Text.IsClosedQuote (t : Text) : Prop :=
  ∃ (kind : LiteralKind) (body : Text), kind.endsAtLineFeed = true ∧ t = kind.delimiter :: body ∧
    Body.ofLiteral kind body = ⟨body, [], true⟩

/-- A literal that the end of a line ends is one in quotes. -/
theorem LiteralKind.delimiter_mem {kind : LiteralKind} (h : kind.endsAtLineFeed = true) :
    kind.delimiter ∈ ['\'', '"'] := by
  cases kind with
  | single => decide
  | double => decide
  | template => exact absurd h Bool.false_ne_true

theorem startsQuoted_delimiter {kind : LiteralKind} (h : kind.endsAtLineFeed = true) (t : Text) :
    startsQuoted (kind.delimiter :: t) = true := by
  cases kind with
  | single => rfl
  | double => rfl
  | template => exact absurd h Bool.false_ne_true

/-- One more character in front does not make a backslash at the end a lone one. -/
theorem endsInLoneBackslash_cons {t : Text} (h : endsInLoneBackslash t = false) (hne : t ≠ [])
    (c : Char) : endsInLoneBackslash (c :: t) = false := by
  have hrev : t.reverse ≠ [] := fun he => hne (List.reverse_eq_nil_iff.mp he)
  unfold endsInLoneBackslash at h ⊢
  rw [List.reverse_cons]
  generalize t.reverse = r at h hrev
  match r with
  | [] => exact absurd rfl hrev
  | [d] =>
      by_cases hd : d = '\\'
      · subst hd
        exact absurd h (by decide)
      · simp [hd]
  | d :: e :: r =>
      by_cases hd : d = '\\'
      · by_cases he : e = '\\'
        · simp [hd, he]
        · simp [hd, he] at h
      · simp [hd]

/-- The body of a closed string ends in its delimiter, with no lone backslash in front of that. -/
theorem Body.exists_contents {kind : LiteralKind} {body : Text}
    (h : Body.ofLiteral kind body = ⟨body, [], true⟩) :
    ∃ contents, body = contents ++ [kind.delimiter] ∧ endsInLoneBackslash contents = false := by
  -- along the scan of the string: an escape takes two characters, so no backslash is left alone
  induction body using literal_induction kind with
  | nil => exact absurd h (by simp [ofLiteral])
  | lone => exact absurd h (by simp [ofLiteral])
  | escape c t ih =>
      rw [ofLiteral_escape] at h
      simp only [push, Body.mk.injEq, List.cons.injEq, true_and] at h
      obtain ⟨contents, ht, hlone⟩ := ih (by
        cases hb : ofLiteral kind t
        simp_all)
      refine ⟨'\\' :: c :: contents, by rw [ht]; rfl, ?_⟩
      cases contents with
      | nil =>
          by_cases hc : c = '\\'
          · subst hc
            rfl
          · simp [endsInLoneBackslash, hc]
      | cons d contents =>
          exact endsInLoneBackslash_cons (endsInLoneBackslash_cons hlone (List.cons_ne_nil _ _) c)
            (List.cons_ne_nil _ _) '\\'
  | delimiter t =>
      rw [ofLiteral_delimiter] at h
      simp only [Body.mk.injEq, List.cons.injEq, true_and, and_true] at h
      exact ⟨[], by rw [h.2]; rfl, rfl⟩
  | lineFeed t hk =>
      rw [ofLiteral_lineFeed hk] at h
      exact absurd h (by simp)
  | inside c t hc hd hn ih =>
      rw [ofLiteral_inside hc hd hn] at h
      simp only [push, Body.mk.injEq, List.cons.injEq, true_and] at h
      obtain ⟨contents, ht, hlone⟩ := ih (by
        cases hb : ofLiteral kind t
        simp_all)
      refine ⟨c :: contents, by rw [ht]; rfl, ?_⟩
      cases contents with
      | nil => simp [endsInLoneBackslash, hc]
      | cons d contents => exact endsInLoneBackslash_cons hlone (List.cons_ne_nil _ _) c

/-- What a scan finds behind a quote is read, unless there is a lone backslash at its end. -/
theorem readQuoted?_of_ofLiteral {kind : LiteralKind} {u contents rest : Text}
    (hline : kind.endsAtLineFeed = true)
    (hbody : Body.ofLiteral kind u = ⟨contents ++ [kind.delimiter], rest, true⟩)
    (hlone : endsInLoneBackslash contents = false) :
    readQuoted? (kind.delimiter :: u) = some (contents, rest) := by
  rw [readQuoted?, Text.first_delimiter, hbody]
  simp only [Step.ofBody, List.singleton_append, List.dropLast_concat, List.getLast?_concat, hlone,
    hline, Bool.not_false, Bool.not_true, beq_self_eq_true, Bool.and_true, if_true]

/-- A closed string is read whole, whatever follows. -/
theorem readQuoted?_append {kind : LiteralKind} {contents : Text} (hline : kind.endsAtLineFeed = true)
    (hbody : Body.ofLiteral kind (contents ++ [kind.delimiter]) =
      ⟨contents ++ [kind.delimiter], [], true⟩)
    (hlone : endsInLoneBackslash contents = false) (t : Text) :
    readQuoted? (kind.delimiter :: (contents ++ [kind.delimiter]) ++ t) = some (contents, t) := by
  rw [List.cons_append]
  refine readQuoted?_of_ofLiteral hline ?_ hlone
  rw [Body.ofLiteral_append_of_closed (by rw [hbody]), hbody]
  rfl

namespace Text.IsClosedQuote

variable {q : Text}

theorem uncommented (h : q.IsClosedQuote) (P : Char → Prop) : q.Uncommented P := by
  obtain ⟨kind, body, -, rfl, hbody⟩ := h
  rw [← List.append_nil (kind.delimiter :: body)]
  exact .literal hbody .nil

theorem startsQuoted (h : q.IsClosedQuote) : startsQuoted q = true := by
  obtain ⟨kind, body, hline, rfl, -⟩ := h
  exact startsQuoted_delimiter hline body

/-- It begins and ends in its quote. -/
theorem exists_contents (h : q.IsClosedQuote) : ∃ (kind : LiteralKind) (contents : Text),
    kind.endsAtLineFeed = true ∧ q = kind.delimiter :: (contents ++ [kind.delimiter]) ∧
      ∀ t, readQuoted? (q ++ t) = some (contents, t) := by
  obtain ⟨kind, body, hline, rfl, hbody⟩ := h
  obtain ⟨contents, rfl, hlone⟩ := Body.exists_contents hbody
  exact ⟨kind, contents, hline, rfl, fun t => readQuoted?_append hline hbody hlone t⟩

end Text.IsClosedQuote

/-- **What is read as a string** begins with a quote, and behind the contents stands the quote that
ends the string. -/
theorem exists_of_readQuoted? {t contents rest : Text} (h : readQuoted? t = some (contents, rest)) :
    ∃ (kind : LiteralKind) (u : Text), kind.endsAtLineFeed = true ∧ t = kind.delimiter :: u ∧
      Body.ofLiteral kind u = ⟨contents ++ [kind.delimiter], rest, true⟩ ∧
      endsInLoneBackslash contents = false := by
  cases t with
  | nil => exact absurd h (by simp [readQuoted?])
  | cons c t =>
      rw [readQuoted?] at h
      have hs := Step.isFirst c t
      generalize Step.first c t = s at hs h
      cases hs with
      | line t => exact absurd h (by simp)
      | block t => exact absurd h (by simp [Step.ofBody])
      | code _ _ => exact absurd h (by simp)
      | literal kind t =>
          generalize hbody : Body.ofLiteral kind t = b at h
          obtain ⟨body, rest', closed⟩ := b
          simp only [Step.ofBody, List.singleton_append, Bool.not_not, Option.ite_none_right_eq_some,
            Bool.and_eq_true, beq_iff_eq, Bool.not_eq_true', Option.some.injEq, Prod.mk.injEq] at h
          obtain ⟨⟨⟨⟨hline, rfl⟩, hlast⟩, hlone⟩, rfl, rfl⟩ := h
          refine ⟨kind, t, hline, rfl, ?_, hlone⟩
          rw [hbody, List.dropLast_append_getLast? kind.delimiter hlast]

/-- The contents stand between two quotes of one kind, and the rest behind them. -/
theorem append_of_readQuoted? {t contents rest : Text} (h : readQuoted? t = some (contents, rest)) :
    ∃ kind : LiteralKind, kind.endsAtLineFeed = true ∧
      t = kind.delimiter :: (contents ++ kind.delimiter :: rest) := by
  obtain ⟨kind, u, hline, rfl, hbody, -⟩ := exists_of_readQuoted? h
  have happend := Body.ofLiteral_append kind u
  rw [hbody, List.append_assoc] at happend
  exact ⟨kind, hline, congrArg (_ :: ·) happend.symm⟩

/-- Whether a text is a closed string with the given contents. -/
structure Text.Quotes (q contents : Text) : Prop where
  closed : q.IsClosedQuote
  read : ∀ t, readQuoted? (q ++ t) = some (contents, t)

/-- Contents that the quote behind them closes, and nothing before it, are those of the string. -/
theorem Text.quotes_of_ofLiteral {kind : LiteralKind} {contents : Text}
    (hline : kind.endsAtLineFeed = true)
    (hbody : Body.ofLiteral kind (contents ++ [kind.delimiter]) =
      ⟨contents ++ [kind.delimiter], [], true⟩) :
    Quotes (kind.delimiter :: (contents ++ [kind.delimiter])) contents where
  closed := ⟨kind, _, hline, rfl, hbody⟩
  read t := by
    obtain ⟨contents', hsame, hlone⟩ := Body.exists_contents hbody
    rw [← List.append_cancel_right hsame] at hlone
    exact readQuoted?_append hline hbody hlone t

/-- A quoted path is a string with that path in it. -/
theorem QuotedPath.quotes (k : QuotedPath) : (Token.path k).text.Quotes k.text :=
  Text.quotes_of_ofLiteral k.endsAtLineFeed k.ofLiteral_body

namespace Text.Quotes

variable {q contents : Text}

theorem startsQuoted (h : q.Quotes contents) (t : Text) : startsQuoted (q ++ t) = true := by
  obtain ⟨kind, body, hline, rfl, -⟩ := h.closed
  exact startsQuoted_delimiter hline (body ++ t)

/-- A string does not go on with a word. -/
theorem endsWord (h : q.Quotes contents) (t : Text) : EndsWord (q ++ t) := by
  obtain ⟨kind, body, hline, rfl, -⟩ := h.closed
  refine endsWord_cons ?_ (body ++ t)
  cases kind with
  | single => rfl
  | double => rfl
  | template => exact absurd hline Bool.false_ne_true

/-- A string is no trivia. -/
theorem skipTrivia_eq (h : q.Quotes contents) (p t : Text) :
    Cursor.skipTrivia ⟨p, q ++ t, .code⟩ = ⟨p, q ++ t, .code⟩ := by
  obtain ⟨kind, body, -, rfl, hbody⟩ := h.closed
  exact (Cursor.skipTrivia_of_leads (leads_literal hbody t) p .code).trans
    (if_neg Bool.false_ne_true)

end Text.Quotes

end ScriptSurvey
