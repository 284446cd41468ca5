import ScriptSurvey.Proofs.Plan.Writable

/-!
# Paths between quotes

A plan writes the path of a module as a string in single quotes, in which quotes, backslashes and line
feeds are escaped. The reader of declarations keeps what stands between the quotes as it is, escapes
and all. So a path comes back **escaped**: it is the same only if nothing in it needs an escape.
-/

namespace ScriptSurvey

namespace Text

/-- What a character is written as between single quotes. -/
def escape (c : Char) : Text :=
  if c = '\\' ∨ c = '\'' then ['\\', c] else if c = '\n' then ['\\', 'n'] else [c]

/-- What a text is written as between single quotes. -/
def escaped (t : Text) : Text := t.flatMap escape

theorem escape_cases (c : Char) :
    (c = '\\' ∨ c = '\'') ∧ escape c = ['\\', c] ∨ c = '\n' ∧ escape c = ['\\', 'n'] ∨
      (c ≠ '\'' ∧ c ≠ '\\' ∧ c ≠ '\n') ∧ escape c = [c] := by
  unfold escape
  by_cases hmark : c = '\\' ∨ c = '\''
  · exact .inl ⟨hmark, if_pos hmark⟩
  · rw [if_neg hmark]
    rw [not_or] at hmark
    by_cases hline : c = '\n'
    · exact .inr (.inl ⟨hline, if_pos hline⟩)
    · exact .inr (.inr ⟨⟨hmark.2, hmark.1, hline⟩, if_neg hline⟩)

theorem escaped_cons (c : Char) (t : Text) : escaped (c :: t) = escape c ++ escaped t := rfl

/-! ## Reading an escaped text -/

/-- No quote in an escaped text ends the string. -/
theorem ofLiteral_escaped (t : Text) :
    Body.ofLiteral .single (escaped t ++ ['\'']) = ⟨escaped t ++ ['\''], [], true⟩ := by
  induction t with
  | nil => rfl
  | cons c t ih =>
      have hpair (d : Char) : Body.ofLiteral .single ('\\' :: d :: (escaped t ++ ['\''])) =
          ⟨'\\' :: d :: (escaped t ++ ['\'']), [], true⟩ := by
        rw [Body.ofLiteral_escape, ih]
        rfl
      rw [escaped_cons, List.append_assoc]
      rcases escape_cases c with ⟨-, he⟩ | ⟨-, he⟩ | ⟨⟨hquote, hback, hline⟩, he⟩
      · rw [he]
        exact hpair c
      · rw [he]
        exact hpair 'n'
      · have hdelimiter : c ≠ LiteralKind.single.delimiter := hquote
        rw [he, List.singleton_append,
          Body.ofLiteral_inside hback hdelimiter fun h => hline h.1, ih]
        rfl

/-- **What is written between quotes is read as it is written.** -/
theorem quotes_quoteSingle (t : Text) : (quoteSingle t).Quotes (escaped t) :=
  @quotes_of_ofLiteral .single (escaped t) rfl (ofLiteral_escaped t)

/-! ## Texts that need no escape -/

theorem length_le_escaped (t : Text) : t.length ≤ (escaped t).length := by
  induction t with
  | nil => exact Nat.le_refl 0
  | cons c t ih =>
      rw [escaped_cons, List.length_cons, List.length_append]
      rcases escape_cases c with ⟨-, he⟩ | ⟨-, he⟩ | ⟨-, he⟩ <;>
        simp only [he, List.length_cons, List.length_nil] <;> omega

/-- A text is the same with its escapes exactly when it needs none. -/
theorem escaped_eq_self_iff {t : Text} : escaped t = t ↔ IsCleanPath t := by
  induction t with
  | nil => exact ⟨fun _ c hc => absurd hc List.not_mem_nil, fun _ => rfl⟩
  | cons c t ih =>
      -- with an escape it gets longer
      have hlong {d : Char} : ['\\', d] ++ escaped t ≠ c :: t := by
        intro h
        have hlength := congrArg List.length h
        have hle := length_le_escaped t
        simp only [List.length_append, List.length_cons, List.length_nil] at hlength
        omega
      have hcons : IsCleanPath (c :: t) ↔ (c ≠ '\'' ∧ c ≠ '\\' ∧ c ≠ '\n') ∧ IsCleanPath t :=
        List.forall_mem_cons
      rw [escaped_cons, hcons, ← ih]
      rcases escape_cases c with ⟨hmark, he⟩ | ⟨hline, he⟩ | ⟨hclean, he⟩
      · rw [he]
        refine ⟨fun h => absurd h hlong, fun h => ?_⟩
        rcases hmark with hmark | hmark
        · exact absurd hmark h.1.2.1
        · exact absurd hmark h.1.1
      · rw [he]
        exact ⟨fun h => absurd h hlong, fun h => absurd hline h.1.2.2⟩
      · rw [he, List.singleton_append, List.cons_inj_right]
        exact ⟨fun h => ⟨hclean, h⟩, And.right⟩

/-- The first character can be told from what an escaped text begins with. -/
theorem escape_append_inj {c d : Char} {s t : Text} (h : escape c ++ s = escape d ++ t) :
    c = d ∧ s = t := by
  rcases escape_cases c with ⟨hc, he⟩ | ⟨hc, he⟩ | ⟨hc, he⟩ <;>
    rcases escape_cases d with ⟨hd, he'⟩ | ⟨hd, he'⟩ | ⟨hd, he'⟩ <;>
    rw [he, he'] at h <;> grind

theorem escaped_injective : Function.Injective escaped := by
  intro s
  induction s with
  | nil =>
      intro t h
      have hle := length_le_escaped t
      rw [← h] at hle
      exact (List.length_eq_zero_iff.mp (Nat.le_zero.mp hle)).symm
  | cons c s ih =>
      intro t h
      cases t with
      | nil =>
          have hle := length_le_escaped (c :: s)
          rw [h] at hle
          exact absurd hle (Nat.not_succ_le_zero _)
      | cons d t =>
          obtain ⟨rfl, hrest⟩ := escape_append_inj h
          rw [ih hrest]

/-! ## Texts that are read from quotes -/

/-- In a string on one line a line feed stands behind a backslash only. -/
theorem backslash_mem_ofLiteral {kind : LiteralKind} (hline : kind.endsAtLineFeed = true) {t : Text}
    (h : '\n' ∈ (Body.ofLiteral kind t).text) : '\\' ∈ (Body.ofLiteral kind t).text := by
  induction t using Body.literal_induction kind with
  | nil => exact absurd h List.not_mem_nil
  | lone => exact List.mem_cons_self
  | escape c t _ =>
      rw [Body.ofLiteral_escape]
      exact List.mem_cons_self
  | delimiter t =>
      rw [Body.ofLiteral_delimiter] at h
      have hne : '\n' ≠ kind.delimiter := by cases kind <;> decide
      exact absurd (List.mem_singleton.mp h) hne
  | lineFeed t _ =>
      rw [Body.ofLiteral_lineFeed hline] at h
      exact absurd h List.not_mem_nil
  | inside c t hc hd hn ih =>
      rw [Body.ofLiteral_inside hc hd hn] at h ⊢
      rcases List.mem_cons.mp h with hc' | h
      · exact absurd ⟨hc'.symm, hline⟩ hn
      · exact List.mem_cons_of_mem c (ih h)

/-- What is read from quotes needs no escape exactly when it has no quote and no backslash in it. -/
theorem isCleanPath_iff_of_readQuoted? {t contents rest : Text}
    (h : readQuoted? t = some (contents, rest)) :
    IsCleanPath contents ↔ ∀ c ∈ contents, c ≠ '\'' ∧ c ≠ '\\' := by
  obtain ⟨kind, u, hline, -, hbody, -⟩ := exists_of_readQuoted? h
  refine ⟨fun hclean c hc => ⟨(hclean c hc).1, (hclean c hc).2.1⟩, fun hnone c hc => ?_⟩
  refine ⟨(hnone c hc).1, (hnone c hc).2, ?_⟩
  rintro rfl
  -- a line feed would have a backslash in front
  have hback : '\\' ∈ (Body.ofLiteral kind u).text := by
    refine backslash_mem_ofLiteral hline ?_
    rw [hbody]
    exact List.mem_append_left _ hc
  rw [hbody] at hback
  rcases List.mem_append.mp hback with hmem | hmem
  · exact (hnone _ hmem).2 rfl
  · exact Body.delimiter_ne_backslash kind (List.mem_singleton.mp hmem).symm

end Text

end ScriptSurvey
