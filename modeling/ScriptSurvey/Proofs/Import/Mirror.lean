import ScriptSurvey.Proofs.Import.ClauseEnd
import ScriptSurvey.Proofs.Import.Literal
import ScriptSurvey.Proofs.Lexical.Ends

/-!
# A text and what is left of it, side by side

A cursor in a text is **mirrored** by one in the text without its comments when the comments are all
that is missing in what lies ahead. What lies behind them may differ. A keyword is told from the
middle of a word by the character in front of it, and there the two have to agree, if a word begins
at them at all. They do so behind a comment, which leaves no word to go on with: a block comment ends
in `/`, a line comment in front of the end of its line, and a space stands for either.

Mirrored cursors move side by side. Past a comment, the one moves over all of it and the other over
one space; nothing that a reader of declarations looks for is lost or found on the way.
-/

namespace ScriptSurvey

/-! ## What lies ahead -/

theorem endsWord_stripComments {t : Text} :
    Text.EndsWord (stripComments t) ↔ Text.EndsWord t := by
  rcases head?_stripComments t with hsame | ⟨hslash, hspace⟩
  · rw [Text.EndsWord, Text.EndsWord, hsame]
  · have hends {s : Text} {c : Char} (hs : s.head? = some c)
        (hc : Text.isIdentifierPart c = false) : Text.EndsWord s := by
      intro d hd
      exact Option.some.inj (hs.symm.trans hd) ▸ hc
    exact iff_of_true (hends hspace (by decide)) (hends hslash (by decide))

theorem startsQuoted_stripComments (t : Text) :
    startsQuoted (stripComments t) = startsQuoted t := by
  have hhead (s : Text) : startsQuoted s = (s.head?.any fun c => c == '\'' || c == '"') := by
    cases s <;> rfl
  rw [hhead, hhead]
  rcases head?_stripComments t with hsame | ⟨hslash, hspace⟩
  · rw [hsame]
  · rw [hslash, hspace]
    rfl

/-- A string is read as before, and behind it stands what is left of the rest. -/
theorem readQuoted?_stripComments (t : Text) :
    readQuoted? (stripComments t) = (readQuoted? t).map fun p => (p.1, stripComments p.2) := by
  cases t with
  | nil =>
      rw [stripComments_nil]
      rfl
  | cons c t =>
      obtain ⟨d, u, hcons, hfirst⟩ := Step.exists_first_stripComments c t
      rw [hcons, readQuoted?, readQuoted?, hfirst]
      generalize Step.first c t = s
      obtain ⟨r, rest, isOpen⟩ := s
      cases r with
      | code x => rfl
      | comment kind x => rfl
      | literal kind x =>
          cases x with
          | nil => rfl
          | cons quote body =>
              simp only [Step.blanked, Run.blankComment, Run.mode, Mode.isComment, Bool.not_false,
                Bool.and_true]
              split <;> rfl

/-- What is read as a string is the first run. -/
theorem exists_first_of_readQuoted? {t contents rest : Text}
    (h : readQuoted? t = some (contents, rest)) :
    ∃ x u, t = x :: u ∧ (Step.first x u).rest = rest := by
  obtain ⟨kind, u, -, rfl, hbody, -⟩ := exists_of_readQuoted? h
  refine ⟨_, u, rfl, ?_⟩
  rw [Text.first_delimiter, hbody]
  rfl

namespace Cursor

/-! ## Mirrored cursors -/

/-- Whether what lies ahead of the second cursor is what is left of what lies ahead of the first, and
a keyword that begins there is one at both or at neither. -/
structure MirroredBy (c c' : Cursor) : Prop where
  rest : c'.rest = stripComments c.rest
  behind : ¬Text.EndsWord c.rest → (AllowsWord c.passed ↔ AllowsWord c'.passed)

theorem allowsWord_append_iff {s : Text} (h : s ≠ []) (p q : Text) :
    AllowsWord (s.reverse ++ p) ↔ AllowsWord (s.reverse ++ q) := by
  have hhead (v : Text) : (s.reverse ++ v).head? = s.getLast? := by
    rw [List.head?_append, List.head?_reverse, List.getLast?_eq_some_getLast h, Option.some_or]
  rw [AllowsWord, AllowsWord, hhead, hhead]

/-- A word that begins behind the first run may be a keyword exactly if it may be one behind what is
left of the run. -/
theorem allowsWord_first (x : Char) (t p q : Text)
    (hword : ¬Text.EndsWord (Step.first x t).rest) :
    AllowsWord ((Step.first x t).run.text.reverse ++ p) ↔
      AllowsWord ((Step.first x t).run.blankComment.text.reverse ++ q) := by
  have hspace : AllowsWord ([' '].reverse ++ q) :=
    allowsWord_cons (Text.isApart_of_isBlank (by decide)) q
  have hends := Run.endsBefore_first x t
  have hs := Step.isFirst x t
  generalize Step.first x t = s at hs hends hword ⊢
  cases hs with
  | line t =>
      -- the end of the line, or of the text, begins no word
      refine absurd (fun d hd => ?_) hword
      rcases hends with hnil | hline
      · exact absurd hd (by rw [hnil]; simp)
      · exact Option.some.inj (hline.symm.trans hd) ▸ (by decide)
  | block t =>
      cases hclosed : (Body.ofBlock t).closed with
      | false =>
          -- nothing follows a comment without its end
          have hnil : (Step.ofBody (.comment .block) ['/', '*'] (Body.ofBlock t)).rest = [] :=
            Body.ofBlock_rest_of_open hclosed
          rw [hnil] at hword
          exact absurd (fun d hd => absurd hd (by simp)) hword
      | true =>
          -- the word stands behind a slash, or behind the space
          refine iff_of_true (fun d hd => ?_) hspace
          have hlast := Body.getLast?_ofBlock hclosed
          rw [List.head?_append, List.head?_reverse] at hd
          simp only [Step.ofBody, Run.text, List.cons_append, List.nil_append, List.getLast?_cons,
            hlast, Option.getD_some, Option.some_or, Option.some.injEq] at hd
          rw [← hd]
          unfold Text.IsApart
          decide
  | literal kind t => exact allowsWord_append_iff (List.cons_ne_nil _ _) _ _
  | code _ _ => exact allowsWord_append_iff (List.cons_ne_nil _ _) _ _

namespace MirroredBy

variable {c c' : Cursor}

theorem ofText (t : Text) : (Cursor.ofText t).MirroredBy (Cursor.ofText (stripComments t)) :=
  ⟨rfl, fun _ => Iff.rfl⟩

/-- The mode makes no difference. -/
theorem code (h : c.MirroredBy c') :
    MirroredBy ⟨c.passed, c.rest, .code⟩ ⟨c'.passed, c'.rest, .code⟩ :=
  ⟨h.rest, h.behind⟩

theorem atQuote_eq (h : c.MirroredBy c') : ScriptImport.atQuote c' = ScriptImport.atQuote c := by
  rw [ScriptImport.atQuote, ScriptImport.atQuote, h.rest, startsQuoted_stripComments]

/-- The same keywords stand at both. -/
theorem atKeyword_eq (h : c.MirroredBy c') (w : Name) :
    c'.atKeyword w.text = c.atKeyword w.text := by
  have hplain : ∀ d ∈ w.text, Text.isPlain d = true ∧ d ≠ ' ' := fun d hd =>
    ⟨Text.isPlain_of_isIdentifierPart (w.isPart hd), Text.ne_of_isIdentifierPart (w.isPart hd) rfl⟩
  have hbehind {after : Text} (hrest : c.rest = w.text ++ after) :
      AllowsWord c.passed ↔ AllowsWord c'.passed := by
    -- the keyword itself is the word that begins there
    refine h.behind fun hends => ?_
    obtain ⟨d, s, hw, hd⟩ := w.exists_cons
    exact Bool.false_ne_true ((hends d (by rw [hrest, hw]; rfl)).symm.trans hd)
  rw [Bool.eq_iff_iff, atKeyword_iff, atKeyword_iff]
  constructor
  · rintro ⟨hp, after', hrest', ht⟩
    obtain ⟨after, hrest, rfl⟩ := exists_of_stripComments hplain (h.rest.symm.trans hrest')
    exact ⟨(hbehind hrest).mpr hp, after, hrest, endsWord_stripComments.mp ht⟩
  · rintro ⟨hp, after, hrest, ht⟩
    refine ⟨(hbehind hrest).mp hp, stripComments after, ?_, endsWord_stripComments.mpr ht⟩
    rw [h.rest, hrest]
    exact (Token.word w).stripComments_append after

/-! ## Side by side -/

/-- Over a word. -/
theorem forward (h : c.MirroredBy c') {w : Name} {after : Text} (hrest : c.rest = w.text ++ after) :
    (c.forward w.text.length).MirroredBy (c'.forward w.text.length) := by
  have hrest' : c'.rest = w.text ++ stripComments after := by
    rw [h.rest, hrest]
    exact (Token.word w).stripComments_append after
  obtain ⟨d, s, hw, -⟩ := w.exists_cons
  rw [forward_of_append hrest, forward_of_append hrest']
  exact ⟨rfl, fun _ => allowsWord_append_iff (by rw [hw]; exact List.cons_ne_nil _ _) _ _⟩

/-- Over one run, or over its space. -/
theorem past (h : c.MirroredBy c') {x : Char} {t : Text} (hrest : c.rest = x :: t) :
    ∃ y u, c'.rest = y :: u ∧ Step.first y u = (Step.first x t).blanked ∧
      (c.past (Step.first x t)).MirroredBy (c'.past (Step.first y u)) := by
  obtain ⟨y, u, hcons, hfirst⟩ := Step.exists_first_stripComments x t
  refine ⟨y, u, by rw [h.rest, hrest, hcons], hfirst, by rw [Cursor.past, hfirst]; rfl, ?_⟩
  rw [Cursor.past, Cursor.past, hfirst]
  exact allowsWord_first x t c.passed c'.passed

/-- Over white space and comments. -/
theorem skipTrivia (h : c.MirroredBy c') : c.skipTrivia.MirroredBy c'.skipTrivia := by
  fun_induction Cursor.skipTrivia c generalizing c' with
  | case1 c hnil =>
      rw [skipTrivia_of_nil (by rw [h.rest, hnil, stripComments_nil])]
      exact h
  | case2 c x t hrest htrivia ih =>
      obtain ⟨y, u, hrest', hfirst, hpast⟩ := h.past hrest
      rw [skipTrivia_of_cons hrest', if_pos]
      · exact ih hpast
      · rw [hfirst]
        exact (Run.isTrivia_blankComment _).trans htrivia
  | case3 c x t hrest htrivia =>
      obtain ⟨y, u, hrest', hfirst, -⟩ := h.past hrest
      rw [skipTrivia_of_cons hrest', if_neg]
      · exact h
      · rw [hfirst]
        exact fun htrue => htrivia ((Run.isTrivia_blankComment _).symm.trans htrue)

end MirroredBy

end Cursor

end ScriptSurvey
