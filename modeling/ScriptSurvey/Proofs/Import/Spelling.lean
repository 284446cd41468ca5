import ScriptSurvey.Import.Script
import ScriptSurvey.Proofs.Lexical.Stripped
import ScriptSurvey.Proofs.Text.Identifier

/-!
# Tokens, and what may stand between them

An import declaration is written in tokens: words, marks and quoted paths. Between any two of them
there may be **trivia**, which is white space and comments that have their end; between two words
there has to be some, since they would be one word without it. A text that is written so **spells**
the tokens.

A reader meets the same tokens twice. The search for the end of a clause goes over the text as it is
written, and the clause is read from a copy in which each comment has become a space. So what may
stand between tokens is a parameter: trivia in the first text, blanks in the second.
-/

namespace ScriptSurvey

/-! ## Trivia -/

namespace Text

/-- White space, and comments that have their end. A line comment ends at its line feed. -/
inductive IsTrivia : Text → Prop
  | nil : IsTrivia []
  | blank {c : Char} {g : Text} : isBlank c = true → IsTrivia g → IsTrivia (c :: g)
  | block {body g : Text} : ¬['*', '/'] <:+: body → IsTrivia g →
      IsTrivia ('/' :: '*' :: (body ++ ['*', '/']) ++ g)
  | line {body g : Text} : '\n' ∉ body → IsTrivia ('\n' :: g) →
      IsTrivia ('/' :: '/' :: body ++ '\n' :: g)

theorem IsBlanks.isTrivia {g : Text} (h : IsBlanks g) : IsTrivia g := by
  induction g with
  | nil => exact .nil
  | cons c g ih =>
      exact .blank (h c List.mem_cons_self) (ih h.tail)

/-- A block comment ends at the first `*/` behind its opener. -/
theorem ofBlock_of_noEnd {body : Text} (h : ¬['*', '/'] <:+: body) :
    Body.ofBlock (body ++ ['*', '/']) = ⟨body ++ ['*', '/'], [], true⟩ := by
  induction body with
  | nil => rfl
  | cons c body ih =>
      have hstep : ∀ v : Text, c = '*' → body ++ ['*', '/'] = '/' :: v → False := by
        rintro v rfl hv
        cases body with
        | nil => exact absurd hv (by simp)
        | cons d body =>
            rw [List.cons_append, List.cons.injEq] at hv
            rw [hv.1] at h
            exact h ⟨[], body, rfl⟩
      have hbody : ¬['*', '/'] <:+: body := fun hi => h (hi.trans (List.suffix_cons c body).isInfix)
      rw [List.cons_append, Body.ofBlock.eq_3 c _ hstep, ih hbody]
      rfl

/-- Induction over trivia, run by run: a scan finds each run, whatever follows. -/
theorem IsTrivia.run_induction {motive : (g : Text) → IsTrivia g → Prop} (nil : motive [] .nil)
    (run : ∀ (r : Run) (g : Text) (hg : IsTrivia g) (h : IsTrivia (r.text ++ g)),
      (r.mode.isComment = true ∨ ∃ c, r = .code c ∧ isBlank c = true) →
      (∀ t, r.Leads (g ++ t)) → motive g hg → motive (r.text ++ g) h)
    {g : Text} (h : IsTrivia g) : motive g h := by
  induction h with
  | nil => exact nil
  | @blank c g hc hg ih =>
      have hleads := fun t => leads_of_isPlain (isPlain_of_isBlank hc) (g ++ t)
      exact run (.code c) g hg (.blank hc hg) (.inr ⟨c, rfl, hc⟩) hleads ih
  | @block body g hbody hg ih =>
      have hleads := fun t => leads_block (ofBlock_of_noEnd hbody) (g ++ t)
      exact run (.comment .block _) g hg (.block hbody hg) (.inl rfl) hleads ih
  | @line body g hbody hg ih =>
      have hleads (t : Text) : (Run.comment .line ('/' :: '/' :: body)).Leads ('\n' :: g ++ t) :=
        leads_line hbody (.inr rfl)
      exact run (.comment .line _) _ hg (.line hbody hg) (.inl rfl) hleads ih

/-- What follows trivia is scanned as if it stood alone. -/
theorem IsTrivia.sealed {g : Text} (h : IsTrivia g) : g.Sealed := by
  induction h using run_induction with
  | nil => exact .nil
  | run r g _ _ _ hleads ih =>
      intro t
      have hone := (hleads []).runs_append
      rw [List.append_nil] at hone
      rw [List.append_assoc, (hleads t).runs_append, hone, ih t, List.cons_append]

/-- Without its comments, trivia is white space. -/
theorem IsTrivia.isBlanks_stripComments {g : Text} (h : IsTrivia g) :
    IsBlanks (stripComments g) := by
  induction h using run_induction with
  | nil =>
      rw [stripComments_nil]
      exact .nil
  | run r g _ _ hr hleads ih =>
      have hone := (hleads []).runs_append
      rw [List.append_nil] at hone
      have hblank : ∃ d, r.blankComment = .code d ∧ isBlank d = true := by
        rcases hr with hr | ⟨c, rfl, hc⟩
        · cases r with
          | code c => exact absurd hr (by simp [Run.mode, Mode.isComment])
          | comment kind x => exact ⟨' ', rfl, by decide⟩
          | literal kind x => exact absurd hr (by simp [Run.mode, Mode.isComment])
        · exact ⟨c, rfl, hc⟩
      obtain ⟨d, hd, hblank⟩ := hblank
      intro c hc
      rw [stripComments, hone, List.map_cons, hd, Run.join_cons, Run.text,
        List.singleton_append] at hc
      rcases List.mem_cons.mp hc with rfl | hc
      · exact hblank
      · exact ih c hc

/-- A character that neither goes on with a word nor keeps a keyword behind it from being one. -/
def IsApart (c : Char) : Prop :=
  isIdentifierPart c = false ∧ c ≠ '.' ∧ c ≠ '@'

theorem isApart_of_isBlank {c : Char} (h : isBlank c = true) : IsApart c :=
  ⟨isIdentifierPart_of_isBlank h, of_isBlank (P := fun c => c ≠ '.' ∧ c ≠ '@') (by decide) h⟩

/-- Trivia begins apart from a word in front of it, and ends apart from one behind it. -/
theorem IsTrivia.isApart {g : Text} (h : IsTrivia g) :
    (∀ c, g.head? = some c → IsApart c) ∧ ∀ c, g.getLast? = some c → IsApart c := by
  have hslash : IsApart '/' := by unfold IsApart; decide
  have hlast {c d : Char} {g : Text} (hd : IsApart d)
      (hg : ∀ c, g.getLast? = some c → IsApart c) (hc : (d :: g).getLast? = some c) :
        IsApart c := by
    rw [List.getLast?_cons, Option.some.injEq] at hc
    cases hl : g.getLast? with
    | none =>
        rw [hl] at hc
        exact hc ▸ hd
    | some e =>
        rw [hl] at hc
        exact hc ▸ hg e hl
  -- what comes first is a blank or a slash, and so is what comes last: a line comment has its line feed
  induction h with
  | nil => exact ⟨by simp, by simp⟩
  | @blank c g hc _ ih =>
      have hd := isApart_of_isBlank hc
      refine ⟨?_, fun e he => hlast hd ih.2 he⟩
      intro e he
      rw [List.head?_cons, Option.some.injEq] at he
      exact he ▸ hd
  | @block body g _ _ ih =>
      refine ⟨by rintro c ⟨⟩; exact hslash, fun c hc => hlast hslash ih.2 ?_⟩
      simpa [List.getLast?_append, List.getLast?_cons] using hc
  | @line body g _ _ ih =>
      refine ⟨by rintro c ⟨⟩; exact hslash, fun c hc => ih.2 c ?_⟩
      simpa [List.getLast?_append, List.getLast?_cons] using hc

/-- Trivia ends a word in front of it, unless there is none of it. -/
theorem IsTrivia.endsWord {g t : Text} (hg : IsTrivia g) (h : g = [] → EndsWord t) :
    EndsWord (g ++ t) := by
  intro c hc
  cases g with
  | nil => exact h rfl c hc
  | cons d g => exact (hg.isApart.1 c hc).1

end Text

/-! ## Tokens -/

/-- An identifier. -/
structure Name where
  text : Text
  isIdentifier : Text.isIdentifier text = true

/-- A module path in quotes: on one line, without an escape and without its own quote. -/
structure QuotedPath where
  kind : LiteralKind
  text : Text
  endsAtLineFeed : kind.endsAtLineFeed = true
  isClean : ∀ c ∈ text, c ≠ kind.delimiter ∧ c ≠ '\\' ∧ c ≠ '\n'

/-- The marks in and behind an import declaration. -/
inductive Mark where
  | opening
  | closing
  | star
  | comma
  | semicolon
deriving DecidableEq

/-- The character of a mark. -/
def Mark.char : Mark → Char
  | opening => '\x7b'
  | closing => '\x7d'
  | star => '*'
  | comma => ','
  | semicolon => ';'

/-- What an import declaration is written in. -/
inductive Token where
  | word (w : Name)
  | mark (m : Mark)
  | path (q : QuotedPath)

namespace Token

/-- The characters of a token. -/
def text : Token → Text
  | word w => w.text
  | mark m => [m.char]
  | path q => q.kind.delimiter :: (q.text ++ [q.kind.delimiter])

/-- Whether a token is a path. -/
def isPath : Token → Bool
  | path _ => true
  | _ => false

/-- Whether a token is a word. -/
def isWord : Token → Bool
  | word _ => true
  | _ => false

/-- Whether the first of the tokens is a word. -/
def StartsWithWord : List Token → Prop
  | word _ :: _ => True
  | _ => False

theorem startsWithWord_append {ks : List Token} (h : StartsWithWord ks) (ls : List Token) :
    StartsWithWord (ks ++ ls) := by
  cases ks with
  | nil => exact h.elim
  | cons k ks =>
      cases k with
      | word w => trivial
      | mark m => exact h.elim
      | path q => exact h.elim

/-- Whether a token would be one word with the first of the tokens behind it. -/
def MeetsWord (k : Token) (ks : List Token) : Prop :=
  k.isWord = true ∧ StartsWithWord ks

end Token

/-- Whether a text consists of the tokens, with a gap behind each of them. A gap that keeps two
words apart is not empty. -/
inductive Spells (IsGap : Text → Prop) : List Token → Text → Prop
  | nil : Spells IsGap [] []
  | cons {k : Token} {ks : List Token} {g t : Text} : IsGap g → (k.MeetsWord ks → g ≠ []) →
      Spells IsGap ks t → Spells IsGap (k :: ks) (k.text ++ (g ++ t))

namespace Name

theorem exists_cons (w : Name) : ∃ c t, w.text = c :: t ∧ Text.isIdentifierPart c = true := by
  obtain ⟨c, t, h⟩ := List.exists_cons_of_ne_nil (Text.ne_nil_of_isIdentifier w.isIdentifier)
  have hc : c ∈ w.text := by rw [h]; exact List.mem_cons_self
  exact ⟨c, t, h, Text.isIdentifierPart_of_mem w.isIdentifier hc⟩

theorem isPart (w : Name) {c : Char} (h : c ∈ w.text) : Text.isIdentifierPart c = true :=
  Text.isIdentifierPart_of_mem w.isIdentifier h

end Name

/-- The body of a quoted path, with its end. -/
theorem QuotedPath.ofLiteral_body (q : QuotedPath) :
    Body.ofLiteral q.kind (q.text ++ [q.kind.delimiter]) =
      ⟨q.text ++ [q.kind.delimiter], [], true⟩ := by
  suffices h : ∀ t : Text, (∀ c ∈ t, c ≠ q.kind.delimiter ∧ c ≠ '\\' ∧ c ≠ '\n') →
      Body.ofLiteral q.kind (t ++ [q.kind.delimiter]) = ⟨t ++ [q.kind.delimiter], [], true⟩ from
    h q.text q.isClean
  intro t ht
  induction t with
  | nil => exact Body.ofLiteral_delimiter q.kind []
  | cons c t ih =>
      obtain ⟨hd, hb, hn⟩ := ht c List.mem_cons_self
      rw [List.cons_append, Body.ofLiteral_inside hb hd fun h => hn h.1,
        ih fun d hd => ht d (List.mem_cons_of_mem c hd)]
      rfl

/-- The run that a quoted path is. -/
def QuotedPath.run (q : QuotedPath) : Run :=
  .literal q.kind (q.kind.delimiter :: (q.text ++ [q.kind.delimiter]))

theorem QuotedPath.leads (q : QuotedPath) (t : Text) : q.run.Leads t :=
  Text.leads_literal q.ofLiteral_body t

namespace Mark

theorem isPlain_char (m : Mark) : Text.isPlain m.char = true := by
  cases m <;> decide

theorem isBlank_char (m : Mark) : Text.isBlank m.char = false := by
  cases m <;> decide

theorem isApart_char (m : Mark) : Text.IsApart m.char := by
  unfold Text.IsApart
  cases m <;> decide

end Mark

theorem Token.sealed_text (k : Token) : k.text.Sealed := by
  cases k with
  | word w =>
      exact Text.sealed_of_isPlain fun c hc => Text.isPlain_of_isIdentifierPart (w.isPart hc)
  | mark m =>
      refine Text.sealed_of_isPlain fun c hc => ?_
      rw [List.mem_singleton.mp hc]
      exact m.isPlain_char
  | path q => exact Run.sealed_of_leads q.leads

/-- No comment is taken out of a token. -/
theorem Token.stripComments_text (k : Token) : stripComments k.text = k.text := by
  have hplain {t : Text} (ht : ∀ c ∈ t, Text.isPlain c = true) : stripComments t = t := by
    have hkeep : (runs t).map Run.blankComment = runs t := by
      rw [Text.runs_of_isPlain ht, List.map_map]
      rfl
    rw [stripComments, hkeep, join_runs]
  cases k with
  | word w => exact hplain fun c hc => Text.isPlain_of_isIdentifierPart (w.isPart hc)
  | mark m => exact hplain fun c hc => List.mem_singleton.mp hc ▸ m.isPlain_char
  | path q =>
      have hone := (q.leads []).runs_append
      rw [List.append_nil, runs_nil] at hone
      rw [stripComments, show (Token.path q).text = q.run.text from rfl, hone]
      simp [QuotedPath.run, Run.blankComment]

theorem Token.stripComments_append (k : Token) (t : Text) :
    stripComments (k.text ++ t) = k.text ++ stripComments t := by
  rw [ScriptSurvey.stripComments_append k.sealed_text, k.stripComments_text]

/-- The first character of a token, which is no trivia. -/
theorem Token.exists_head (k : Token) :
    ∃ c t, k.text = c :: t ∧ Text.isBlank c = false ∧ c ≠ '/' ∧
      (k.isWord = false → Text.IsApart c) ∧
      startsQuoted [c] = k.isPath := by
  cases k with
  | word w =>
      obtain ⟨c, t, hw, hc⟩ := w.exists_cons
      have hne {d : Char} (hd : Text.isIdentifierPart d = false) : c ≠ d :=
        Text.ne_of_isIdentifierPart hc hd
      refine ⟨c, t, hw, Text.isBlank_of_isIdentifierPart hc, hne rfl,
        fun h => absurd h (by simp [isWord]), ?_⟩
      simp only [startsQuoted, isPath, Bool.or_eq_false_iff, beq_eq_false_iff_ne]
      exact ⟨hne rfl, hne rfl⟩
  | mark m =>
      refine ⟨m.char, [], rfl, ?_, ?_, fun _ => m.isApart_char, ?_⟩
      all_goals cases m <;> decide
  | path q =>
      obtain ⟨kind, t, hline, _⟩ := q
      refine ⟨kind.delimiter, _, rfl, ?_⟩
      unfold Text.IsApart
      cases kind with
      | single => exact ⟨by decide, by decide, fun _ => by decide, rfl⟩
      | double => exact ⟨by decide, by decide, fun _ => by decide, rfl⟩
      | template => exact absurd hline (by decide)

/-- No token ends in a blank. -/
theorem Token.isBlank_last (k : Token) :
    ∀ c, k.text.getLast? = some c → Text.isBlank c = false := by
  intro c hc
  cases k with
  | word w => exact Text.isBlank_of_isIdentifierPart (w.isPart (List.mem_of_getLast? hc))
  | mark m =>
      rw [← Option.some.inj hc]
      exact m.isBlank_char
  | path q =>
      rw [text, List.getLast?_cons, List.getLast?_concat, Option.getD_some, Option.some.injEq] at hc
      rw [← hc]
      cases q.kind <;> decide

/-- The run that a token begins with, which is no trivia. -/
theorem Token.exists_run (k : Token) :
    ∃ (r : Run) (s : Text), k.text = r.text ++ s ∧ (∀ t, r.Leads (s ++ t)) ∧
      r.isTrivia = false := by
  cases k with
  | word w =>
      obtain ⟨c, t, hw, hc⟩ := w.exists_cons
      refine ⟨.code c, t, hw, fun u => ?_, Text.isWhiteSpace_of_isIdentifierPart hc⟩
      exact Text.leads_of_isPlain (Text.isPlain_of_isIdentifierPart hc) _
  | mark m =>
      refine ⟨.code m.char, [], rfl, fun t => Text.leads_of_isPlain m.isPlain_char t, ?_⟩
      cases m <;> decide
  | path q => exact ⟨q.run, [], (List.append_nil _).symm, q.leads, rfl⟩

namespace Spells

variable {IsGap : Text → Prop} {k : Token} {ks : List Token} {t : Text}

/-- A text that spells tokens is its first token, a gap, and a text that spells the others. -/
theorem exists_cons (h : Spells IsGap (k :: ks) t) :
    ∃ g u, t = k.text ++ (g ++ u) ∧ IsGap g ∧ (k.MeetsWord ks → g ≠ []) ∧ Spells IsGap ks u := by
  cases h with
  | cons hg hmeet hu => exact ⟨_, _, rfl, hg, hmeet, hu⟩

/-- Any tokens can be spelled, with a space behind each of them. -/
theorem spaced {IsGap : Text → Prop} (hspace : IsGap [' ']) (ks : List Token) :
    Spells IsGap ks (ks.flatMap fun k => k.text ++ [' ']) := by
  induction ks with
  | nil => exact .nil
  | cons k ks ih =>
      rw [List.flatMap_cons, List.append_assoc]
      exact .cons hspace (fun _ => List.cons_ne_nil _ _) ih

/-- A token begins with no parenthesis and no dot. -/
theorem exists_first (h : Spells IsGap (k :: ks) t) : ∃ c u, t = c :: u ∧ c ≠ '(' ∧ c ≠ '.' := by
  obtain ⟨g, u, rfl, -⟩ := h.exists_cons
  cases k with
  | word w =>
      obtain ⟨c, v, hw, hc⟩ := w.exists_cons
      have hne {d : Char} (hd : Text.isIdentifierPart d = false) : c ≠ d :=
        Text.ne_of_isIdentifierPart hc hd
      exact ⟨c, v ++ (g ++ u), congrArg (· ++ (g ++ u)) hw, hne rfl,
        hne rfl⟩
  | mark m => exact ⟨m.char, g ++ u, rfl, by cases m <;> decide, by cases m <;> decide⟩
  | path q =>
      refine ⟨q.kind.delimiter, _, rfl, ?_⟩
      cases q.kind <;> decide

theorem startsQuoted_eq (h : Spells IsGap (k :: ks) t) : startsQuoted t = k.isPath := by
  obtain ⟨g, u, rfl, -⟩ := h.exists_cons
  obtain ⟨c, v, hk, -, -, -, hc⟩ := k.exists_head
  rw [hk, ← hc]
  rfl

/-- What stands behind a word does not go on with it. -/
theorem endsWord {w : Name} {g : Text} (hg : Text.IsTrivia g)
    (hmeet : (Token.word w).MeetsWord ks → g ≠ []) (h : Spells IsGap ks t) :
    Text.EndsWord (g ++ t) := by
  refine hg.endsWord fun hnil => ?_
  intro c hc
  cases ks with
  | nil =>
      cases h
      exact absurd hc (by simp)
  | cons k ks =>
      have hword : k.isWord = false := by
        cases k with
        | word v => exact absurd hnil (hmeet ⟨rfl, trivial⟩)
        | mark m => rfl
        | path q => rfl
      obtain ⟨g, u, rfl, -⟩ := h.exists_cons
      obtain ⟨d, v, hk, -, -, hd, -⟩ := k.exists_head
      rw [hk] at hc
      exact Option.some.inj hc ▸ (hd hword).1

/-- With a space in place of each comment, the text spells the same tokens between blanks. -/
theorem stripComments (h : Spells Text.IsTrivia ks t) :
    Spells Text.IsBlanks ks (ScriptSurvey.stripComments t) := by
  induction h with
  | nil =>
      rw [stripComments_nil]
      exact .nil
  | @cons k ks g t hg hmeet _ ih =>
      rw [k.stripComments_append, stripComments_append hg.sealed]
      exact .cons hg.isBlanks_stripComments (fun h he => hmeet h (stripComments_eq_nil_iff.mp he)) ih

end Spells

end ScriptSurvey
