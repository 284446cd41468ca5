import ScriptSurvey.Proofs.Lexical.Sealed

/-!
# The automaton behind the runs

A scan jumps from the start of a run to its end. What it finds is described more simply by an
automaton that reads one character at a time, with a look at the next one:

* in code, `//` and `/*` lead into a comment and a delimiter into a literal;
* a line comment ends in front of a line feed;
* a block comment ends behind the first `*/` that does not take the `*` of its `/*`;
* a literal ends behind its delimiter, a quoted one also in front of a line feed, and a character
  behind a backslash does neither.

The automaton says of each character what it is. **The runs of a text say the same**, character by
character, and a scan is left in a mode other than code exactly where the automaton stops inside a
block comment or a literal.
-/

namespace ScriptSurvey

namespace Body

theorem ofBlock_rest_of_open {t : Text} (h : (ofBlock t).closed = false) :
    (ofBlock t).rest = [] := by
  fun_induction ofBlock t with
  | case1 => rfl
  | case2 => exact absurd h (by simp)
  | case3 c t _ ih => exact ih h

theorem ofLiteral_rest_of_open {kind : LiteralKind} {t : Text}
    (h : (ofLiteral kind t).closed = false) : (ofLiteral kind t).rest = [] := by
  induction t using literal_induction kind with
  | nil => rfl
  | lone => rfl
  | escape c t ih =>
      rw [ofLiteral_escape] at h ⊢
      exact ih h
  | delimiter t =>
      rw [ofLiteral_delimiter] at h
      exact absurd h (by simp)
  | lineFeed t hk =>
      rw [ofLiteral_lineFeed hk] at h
      exact absurd h (by simp)
  | inside c t hc hd hn ih =>
      rw [ofLiteral_inside hc hd hn] at h ⊢
      exact ih h

end Body

/-- An open run reaches to the end of the text. -/
theorem Step.rest_of_isOpen {c : Char} {t : Text} (h : (first c t).isOpen = true) :
    (first c t).rest = [] := by
  have hs := isFirst c t
  generalize first c t = s at hs h ⊢
  cases hs with
  | line t => exact absurd h Bool.false_ne_true
  | block t => exact Body.ofBlock_rest_of_open (by simpa [ofBody] using h)
  | literal kind t => exact Body.ofLiteral_rest_of_open (by simpa [ofBody] using h)
  | code _ _ => exact absurd h Bool.false_ne_true

namespace Automaton

/-- What the automaton knows in front of a character. -/
inductive State where
  | code
  | line
  /-- Between the two characters of `/*`. -/
  | opener
  /-- In a block comment, directly behind a `*` of it or not. -/
  | block (afterStar : Bool)
  /-- In a literal, directly behind a backslash that escapes or not. -/
  | literal (kind : LiteralKind) (escaped : Bool)
deriving DecidableEq, Repr

/-- What a character of code begins. -/
def enter (c : Char) (next : Option Char) : Mode × State :=
  if c = '/' ∧ next = some '/' then (.comment .line, .line)
  else if c = '/' ∧ next = some '*' then (.comment .block, .opener)
  else
    match LiteralKind.ofDelimiter? c with
    | some kind => (.literal kind, .literal kind false)
    | none => (.code, .code)

/-- What a character is, and the state behind it, given the character after it. -/
def step : State → Char → Option Char → Mode × State
  | .code, c, next => enter c next
  | .line, c, _ => if c = '\n' then (.code, .code) else (.comment .line, .line)
  | .opener, _, _ => (.comment .block, .block false)
  | .block afterStar, c, _ =>
    (.comment .block, if afterStar = true ∧ c = '/' then .code else .block (c == '*'))
  | .literal kind true, _, _ => (.literal kind, .literal kind false)
  | .literal kind false, c, _ =>
    if c = '\\' then (.literal kind, .literal kind true)
    else if c = kind.delimiter then (.literal kind, .code)
    else if c = '\n' ∧ kind.endsAtLineFeed then (.code, .code)
    else (.literal kind, .literal kind false)

/-- What each character of a text is. -/
def modes (s : State) : Text → List Mode
  | [] => []
  | c :: t => (step s c t.head?).1 :: modes (step s c t.head?).2 t

/-- The state behind a text. -/
def final (s : State) : Text → State
  | [] => s
  | c :: t => final (step s c t.head?).2 t

/-- The mode that a scan is left in at the end of a text: a line comment ends there by itself. -/
def State.left : State → Mode
  | .code => .code
  | .line => .code
  | .opener => .comment .block
  | .block _ => .comment .block
  | .literal kind _ => .literal kind

/-- Whether a construct that needs an end is still without it. -/
def State.isUnclosed : State → Bool
  | .code => false
  | .line => false
  | .opener => true
  | .block _ => true
  | .literal _ _ => true

theorem State.left_ne_code_iff (s : State) : s.left ≠ .code ↔ s.isUnclosed = true := by
  cases s <;> simp [State.left, State.isUnclosed]

/-! ## One construct -/

theorem modes_line (t : Text) :
    modes .line t = (t.takeWhile (· != '\n')).map (fun _ => .comment .line) ++
      modes .code (t.dropWhile (· != '\n')) := by
  induction t with
  | nil => rfl
  | cons c t ih =>
      by_cases hc : c = '\n'
      · rw [hc]
        rfl
      · rw [List.takeWhile_cons_of_pos (by simpa using hc),
          List.dropWhile_cons_of_pos (by simpa using hc)]
        simp [modes, step, hc, ih]

theorem final_line (t : Text) :
    (final .line t).left = (final .code (t.dropWhile (· != '\n'))).left := by
  induction t with
  | nil => rfl
  | cons c t ih =>
      by_cases hc : c = '\n'
      · rw [hc]
        rfl
      · rw [List.dropWhile_cons_of_pos (by simpa using hc), ← ih]
        simp [final, step, hc]

/-- Behind a `*` only a `/` would end the comment, and the comment does not end there if no `/`
follows. -/
theorem step_block {afterStar : Bool} {c : Char} {t : Text}
    (h : afterStar = true → (c :: t).head? ≠ some '/') :
    step (.block afterStar) c t.head? = (.comment .block, .block (c == '*')) := by
  rw [step, if_neg]
  rintro ⟨hs, hc⟩
  exact h hs (by rw [hc]; rfl)

/-- A block comment is what the search for its end finds. -/
theorem modes_block (t : Text) (afterStar : Bool) (h : afterStar = true → t.head? ≠ some '/') :
    modes (.block afterStar) t = (Body.ofBlock t).text.map (fun _ => .comment .block) ++
      modes .code (Body.ofBlock t).rest := by
  fun_induction Body.ofBlock t generalizing afterStar with
  | case1 => rfl
  | case2 t => simp [modes, step]
  | case3 c t hne ih =>
      have hstar : (c == '*') = true → t.head? ≠ some '/' := by
        intro hc hd
        obtain ⟨u, rfl⟩ := List.head?_eq_some_iff.mp hd
        exact hne u (by simpa using hc) rfl
      rw [modes, step_block h, ih _ hstar]
      rfl

theorem final_block (t : Text) (afterStar : Bool) (h : afterStar = true → t.head? ≠ some '/') :
    (final (.block afterStar) t).left =
      if (Body.ofBlock t).closed then (final .code (Body.ofBlock t).rest).left
      else .comment .block := by
  fun_induction Body.ofBlock t generalizing afterStar with
  | case1 => rfl
  | case2 t => simp [final, step]
  | case3 c t hne ih =>
      have hstar : (c == '*') = true → t.head? ≠ some '/' := by
        intro hc hd
        obtain ⟨u, rfl⟩ := List.head?_eq_some_iff.mp hd
        exact hne u (by simpa using hc) rfl
      rw [final, step_block h, ih _ hstar]
      rfl

theorem step_inside {kind : LiteralKind} {c : Char} (hc : c ≠ '\\') (hd : c ≠ kind.delimiter)
    (hn : ¬(c = '\n' ∧ kind.endsAtLineFeed = true)) (next : Option Char) :
    step (.literal kind false) c next = (.literal kind, .literal kind false) := by
  rw [step, if_neg hc, if_neg hd, if_neg hn]

theorem step_delimiter (kind : LiteralKind) (next : Option Char) :
    step (.literal kind false) kind.delimiter next = (.literal kind, .code) := by
  rw [step, if_neg (Body.delimiter_ne_backslash kind), if_pos rfl]

theorem step_lineFeed {kind : LiteralKind} (h : kind.endsAtLineFeed = true) (next : Option Char) :
    step (.literal kind false) '\n' next = (.code, .code) := by
  have hne : '\n' ≠ kind.delimiter := by cases kind <;> decide
  rw [step, if_neg (by decide), if_neg hne, if_pos ⟨rfl, h⟩]

/-- A literal is what the search for its end finds. -/
theorem modes_literal (kind : LiteralKind) (t : Text) :
    modes (.literal kind false) t = (Body.ofLiteral kind t).text.map (fun _ => .literal kind) ++
      modes .code (Body.ofLiteral kind t).rest := by
  induction t using Body.literal_induction kind with
  | nil => rfl
  | lone => rfl
  | escape c t ih =>
      rw [modes, modes, Body.ofLiteral_escape]
      simp [step, Body.push, ih]
  | delimiter t =>
      rw [modes, step_delimiter, Body.ofLiteral_delimiter]
      rfl
  | lineFeed t hk =>
      rw [modes, step_lineFeed hk, Body.ofLiteral_lineFeed hk]
      rfl
  | inside c t hc hd hn ih =>
      rw [modes, step_inside hc hd hn, Body.ofLiteral_inside hc hd hn, ih]
      rfl

theorem final_literal (kind : LiteralKind) (t : Text) :
    (final (.literal kind false) t).left =
      if (Body.ofLiteral kind t).closed then (final .code (Body.ofLiteral kind t).rest).left
      else .literal kind := by
  induction t using Body.literal_induction kind with
  | nil => rfl
  | lone => rfl
  | escape c t ih =>
      rw [final, final, Body.ofLiteral_escape]
      exact ih
  | delimiter t =>
      rw [final, step_delimiter, Body.ofLiteral_delimiter]
      rfl
  | lineFeed t hk =>
      rw [final, step_lineFeed hk, Body.ofLiteral_lineFeed hk]
      rfl
  | inside c t hc hd hn ih =>
      rw [final, step_inside hc hd hn, Body.ofLiteral_inside hc hd hn, ih]
      rfl

/-! ## One run -/

theorem enter_delimiter (kind : LiteralKind) (next : Option Char) :
    enter kind.delimiter next = (.literal kind, .literal kind false) := by
  cases kind <;> simp [enter, LiteralKind.delimiter, LiteralKind.ofDelimiter?]

theorem enter_code {c : Char} {next : Option Char} (hkind : LiteralKind.ofDelimiter? c = none)
    (hslash : c = '/' → next ≠ some '/' ∧ next ≠ some '*') : enter c next = (.code, .code) := by
  rw [enter, if_neg fun h => (hslash h.1).1 h.2, if_neg fun h => (hslash h.1).2 h.2, hkind]

/-- From code the automaton goes through the first run, and is in code again behind it. -/
theorem modes_first (c : Char) (t : Text) :
    modes .code (c :: t) =
      (Step.first c t).run.text.map (fun _ => (Step.first c t).run.mode) ++
        modes .code (Step.first c t).rest := by
  rw [modes, step]
  have hs := Step.isFirst c t
  generalize Step.first c t = s at hs ⊢
  cases hs with
  | line t =>
      have hnext : modes .line ('/' :: t) = .comment .line :: modes .line t := rfl
      simp [enter, hnext, modes_line, Run.text, Run.mode]
  | block t =>
      have hnext : modes .opener ('*' :: t) = .comment .block :: modes (.block false) t := rfl
      simp [enter, hnext, modes_block t false (by simp), Step.ofBody, Run.text, Run.mode]
  | literal kind t =>
      simp [enter_delimiter, modes_literal, Step.ofBody, Run.text, Run.mode]
  | code hkind hslash =>
      rw [enter_code hkind hslash]
      rfl

theorem final_first (c : Char) (t : Text) :
    (final .code (c :: t)).left =
      if (Step.first c t).isOpen then (Step.first c t).run.mode
      else (final .code (Step.first c t).rest).left := by
  rw [final, step]
  have hs := Step.isFirst c t
  generalize Step.first c t = s at hs ⊢
  cases hs with
  | line t =>
      have hnext : final .line ('/' :: t) = final .line t := rfl
      simp [enter, hnext, final_line]
  | block t =>
      have hnext : final .opener ('*' :: t) = final (.block false) t := rfl
      cases hclosed : (Body.ofBlock t).closed <;>
        simp [enter, hnext, final_block t false (by simp), hclosed, Step.ofBody, Run.mode]
  | literal kind t =>
      cases hclosed : (Body.ofLiteral kind t).closed <;>
        simp [enter_delimiter, final_literal, hclosed, Step.ofBody, Run.mode]
  | code hkind hslash =>
      rw [enter_code hkind hslash]
      rfl

/-! ## All runs of a text -/

/-- **The characters of each run are what the automaton says they are.** -/
theorem modes_code (t : Text) :
    modes .code t = (runs t).flatMap fun r => r.text.map fun _ => r.mode := by
  fun_induction runs t with
  | case1 => rfl
  | case2 c t ih => rw [modes_first, ih, List.flatMap_cons]

/-- **A scan is left in the mode that the automaton stops in.** -/
theorem finalMode_eq_left (t : Text) : finalMode t = (final .code t).left := by
  fun_induction finalMode t with
  | case1 => rfl
  | case2 c t s hrest =>
      rw [List.isEmpty_iff] at hrest
      rw [final_first, hrest]
      rfl
  | case3 c t s hrest ih =>
      -- an open run would have taken the rest in
      have hclosed : s.isOpen = false := by
        cases hopen : s.isOpen with
        | false => rfl
        | true => exact absurd (Step.rest_of_isOpen hopen) (by simpa using hrest)
      rw [final_first, hclosed, ih]
      rfl

end Automaton

end ScriptSurvey
