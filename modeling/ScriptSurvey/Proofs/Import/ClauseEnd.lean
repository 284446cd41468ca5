import ScriptSurvey.Proofs.Import.Grammar
import ScriptSurvey.Proofs.Import.Walk

/-!
# Where a clause ends

The search for the end of a clause passes words, commas, stars and blocks, and stops at the `from`
that a path follows. It cannot stop too early: a name `from` in the clause is followed by a comma, a
star or another word, and what stands in comments is passed as trivia.
-/

namespace ScriptSurvey.ScriptImport

open Cursor

/-- Whether the search is in braces behind a mark that it passes. Braces do not nest. -/
def inBracesBehind? (inBraces : Bool) : Mark → Option Bool
  | .opening => if inBraces then none else some true
  | .closing => if inBraces then some false else none
  | .star => some inBraces
  | .comma => some inBraces
  | .semicolon => none

/-- Whether the search passes the tokens, inside of braces or not, and is outside behind them. -/
inductive Passes : Bool → List Token → Prop
  | nil : Passes false []
  | word {b : Bool} {w : Name} {ks : List Token} : (b = false → w.text ≠ keyword) → Passes b ks →
      Passes b (.word w :: ks)
  | mark {b b' : Bool} {m : Mark} {ks : List Token} : inBracesBehind? b m = some b' →
      Passes b' ks → Passes b (.mark m :: ks)

/-! ## One step of the search -/

/-- What a search does at a run: it passes it and has come to a state behind it, it stops in front of it,
or it fails. -/
inductive Verdict (State : Type) where
  | pass (behind : State)
  | stop
  | fail

/-- The verdict on a run, inside of braces or not, given whether a declaration begins there, and whether
the `from` of a path does. -/
def verdict (inBraces atStart isKeyword isFrom : Bool) : Run → Verdict Bool
  | .comment _ _ => .pass inBraces
  | .literal _ _ => if inBraces then .pass true else .fail
  | .code '\x7b' => if inBraces then .fail else .pass true
  | .code '\x7d' => if inBraces then .pass false else .fail
  | .code ';' => .fail
  | .code '=' => .fail
  | .code '(' => .fail
  | .code ')' => .fail
  | .code _ =>
    if inBraces then .pass true
    else if isKeyword then .fail
    else if !atStart && isFrom then .stop
    else .pass false

/-- Whether a `from` with a path behind it is under the cursor. -/
def atFrom (c : Cursor) : Bool :=
  c.atKeyword fromWord.text && atQuote (c.forward fromWord.text.length).skipTrivia

theorem atFrom_of_not_keyword {c : Cursor} (h : c.atKeyword fromWord.text = false) :
    atFrom c = false := by
  rw [atFrom, h, Bool.false_and]

variable {b a : Bool} {p t : Text} {cl : List Run} {q : Cursor}

theorem clauseUpToFrom_of_nil {c : Cursor} (h : c.rest = []) : clauseUpToFrom b a c = none := by
  rw [clauseUpToFrom]
  split
  · rfl
  · next h' => exact absurd (h.symm.trans h') (by simp)

/-- **One step of the search** follows the verdict on the first run. -/
theorem clauseUpToFrom_of_cons {c : Cursor} {x : Char} (h : c.rest = x :: t) :
    clauseUpToFrom b a c =
      match verdict b a (c.atKeyword keyword) (atFrom c) (Step.first x t).run with
      | .pass b' => (clauseUpToFrom b' false (c.past (Step.first x t))).map
          fun p => ((Step.first x t).run :: p.1, p.2)
      | .stop => some ([], (c.forward fromWord.text.length).skipTrivia)
      | .fail => none := by
  rw [clauseUpToFrom]
  split
  · next h' => exact absurd (h.symm.trans h') (by simp)
  · next x' t' h' =>
      obtain ⟨rfl, rfl⟩ := List.cons.inj (h.symm.trans h')
      have hfrom : (c.atKeyword "from".toList && atQuote (c.forward 4).skipTrivia) = atFrom c := rfl
      have hlength : fromWord.text.length = 4 := rfl
      generalize Step.first x t = s
      simp only [Bool.and_assoc, hfrom, hlength]
      unfold verdict
      split <;> cases b <;> simp_all
      -- a character without a meaning of its own, outside of braces
      split <;> simp_all
      split <;> simp_all

/-- A run that is passed, in front of what the search passes. -/
theorem clauseUpToFrom_pass {b' : Bool} {r : Run} (hleads : r.Leads t)
    (hpass : verdict b a (atKeyword keyword ⟨p, r.text ++ t, .code⟩)
      (atFrom ⟨p, r.text ++ t, .code⟩) r = .pass b')
    (h : clauseUpToFrom b' false ⟨r.text.reverse ++ p, t, .code⟩ = some (cl, q)) :
    clauseUpToFrom b a ⟨p, r.text ++ t, .code⟩ = some (r :: cl, q) := by
  obtain ⟨d, u, hcons, hrun, hpast⟩ := past_of_leads hleads p .code
  rw [hcons] at hpast hpass ⊢
  rw [clauseUpToFrom_of_cons rfl, hpast, hrun, hpass]
  show Option.map _ (clauseUpToFrom b' false _) = _
  rw [h]
  rfl

theorem clauseUpToFrom_comment {r : Run} (hr : r.mode.isComment = true) (hleads : r.Leads t)
    (h : clauseUpToFrom b false ⟨r.text.reverse ++ p, t, .code⟩ = some (cl, q)) :
    clauseUpToFrom b a ⟨p, r.text ++ t, .code⟩ = some (r :: cl, q) := by
  cases r with
  | code c => exact absurd hr (by simp [Run.mode, Mode.isComment])
  | comment kind x => exact clauseUpToFrom_pass hleads rfl h
  | literal kind x => exact absurd hr (by simp [Run.mode, Mode.isComment])

/-- Whether the search does no more with a code character than to pass it. -/
def isPassed (c : Char) : Bool :=
  c != '\x7b' && c != '\x7d' && c != ';' && c != '=' && c != '(' && c != ')'

theorem isPassed_of_isIdentifierPart {c : Char} (h : Text.isIdentifierPart c = true) :
    isPassed c = true := by
  have hne {d : Char} (hd : Text.isIdentifierPart d = false) : c ≠ d :=
    Text.ne_of_isIdentifierPart h hd
  simp only [isPassed, Bool.and_eq_true, bne_iff_ne]
  exact ⟨⟨⟨⟨⟨hne rfl, hne rfl⟩, hne rfl⟩,
    hne rfl⟩, hne rfl⟩, hne rfl⟩

theorem isPassed_of_isBlank {c : Char} (h : Text.isBlank c = true) : isPassed c = true :=
  Text.of_isBlank (P := fun c => isPassed c = true) (by decide) h

/-- At most code characters the search looks for the two keywords, outside of braces. -/
theorem verdict_of_isPassed {c : Char} (h : isPassed c = true) (isKeyword isFrom : Bool) :
    verdict b a isKeyword isFrom (.code c) =
      if b then .pass true
      else if isKeyword then .fail
      else if !a && isFrom then .stop
      else .pass false := by
  have hne {d : Char} (hd : isPassed d = false) : Run.code c ≠ .code d := by
    intro he
    rw [Run.code.inj he, hd] at h
    exact Bool.false_ne_true h
  unfold verdict
  split
  all_goals first
    | exact absurd ‹_› (hne rfl)
    | simp_all

/-- A character that no keyword begins at is passed. -/
theorem clauseUpToFrom_char {c : Char} (hplain : Text.isPlain c = true)
    (hpassed : isPassed c = true)
    (himport : b = false → (⟨p, c :: t, .code⟩ : Cursor).atKeyword keyword = false)
    (hfrom : b = false → a = false → atFrom ⟨p, c :: t, .code⟩ = false)
    (h : clauseUpToFrom b false ⟨c :: p, t, .code⟩ = some (cl, q)) :
    clauseUpToFrom b a ⟨p, c :: t, .code⟩ = some (.code c :: cl, q) := by
  refine clauseUpToFrom_pass (Text.leads_of_isPlain hplain t) ?_ h
  show verdict b a (atKeyword keyword ⟨p, c :: t, .code⟩) (atFrom ⟨p, c :: t, .code⟩) _ = _
  rw [verdict_of_isPassed hpassed]
  cases b with
  | true => rfl
  | false =>
      cases a with
      | true => rw [himport rfl]; rfl
      | false => rw [himport rfl, hfrom rfl rfl]; rfl

theorem clauseUpToFrom_opening
    (h : clauseUpToFrom true false ⟨'\x7b' :: p, t, .code⟩ = some (cl, q)) :
    clauseUpToFrom false a ⟨p, '\x7b' :: t, .code⟩ = some (.code '\x7b' :: cl, q) :=
  clauseUpToFrom_pass (Text.leads_of_isPlain (by decide) t) rfl h

theorem clauseUpToFrom_closing
    (h : clauseUpToFrom false false ⟨'\x7d' :: p, t, .code⟩ = some (cl, q)) :
    clauseUpToFrom true a ⟨p, '\x7d' :: t, .code⟩ = some (.code '\x7d' :: cl, q) :=
  clauseUpToFrom_pass (Text.leads_of_isPlain (by decide) t) rfl h

/-! ## Over trivia and words -/

/-- A character that begins no word is passed. -/
theorem clauseUpToFrom_apart {c : Char} (hplain : Text.isPlain c = true)
    (hpassed : isPassed c = true) (hc : Text.isIdentifierPart c = false)
    (h : clauseUpToFrom b false ⟨c :: p, t, .code⟩ = some (cl, q)) :
    clauseUpToFrom b a ⟨p, c :: t, .code⟩ = some (.code c :: cl, q) := by
  have hends := Text.endsWord_cons hc t
  exact clauseUpToFrom_char hplain hpassed
    (fun _ => atKeyword_of_endsWord (v := importWord) hends)
    (fun _ _ => atFrom_of_not_keyword (atKeyword_of_endsWord hends)) h

theorem clauseUpToFrom_gap {g : Text} (hg : Text.IsTrivia g)
    (h : clauseUpToFrom b false ⟨g.reverse ++ p, t, .code⟩ = some (cl, q)) :
    clauseUpToFrom b false ⟨p, g ++ t, .code⟩ = some (runs g ++ cl, q) := by
  induction hg using Text.IsTrivia.run_induction generalizing p with
  | nil => rwa [runs_nil]
  | run r g _ _ hr hleads ih =>
      have hone := (hleads []).runs_append
      rw [List.append_nil] at hone
      rw [List.reverse_append, List.append_assoc] at h
      have hrest := ih h
      rw [List.append_assoc, hone]
      rcases hr with hr | ⟨c, rfl, hc⟩
      · exact clauseUpToFrom_comment hr (hleads t) hrest
      · exact clauseUpToFrom_apart (Text.isPlain_of_isBlank hc) (isPassed_of_isBlank hc)
          (Text.isIdentifierPart_of_isBlank hc) hrest

/-- Inside of a word there is no keyword. -/
theorem clauseUpToFrom_inside {s : Text} (hs : ∀ c ∈ s, Text.isIdentifierPart c = true) {d : Char}
    (hd : Text.isIdentifierPart d = true)
    (h : clauseUpToFrom b false ⟨s.reverse ++ d :: p, t, .code⟩ = some (cl, q)) :
    clauseUpToFrom b false ⟨d :: p, s ++ t, .code⟩ = some (s.map .code ++ cl, q) := by
  induction s generalizing d p with
  | nil => exact h
  | cons c s ih =>
      have hc := hs c List.mem_cons_self
      have hrest := ih (fun e he => hs e (List.mem_cons_of_mem c he)) hc (p := d :: p) (by
        rwa [List.reverse_cons, List.append_assoc] at h)
      exact clauseUpToFrom_char (Text.isPlain_of_isIdentifierPart hc)
        (isPassed_of_isIdentifierPart hc) (fun _ => atKeyword_inside (v := importWord) hd _ _)
        (fun _ _ => atFrom_of_not_keyword (atKeyword_inside hd _ _)) hrest

theorem clauseUpToFrom_mark {b' : Bool} {m : Mark} (hm : inBracesBehind? b m = some b')
    (h : clauseUpToFrom b' false ⟨m.char :: p, t, .code⟩ = some (cl, q)) :
    clauseUpToFrom b a ⟨p, m.char :: t, .code⟩ = some (.code m.char :: cl, q) := by
  cases m with
  | opening =>
      cases b with
      | true => exact absurd hm (by simp [inBracesBehind?])
      | false =>
          rw [← Option.some.inj hm] at h
          exact clauseUpToFrom_opening h
  | closing =>
      cases b with
      | true =>
          rw [← Option.some.inj hm] at h
          exact clauseUpToFrom_closing h
      | false => exact absurd hm (by simp [inBracesBehind?])
  | star =>
      rw [← Option.some.inj hm] at h
      exact clauseUpToFrom_apart rfl rfl rfl h
  | comma =>
      rw [← Option.some.inj hm] at h
      exact clauseUpToFrom_apart rfl rfl rfl h
  | semicolon => exact absurd hm (by simp [inBracesBehind?])

/-- A word is passed, unless it starts a declaration or ends the clause. -/
theorem clauseUpToFrom_word {w : Name} (ht : Text.EndsWord t)
    (himport : b = false → w.text ≠ keyword)
    (hfrom : b = false → a = false → w.text = fromWord.text →
      atQuote (skipTrivia ⟨w.text.reverse ++ p, t, .code⟩) = false)
    (h : clauseUpToFrom b false ⟨w.text.reverse ++ p, t, .code⟩ = some (cl, q)) :
    clauseUpToFrom b a ⟨p, w.text ++ t, .code⟩ = some (w.text.map .code ++ cl, q) := by
  -- only at the first character can a keyword stand, the others are inside the word
  obtain ⟨c, s, hw, hc⟩ := w.exists_cons
  have hs : ∀ d ∈ s, Text.isIdentifierPart d = true := fun d hd =>
    w.isPart (by rw [hw]; exact List.mem_cons_of_mem c hd)
  have hrest : clauseUpToFrom b false ⟨c :: p, s ++ t, .code⟩ = some (s.map .code ++ cl, q) := by
    refine clauseUpToFrom_inside hs hc ?_
    rwa [hw, List.reverse_cons, List.append_assoc] at h
  have hstep := clauseUpToFrom_char (a := a) (Text.isPlain_of_isIdentifierPart hc)
    (isPassed_of_isIdentifierPart hc) (fun hb => ?_) (fun hb ha => ?_) hrest
  · rw [hw]
    exact hstep
  · have := atKeyword_of_ne (v := importWord) (p := p) (himport hb) ht
    rwa [hw] at this
  · rw [← List.cons_append, ← hw]
    by_cases hwf : w.text = fromWord.text
    · have hquote := hfrom hb ha hwf
      rw [← forward_append, hwf] at hquote
      rw [atFrom, hwf, hquote, Bool.and_false]
    · exact atFrom_of_not_keyword (atKeyword_of_ne (v := fromWord) hwf ht)

/-- At a `from` with a quote behind it the search stops. -/
theorem clauseUpToFrom_stop {c : Cursor} (hp : AllowsWord p) (hends : Text.EndsWord t)
    (hskip : skipTrivia ⟨fromWord.text.reverse ++ p, t, .code⟩ = c) (hquote : atQuote c = true) :
    clauseUpToFrom false false ⟨p, fromWord.text ++ t, .code⟩ = some ([], c) := by
  have hword := atKeyword_self (w := fromWord) hp hends
  have hkeyword : atKeyword keyword ⟨p, fromWord.text ++ t, .code⟩ = false :=
    atKeyword_of_ne (v := importWord) (by decide) hends
  have hbehind : skipTrivia (forward fromWord.text.length ⟨p, fromWord.text ++ t, .code⟩) = c := by
    rw [forward_append, hskip]
  have hfrom : atFrom ⟨p, fromWord.text ++ t, .code⟩ = true := by
    rw [atFrom, hword, hbehind, hquote, Bool.true_and]
  have hcons : fromWord.text ++ t = 'f' :: ("rom".toList ++ t) := rfl
  rw [hcons] at hkeyword hfrom hbehind ⊢
  rw [clauseUpToFrom_of_cons rfl, Text.first_of_isPlain rfl, verdict_of_isPassed rfl, hkeyword,
    hfrom, hbehind]
  rfl

theorem clauseUpToFrom_from {g u : Text} {k : QuotedPath} {ks : List Token} (hp : AllowsWord p)
    (hg : Text.IsTrivia g) (hu : Spells Text.IsTrivia (.path k :: ks) u) :
    ∃ q, clauseUpToFrom false false ⟨p, fromWord.text ++ (g ++ u), .code⟩ = some ([], q) ∧
      q.rest = u := by
  have hends : Text.EndsWord (g ++ u) :=
    hu.endsWord (w := fromWord) hg fun h => absurd h.2 id
  have hskip : skipTrivia ⟨fromWord.text.reverse ++ p, g ++ u, .code⟩ =
      ⟨g.reverse ++ (fromWord.text.reverse ++ p), u, .code⟩ := by
    rw [skipTrivia_gap hg, skipTrivia_token hu]
  exact ⟨_, clauseUpToFrom_stop hp hends hskip hu.startsQuoted_eq, rfl⟩

/-! ## Over a clause -/

/-- What the search brings when it passes the tokens `ks` and finds the path `k`: the runs of a text
that spells them, and a cursor at the path. -/
def FindsPath (b a : Bool) (c : Cursor) (ks : List Token) (k : QuotedPath) (rest : List Token) :
    Prop :=
  ∃ (s front : Text) (q : Cursor), clauseUpToFrom b a c = some (runs s, q) ∧
    Spells Text.IsTrivia ks s ∧ c.rest = front ++ q.rest ∧
    Spells Text.IsTrivia (.path k :: rest) q.rest

/-- A token and its gap in front of what the search passes. -/
theorem FindsPath.cons {b' : Bool} {k' : Token} {ks rest : List Token} {k : QuotedPath} {g u : Text}
    (hg : Text.IsTrivia g) (hmeet : k'.MeetsWord ks → g ≠ [])
    (h : FindsPath b' false ⟨g.reverse ++ (k'.text.reverse ++ p), u, .code⟩ ks k rest)
    (htoken : ∀ {cl : List Run} {q : Cursor},
      clauseUpToFrom b' false ⟨k'.text.reverse ++ p, g ++ u, .code⟩ = some (cl, q) →
      clauseUpToFrom b a ⟨p, k'.text ++ (g ++ u), .code⟩ = some (runs k'.text ++ cl, q)) :
    FindsPath b a ⟨p, k'.text ++ (g ++ u), .code⟩ (k' :: ks) k rest := by
  obtain ⟨s, front, q, hfind, hs, hfront, hrest⟩ := h
  refine ⟨k'.text ++ (g ++ s), k'.text ++ (g ++ front), q, ?_, .cons hg hmeet hs, ?_, hrest⟩
  · rw [k'.sealed_text, hg.sealed]
    exact htoken (clauseUpToFrom_gap hg hfind)
  · show k'.text ++ (g ++ u) = _
    rw [show u = front ++ q.rest from hfront, List.append_assoc, List.append_assoc]

/-- No path follows a word of a clause, other than the `from` that ends it. -/
theorem Passes.exists_head {ks : List Token} (h : Passes b ks) (rest : List Token) :
    ∃ k ls, ks ++ .word fromWord :: rest = k :: ls ∧ k.isPath = false := by
  cases h <;> exact ⟨_, _, rfl, rfl⟩

theorem runs_mark (m : Mark) : runs (Token.mark m).text = [.code m.char] :=
  Text.runs_of_isPlain fun _ hc => List.mem_singleton.mp hc ▸ m.isPlain_char

/-- **The search passes the tokens of a clause, and finds the path behind its `from`.** -/
theorem findsPath {ks rest : List Token} (hpass : Passes b ks) {k : QuotedPath}
    (h : Spells Text.IsTrivia (ks ++ .word fromWord :: .path k :: rest) t)
    (hp : Token.StartsWithWord (ks ++ .word fromWord :: .path k :: rest) → AllowsWord p)
    (ha : ks = [] → a = false) : FindsPath b a ⟨p, t, .code⟩ ks k rest := by
  induction hpass generalizing t a p with
  | nil =>
      obtain ⟨g, u, rfl, hg, -, hu⟩ := h.exists_cons
      obtain ⟨q, hq, hrest⟩ := clauseUpToFrom_from (hp trivial) hg hu
      rw [ha rfl]
      refine ⟨[], fromWord.text ++ g, q, by rw [runs_nil]; exact hq, .nil, ?_, hrest ▸ hu⟩
      rw [hrest, List.append_assoc]
      rfl
  | @word b w ks himport hks ih =>
      rw [List.cons_append] at h
      obtain ⟨g, u, rfl, hg, hmeet, hu⟩ := h.exists_cons
      have hends : Text.EndsWord (g ++ u) := hu.endsWord hg hmeet
      have hwords : Token.StartsWithWord (ks ++ .word fromWord :: .path k :: rest) →
          AllowsWord (g.reverse ++ (w.text.reverse ++ p)) := fun hword =>
        allowsWord_gap hg fun hnil => absurd hnil (hmeet ⟨rfl, hword⟩)
      refine .cons hg (fun h => hmeet ⟨h.1, Token.startsWithWord_append h.2 _⟩)
        (ih hu hwords fun _ => rfl) fun hfind => ?_
      rw [show runs (Token.word w).text = w.text.map .code from
        Text.runs_of_isPlain fun c hc => Text.isPlain_of_isIdentifierPart (w.isPart hc)]
      refine clauseUpToFrom_word hends himport (fun _ _ _ => ?_) hfind
      -- it does not end the clause: what follows it is no path
      obtain ⟨k', ls, hcons, hpath⟩ := hks.exists_head (.path k :: rest)
      rw [hcons] at hu
      rw [skipTrivia_gap hg, skipTrivia_token hu, ← hpath]
      exact hu.startsQuoted_eq
  | @mark b b' m ks hm hks ih =>
      obtain ⟨g, u, rfl, hg, -, hu⟩ := h.exists_cons
      have hwords : AllowsWord (g.reverse ++ ((Token.mark m).text.reverse ++ p)) :=
        allowsWord_gap hg fun _ => allowsWord_cons m.isApart_char p
      refine .cons hg (fun h => absurd h.1 Bool.false_ne_true)
        (ih hu (fun _ => hwords) fun _ => rfl)
        fun hfind => ?_
      rw [runs_mark]
      exact clauseUpToFrom_mark hm hfind

/-! ## The tokens of a clause -/

theorem Passes.words {b : Bool} {ws : List Name} (hws : b = false → ∀ w ∈ ws, w.text ≠ keyword)
    {ks : List Token} (h : Passes b ks) : Passes b (ws.map .word ++ ks) := by
  induction ws with
  | nil => exact h
  | cons w ws ih =>
      exact .word (fun hb => hws hb w List.mem_cons_self)
        (ih fun hb v hv => hws hb v (List.mem_cons_of_mem w hv))

theorem Passes.separated (pieces : List (List Name)) {ks : List Token} (h : Passes true ks) :
    Passes true (separated pieces ++ ks) := by
  induction pieces with
  | nil => exact h
  | cons ws pieces ih =>
      cases pieces with
      | nil =>
          rw [ScriptImport.separated, List.map_cons, List.map_nil, List.intercalate_singleton]
          exact h.words fun hb => absurd hb (by decide)
      | cons vs pieces =>
          rw [ScriptImport.separated, List.map_cons, List.map_cons, List.intercalate_cons_cons,
            List.append_assoc, List.append_assoc]
          exact Passes.words (fun hb => absurd hb (by decide)) (.mark rfl ih)

theorem Group.passes (g : Group) : Passes false g.tokens := by
  cases g with
  | block entries trailingComma =>
      exact .mark rfl (.separated _ (.mark rfl .nil))
  | «namespace» x =>
      exact .mark rfl (.word (fun _ => by decide) (.word (fun _ => x.ne_keyword) .nil))

/-- The search passes every clause. -/
theorem Clause.passes (c : Clause) : Passes false c.tokens := by
  have hitems : Passes false c.items.tokens := by
    cases c.items with
    | «default» x => exact .word (fun _ => x.ne_keyword) .nil
    | group g => exact g.passes
    | defaultAnd x g => exact .word (fun _ => x.ne_keyword) (.mark rfl g.passes)
  rw [Clause.tokens, markerTokens]
  cases c.typeOnly with
  | true => exact .word (fun _ => by decide) hitems
  | false => exact hitems

end ScriptSurvey.ScriptImport
