import ScriptSurvey.Proofs.Import.Declarations

/-!
# Statements as they are written

An import statement is written with one space between its parts, on a line of its own. Its clause is a
name, a block, a name and a block, or a namespace, and its block may hold quoted names, which no token
stands for. So the search for the end of a clause, which passes tokens in `ClauseEnd`, passes texts
here: what stands in braces has only to be free of comments and of the characters that end the search.

Wherever a statement stands, it is read as the declaration that it says, and the visits go on behind
it.
-/

namespace ScriptSurvey

namespace ScriptImport

open Cursor

/-! ## The search in braces -/

variable {a : Bool} {p t s : Text} {cl : List Run} {q : Cursor}

/-- In braces the search passes any text without comments and without the characters that end it. -/
theorem clauseUpToFrom_uncommented (hs : s.Uncommented (isPassed · = true))
    (h : clauseUpToFrom true false ⟨s.reverse ++ p, t, .code⟩ = some (cl, q)) :
    clauseUpToFrom true false ⟨p, s ++ t, .code⟩ = some (runs s ++ cl, q) := by
  induction hs generalizing p with
  | nil => rwa [runs_nil]
  | @code c s hplain hpassed _ ih =>
      rw [List.reverse_cons, List.append_assoc] at h
      rw [Text.runs_cons_of_isPlain hplain]
      exact clauseUpToFrom_char hplain hpassed (fun hb => Bool.noConfusion hb)
        (fun hb => Bool.noConfusion hb) (ih h)
  | @literal kind body s hbody _ ih =>
      rw [List.reverse_append, List.append_assoc] at h
      rw [Text.runs_literal_append hbody, List.append_assoc]
      exact clauseUpToFrom_pass (Text.leads_literal hbody _) rfl (ih h)

/-- A text in braces. -/
def braced (s : Text) : Text := '\x7b' :: (s ++ ['\x7d'])

theorem uncommented_braced (hs : s.Uncommented (isPassed · = true)) :
    (braced s).Uncommented fun _ => True :=
  .code (by decide) trivial
    ((hs.mono fun _ _ => trivial).append (.code (by decide) trivial .nil))

theorem clauseUpToFrom_braced (hs : s.Uncommented (isPassed · = true))
    (h : clauseUpToFrom false false ⟨(braced s).reverse ++ p, t, .code⟩ = some (cl, q)) :
    clauseUpToFrom false a ⟨p, braced s ++ t, .code⟩ = some (runs (braced s) ++ cl, q) := by
  have hback : (braced s).reverse ++ p = '\x7d' :: (s.reverse ++ '\x7b' :: p) := by
    simp [braced]
  have hruns : runs (braced s) = .code '\x7b' :: (runs s ++ [.code '\x7d']) := by
    rw [braced, Text.runs_cons_of_isPlain (by decide), hs.sealed.runs_append,
      Text.runs_cons_of_isPlain (by decide), runs_nil]
  have hfront : braced s ++ t = '\x7b' :: (s ++ '\x7d' :: t) := by simp [braced]
  rw [hback] at h
  rw [hruns, hfront, List.cons_append, List.append_assoc]
  exact clauseUpToFrom_opening (clauseUpToFrom_uncommented hs (clauseUpToFrom_closing h))

/-! ## The search outside of braces -/

theorem runs_word (w : Name) : runs w.text = w.text.map .code :=
  Text.runs_of_isPlain fun _ hc => Text.isPlain_of_isIdentifierPart (w.isPart hc)

/-- Whether the search goes over the text `s` in front of `t`, from where it starts or from behind
that. -/
def GoesOver (a : Bool) (s t : Text) : Prop :=
  ∀ (p : Text) (cl : List Run) (q : Cursor),
    clauseUpToFrom false false ⟨s.reverse ++ p, t, .code⟩ = some (cl, q) →
    clauseUpToFrom false a ⟨p, s ++ t, .code⟩ = some (runs s ++ cl, q)

theorem GoesOver.append {u : Text} (hs : GoesOver a s (u ++ t)) (hsealed : s.Sealed)
    (hu : GoesOver false u t) : GoesOver a (s ++ u) t := by
  intro p cl q h
  rw [List.reverse_append, List.append_assoc] at h
  rw [List.append_assoc, hsealed.runs_append, List.append_assoc]
  exact hs p _ q (hu _ cl q h)

/-- A name is passed, if it does not end the clause. -/
theorem goesOver_word (w : LocalName) (ht : Text.EndsWord t)
    (hfrom : a = false → ∀ p, atQuote (skipTrivia ⟨p, t, .code⟩) = false) :
    GoesOver a w.text t := by
  intro p cl q h
  rw [runs_word]
  exact clauseUpToFrom_word (w := w.toName) ht (fun _ => w.ne_keyword)
    (fun _ ha _ => hfrom ha _) h

theorem goesOver_apart {c : Char} (hplain : Text.isPlain c = true) (hpassed : isPassed c = true)
    (hc : Text.isIdentifierPart c = false) : GoesOver a [c] t := by
  intro p cl q h
  rw [Text.runs_cons_of_isPlain hplain, runs_nil]
  exact clauseUpToFrom_apart hplain hpassed hc h

theorem goesOver_space : GoesOver a [' '] t :=
  goesOver_apart (by decide) (by decide) (by decide)

theorem goesOver_braced (hs : s.Uncommented (isPassed · = true)) : GoesOver a (braced s) t := by
  intro p cl q h
  exact clauseUpToFrom_braced hs h

/-- Behind a space and in front of a `from` there is no quote. -/
theorem atQuote_space_from (p t : Text) :
    atQuote (skipTrivia ⟨p, ' ' :: (fromWord.text ++ t), .code⟩) = false := by
  have hgap := skipTrivia_gap (t := fromWord.text ++ t) Text.isBlanks_space.isTrivia p
  have hword := skipTrivia_of_leads (t := "rom".toList ++ t)
    (Text.leads_of_isPlain (show Text.isPlain 'f' = true by decide) _) (' ' :: p) .code
  rw [if_neg (by decide)] at hword
  exact congrArg atQuote (hgap.trans hword)

/-! ## A clause -/

/-- Whether a text begins as a clause can: with no quote, no white space, no parenthesis and no
dot. -/
def BeginsClause (s : Text) : Prop :=
  ∃ c u, s = c :: u ∧ Text.isPlain c = true ∧ Text.isWhiteSpace c = false ∧ c ≠ '(' ∧ c ≠ '.'

namespace BeginsClause

theorem isBlank_head (h : BeginsClause s) : ∀ c, s.head? = some c → Text.isBlank c = false := by
  obtain ⟨d, u, rfl, -, hd, -⟩ := h
  intro c hc
  rw [← Option.some.inj hc]
  exact (Bool.or_eq_false_iff.mp hd).1

theorem append (h : BeginsClause s) (t : Text) : BeginsClause (s ++ t) := by
  obtain ⟨c, u, rfl, hc⟩ := h
  exact ⟨c, u ++ t, rfl, hc⟩

/-- It stops a cursor that skips trivia. -/
theorem skipTrivia_eq (h : BeginsClause t) (p : Text) :
    skipTrivia ⟨p, t, .code⟩ = ⟨p, t, .code⟩ := by
  obtain ⟨c, u, rfl, hplain, hwhite, -⟩ := h
  refine (skipTrivia_of_leads (Text.leads_of_isPlain hplain u) p .code).trans (if_neg ?_)
  rw [Run.isTrivia, hwhite]
  exact Bool.false_ne_true

theorem startsQuoted_eq (h : BeginsClause t) : startsQuoted t = false := by
  obtain ⟨c, u, rfl, hplain, -⟩ := h
  simp only [startsQuoted, Bool.or_eq_false_iff, beq_eq_false_iff_ne]
  constructor
  · rintro rfl
    exact absurd hplain (by decide)
  · rintro rfl
    exact absurd hplain (by decide)

end BeginsClause

theorem beginsClause_word (w : Name) (t : Text) : BeginsClause (w.text ++ t) := by
  obtain ⟨c, u, hw, hc⟩ := w.exists_cons
  exact ⟨c, u ++ t, by rw [hw]; rfl, Text.isPlain_of_isIdentifierPart hc,
    Text.isWhiteSpace_of_isIdentifierPart hc, Text.ne_of_isIdentifierPart hc rfl,
    Text.ne_of_isIdentifierPart hc rfl⟩

/-- A text that stands for a clause, in front of ` from ` and a path: what the search for its end and
the reader of clauses make of it. -/
structure IsClause (s : Text) (bs : List Binding) : Prop where
  begins : BeginsClause s
  uncommented : s.Uncommented fun _ => True
  search : ∀ t : Text, GoesOver true (s ++ [' ']) (fromWord.text ++ t)
  read : readClause (s ++ [' ']) = some bs

theorem uncommented_word (w : Name) : w.text.Uncommented fun _ => True :=
  w.uncommented fun _ _ => trivial

/-- A name alone is the default import. -/
theorem isClause_default (w : LocalName) :
    IsClause w.text [⟨w.text, .default, none, false⟩] where
  begins := by
    have h := beginsClause_word w.toName []
    rwa [List.append_nil] at h
  uncommented := uncommented_word w.toName
  search t := by
    have hword : GoesOver true w.text ([' '] ++ (fromWord.text ++ t)) :=
      goesOver_word w (Text.endsWord_cons rfl _) fun ha => Bool.noConfusion ha
    exact hword.append (uncommented_word w.toName).sealed goesOver_space
  read := by
    have hspells := Spells.spaced Text.isBlanks_space [.word w.toName]
    rw [List.flatMap_cons, List.flatMap_nil, List.append_nil] at hspells
    exact readClause_of_spells ⟨false, .default w⟩ hspells

/-- A star and a name are all exports. -/
theorem isClause_namespace (w : LocalName) :
    IsClause ("* as ".toList ++ w.text) [⟨w.text, .namespace, none, false⟩] where
  begins := ⟨'*', _, rfl, by decide, by decide, by decide, by decide⟩
  uncommented := .append (.of_forall (by decide)) (uncommented_word w.toName)
  search t := by
    have hsealed {c : Char} (hc : Text.isPlain c = true) : Text.Sealed [c] :=
      Text.sealed_of_isPlain fun d hd => List.mem_singleton.mp hd ▸ hc
    have hname : GoesOver false (w.text ++ [' ']) (fromWord.text ++ t) :=
      (goesOver_word w (Text.endsWord_cons rfl _) fun _ p => atQuote_space_from p t).append
        (uncommented_word w.toName).sealed goesOver_space
    have has : GoesOver false asWord.text ([' '] ++ (w.text ++ [' ']) ++ (fromWord.text ++ t)) := by
      intro p cl q h
      rw [runs_word]
      exact clauseUpToFrom_word (Text.endsWord_cons rfl _) (fun _ => by decide)
        (fun _ _ he => absurd he (by decide)) h
    -- part by part; a name that is `from` does not stop the search, since no quote follows it
    have hall : GoesOver true
        (['*'] ++ ([' '] ++ (asWord.text ++ ([' '] ++ (w.text ++ [' ']))))) (fromWord.text ++ t) :=
      (goesOver_apart (by decide) (by decide) (by decide)).append (hsealed (by decide))
        (goesOver_space.append (hsealed (by decide))
          (has.append (uncommented_word asWord).sealed
            (goesOver_space.append (hsealed (by decide)) hname)))
    rw [List.append_assoc]
    exact hall
  read := by
    have htext : "* as ".toList ++ w.text ++ [' '] =
        [Token.mark .star, .word asWord, .word w.toName].flatMap fun k => k.text ++ [' '] := by
      simp [Token.text, Mark.char, asWord]
    rw [htext]
    exact readClause_of_spells ⟨false, .group (.namespace w)⟩ (Spells.spaced Text.isBlanks_space _)

/-- A text in braces is read as a block. -/
theorem readItems_braced (hs : s.Uncommented (isPassed · = true)) :
    readItems false (braced s) = some (readBlock false s) := by
  -- a brace inside a string does not end the block, and there is no other
  have hnone : Run.code '\x7d' ∉ runs s := fun hmem => absurd (hs.of_mem_runs hmem) (by decide)
  have hitem : readItem false (braced s) = some (readBlock false s, []) := by
    show (cutAtCode '\x7d' (s ++ ['\x7d'])).map _ = _
    rw [cutAtCode_append rfl hs.sealed hnone, Option.map_some]
  rw [readItems_of_readItem hitem]
  rfl

/-- With braces at its end a clause without a marker is read item by item. -/
theorem readClause_braced {u g : Text} (hg : Text.IsBlanks g) (hbegins : BeginsClause (u ++ braced s))
    (hmarker : afterTypeMarker? (u ++ braced s) = none) :
    readClause (u ++ braced s ++ g) = readItems false (u ++ braced s) := by
  -- only the blanks behind the clause are trimmed
  have hlast : ∀ c, (u ++ braced s).getLast? = some c → Text.isBlank c = false := by
    intro c hc
    rw [braced, ← List.cons_append, ← List.append_assoc, List.getLast?_concat] at hc
    exact Option.some.inj hc ▸ by decide
  have htrim : Text.trim (u ++ braced s ++ g) = u ++ braced s :=
    (Text.trim_between .nil hg _).trans (Text.trim_of_ends hbegins.isBlank_head hlast)
  unfold readClause
  simp only [htrim, hmarker]

theorem beginsClause_braced (s : Text) : BeginsClause (braced s) :=
  ⟨'\x7b', _, rfl, by decide, by decide, by decide, by decide⟩

/-- A clause of braces alone is read as a block. -/
theorem readClause_block {g : Text} (hg : Text.IsBlanks g)
    (hs : s.Uncommented (isPassed · = true)) :
    readClause (braced s ++ g) = some (readBlock false s) :=
  (readClause_braced (u := []) hg (beginsClause_braced s) rfl).trans (readItems_braced hs)

/-- Braces alone are a block. -/
theorem isClause_braced (hs : s.Uncommented (isPassed · = true)) :
    IsClause (braced s) (readBlock false s) where
  begins := beginsClause_braced s
  uncommented := uncommented_braced hs
  search _ := (goesOver_braced hs).append (uncommented_braced hs).sealed goesOver_space
  read := readClause_block Text.isBlanks_space hs

/-- A name and a block behind a comma. -/
theorem isClause_defaultAnd (w : LocalName) (hs : s.Uncommented (isPassed · = true)) :
    IsClause (w.text ++ ([',', ' '] ++ braced s))
      (⟨w.text, .default, none, false⟩ :: readBlock false s) where
  begins := beginsClause_word w.toName _
  uncommented :=
    (uncommented_word w.toName).append ((Text.Uncommented.of_forall (by decide)).append
      (uncommented_braced hs))
  search t := by
    have hsealed : Text.Sealed [',', ' '] := Text.sealed_of_isPlain (by decide)
    have hword : GoesOver true w.text ([',', ' '] ++ (braced s ++ [' ']) ++ (fromWord.text ++ t)) :=
      goesOver_word w (Text.endsWord_cons rfl _) fun ha => Bool.noConfusion ha
    have hcomma : GoesOver false [',', ' '] (braced s ++ [' '] ++ (fromWord.text ++ t)) :=
      (goesOver_apart (c := ',') (by decide) (by decide) (by decide)).append
        (Text.sealed_of_isPlain (by decide)) goesOver_space
    have hblock : GoesOver false (braced s ++ [' ']) (fromWord.text ++ t) :=
      (goesOver_braced hs).append (uncommented_braced hs).sealed goesOver_space
    rw [List.append_assoc, List.append_assoc]
    exact hword.append (uncommented_word w.toName).sealed (hcomma.append hsealed hblock)
  read := by
    have hends : Text.EndsWord ([',', ' '] ++ braced s) := Text.endsWord_cons rfl _
    have hmarker := afterTypeMarker?_word (w := w.toName) hends fun _ => .inr rfl
    have hitems : readItems false (w.text ++ ([',', ' '] ++ braced s)) =
        some (⟨w.text, .default, none, false⟩ :: readBlock false s) := by
      rw [readItems_of_readItem (readItem_word false w.toName hends)]
      show (readItems false (braced s)).map _ = _
      rw [readItems_braced hs]
      rfl
    have hbegins := beginsClause_word w.toName ([',', ' '] ++ braced s)
    rw [← List.append_assoc] at hmarker hitems hbegins ⊢
    exact (readClause_braced Text.isBlanks_space hbegins hmarker).trans hitems

/-! ## A statement -/

/-- A text that stands for a declaration: wherever a declaration can begin, the visits find this one,
and go on behind the text. -/
structure IsStatement (x : Text) (d : Declaration) : Prop where
  visits : ∀ p v : Text, AllowsWord p →
    (visit look ⟨p, x ++ v, .code⟩).map Declaration.unplaced =
      d :: (visit look ⟨x.reverse ++ p, v, .code⟩).map Declaration.unplaced
  allowsWord : ∀ p : Text, AllowsWord (x.reverse ++ p)

/-- What is read behind a keyword up to a path makes a statement, with a semicolon behind it. -/
theorem isStatement_of_read {front q path : Text} {bs : List Binding} {hasClause : Bool}
    (hends : ∀ t, Text.EndsWord (front ++ t))
    (hread : ∀ p v : Text,
      declarationAt? ⟨p, importWord.text ++ (front ++ (q ++ v)), .code⟩ =
        some ⟨path, bs, spanTo v ⟨p, importWord.text ++ (front ++ (q ++ v)), .code⟩, hasClause⟩) :
    IsStatement (importWord.text ++ (front ++ q) ++ [';']) ⟨path, bs, ⟨0, 0⟩, hasClause⟩ where
  visits p v hp := by
    have hsplit (v : Text) : importWord.text ++ (front ++ (q ++ v)) =
        importWord.text ++ (front ++ q) ++ v := by simp
    have hword : atKeyword keyword
        ⟨p, importWord.text ++ (front ++ (q ++ ';' :: v)), .code⟩ = true :=
      atKeyword_self (w := importWord) hp (hends _)
    have hlook := look_keyword hword (hread p (';' :: v))
    rw [hsplit] at hlook
    -- the declaration ends at its path, and the semicolon behind it is visited for itself
    have hfound : visit look ⟨p, importWord.text ++ (front ++ q) ++ ';' :: v, .code⟩ = _ :=
      visit_found (by decide) hlook (stop_spanTo p _ _)
    rw [List.append_assoc _ [';'] v, List.singleton_append, hfound, List.map_cons]
    refine congrArg₂ List.cons rfl (congrArg (List.map Declaration.unplaced) ?_)
    refine (visit_semicolon _ v).trans ?_
    rw [List.reverse_append]
    rfl
  allowsWord p := by
    rw [List.reverse_append, List.reverse_singleton]
    exact allowsWord_cons Mark.semicolon.isApart_char _

theorem isStatement_bare {q path : Text} (hq : q.Quotes path) :
    IsStatement ("import ".toList ++ (q ++ [';'])) ⟨path, [], ⟨0, 0⟩, false⟩ := by
  have h : IsStatement (importWord.text ++ ([' '] ++ q) ++ [';']) ⟨path, [], ⟨0, 0⟩, false⟩ :=
    isStatement_of_read (fun t => Text.endsWord_cons rfl t)
      fun p v => declarationAt?_bare Text.isBlanks_space.isTrivia hq p v
  have htext : importWord.text ++ ([' '] ++ q) ++ [';'] = "import ".toList ++ (q ++ [';']) := by
    rw [show "import ".toList = importWord.text ++ [' '] from rfl]
    simp only [List.append_assoc]
  rwa [htext] at h

/-- Where the search goes over a text up to a `from`, the declaration binds what the text is read as,
and names the module behind the `from`. -/
theorem declarationAt?_of_goesOver {g g' q path v : Text} {bs : List Binding} (hg : Text.IsTrivia g)
    (hg' : Text.IsTrivia g') (hq : q.Quotes path) (hbegins : BeginsClause s)
    (hallows : ∀ p, AllowsWord (s.reverse ++ p))
    (hsearch : GoesOver true s (fromWord.text ++ (g' ++ (q ++ v))))
    (hread : readClause (stripComments s) = some bs) (p : Text) :
    declarationAt? ⟨p, importWord.text ++ (g ++ (s ++ (fromWord.text ++ (g' ++ (q ++ v))))), .code⟩ =
      some ⟨path, bs, spanTo v
        ⟨p, importWord.text ++ (g ++ (s ++ (fromWord.text ++ (g' ++ (q ++ v))))), .code⟩, true⟩ := by
  have hstarts := hbegins.append (fromWord.text ++ (g' ++ (q ++ v)))
  have hfirst : skipTrivia (forward keyword.length
      ⟨p, importWord.text ++ (g ++ (s ++ (fromWord.text ++ (g' ++ (q ++ v))))), .code⟩) =
      ⟨g.reverse ++ (importWord.text.reverse ++ p), s ++ (fromWord.text ++ (g' ++ (q ++ v))),
        .code⟩ := by
    rw [show keyword.length = importWord.text.length from rfl, forward_append, skipTrivia_gap hg,
      hstarts.skipTrivia_eq]
  -- the search stops at the `from` behind the text
  have hends : Text.EndsWord (g' ++ (q ++ v)) := hg'.endsWord fun _ => hq.endsWord v
  have hstop (p : Text) : clauseUpToFrom false false
      ⟨s.reverse ++ p, fromWord.text ++ (g' ++ (q ++ v)), .code⟩ = some ([], ⟨_, q ++ v, .code⟩) :=
    clauseUpToFrom_stop (hallows p) hends ((skipTrivia_gap hg' _).trans (hq.skipTrivia_eq _ v))
      (hq.startsQuoted v)
  have hfind := hsearch (g.reverse ++ (importWord.text.reverse ++ p)) [] _ (hstop _)
  rw [List.append_nil] at hfind
  have hquote := hstarts.startsQuoted_eq
  obtain ⟨d, w, hcons, -, -, hne⟩ := hstarts
  exact declarationAt?_of_find hq hfirst hquote ⟨d, w, hcons, hne⟩ hfind rfl hread

/-- Behind a clause that a text stands for, the declaration names its module. -/
theorem declarationAt?_of_isClause {q path : Text} {bs : List Binding} (h : IsClause s bs)
    (hq : q.Quotes path) (p v : Text) :
    declarationAt? ⟨p, importWord.text ++
        ([' '] ++ (s ++ [' '] ++ (fromWord.text ++ [' '])) ++ (q ++ v)), .code⟩ =
      some ⟨path, bs, spanTo v ⟨p, importWord.text ++
        ([' '] ++ (s ++ [' '] ++ (fromWord.text ++ [' '])) ++ (q ++ v)), .code⟩, true⟩ := by
  have hspace := Text.isBlanks_space.isTrivia
  have hallows (p : Text) : AllowsWord ((s ++ [' ']).reverse ++ p) := by
    rw [List.reverse_append]
    exact allowsWord_cons (Text.isApart_of_isBlank (by decide)) _
  have hclause : readClause (stripComments (s ++ [' '])) = some bs := by
    rw [(h.uncommented.append (.code (by decide) trivial .nil)).stripComments, h.read]
  have hsplit : [' '] ++ (s ++ [' '] ++ (fromWord.text ++ [' '])) ++ (q ++ v) =
      [' '] ++ (s ++ [' '] ++ (fromWord.text ++ ([' '] ++ (q ++ v)))) := by
    simp only [List.append_assoc]
  rw [hsplit]
  exact declarationAt?_of_goesOver hspace hspace hq (h.begins.append [' ']) hallows (h.search _)
    hclause p

theorem isStatement_clause {q path : Text} {bs : List Binding} (h : IsClause s bs)
    (hq : q.Quotes path) :
    IsStatement ("import ".toList ++ s ++ " from ".toList ++ (q ++ [';']))
      ⟨path, bs, ⟨0, 0⟩, true⟩ := by
  have hread := isStatement_of_read (fun t => Text.endsWord_cons rfl _)
    fun p v => declarationAt?_of_isClause h hq p v
  have htext : importWord.text ++ ([' '] ++ (s ++ [' '] ++ (fromWord.text ++ [' '])) ++ q) ++ [';'] =
        "import ".toList ++ s ++ " from ".toList ++ (q ++ [';']) := by
    rw [show "import ".toList = importWord.text ++ [' '] from rfl,
      show " from ".toList = [' '] ++ (fromWord.text ++ [' ']) from rfl]
    simp only [List.append_assoc]
  rwa [htext] at hread

/-! ## All statements -/

/-- **Statements on lines of their own are all found**, each as the declaration it stands for. -/
theorem visit_statements {xs : List Text} {ds : List Declaration}
    (h : List.Forall₂ IsStatement xs ds) (hp : AllowsWord p) :
    (visit look ⟨p, List.intercalate ['\n'] xs, .code⟩).map Declaration.unplaced = ds := by
  induction h generalizing p with
  | nil =>
      rw [List.intercalate_nil, visit_end]
      rfl
  | @cons x d xs ds hx hxs ih =>
      cases xs with
      | nil =>
          cases hxs
          have hlast := hx.visits p [] hp
          rw [List.append_nil, visit_end] at hlast
          rw [List.intercalate_singleton]
          exact hlast
      | cons y xs =>
          -- a declaration may begin behind the line break, so the rest is found by induction
          have hline : Text.IsTrivia ['\n'] := .blank (by decide) .nil
          have hallows : AllowsWord (['\n'].reverse ++ (x.reverse ++ p)) :=
            allowsWord_cons (Text.isApart_of_isBlank (by decide)) _
          rw [List.intercalate_cons_cons, List.append_assoc, hx.visits p _ hp, visit_gap hline,
            ih hallows]

end ScriptImport

/-! ## The records of statements -/

/-- A record with all that a plan is made of, and nothing else. -/
def ImportRecord.content (r : ImportRecord) : ImportRecord :=
  .ofScript r.module r.bindings r.sideEffect

/-- What declarations say of a module, as the content of a record. -/
def Declaration.contentOf (ds : List Declaration) (module : Text) : ImportRecord :=
  .ofScript module ((ds.filter (·.module == module)).flatMap (·.bindings))
    ((ds.filter (·.module == module)).any (!·.hasClause))

/-- Where a declaration stands makes no difference to what it says. -/
theorem Declaration.contentOf_unplaced (ds : List Declaration) (module : Text) :
    contentOf (ds.map unplaced) module = contentOf ds module := by
  have hfilter : (ds.map unplaced).filter (·.module == module) =
      (ds.filter (·.module == module)).map unplaced := List.filter_map
  unfold contentOf
  rw [hfilter, List.flatMap_map, List.any_map]
  rfl

/-- **The records of statements**: one for each module, in the order in which the modules first come
up, with all that is said of it. -/
theorem content_readScriptImports {xs : List Text} {ds : List Declaration}
    (h : List.Forall₂ ScriptImport.IsStatement xs ds) (importer : Text) :
    (readScriptImports importer (List.intercalate ['\n'] xs)).records.map ImportRecord.content =
      (ds.map (·.module)).eraseDups.map (Declaration.contentOf ds) := by
  have hfind : (scriptDeclarations (List.intercalate ['\n'] xs)).map Declaration.unplaced = ds :=
    ScriptImport.visit_statements h (p := []) fun c hc => absurd hc (by simp)
  rw [readScriptImports, FileImports.records_foldl_add _ _ fun m => !Path.isRelative m, ← hfind,
    List.map_map, List.map_map]
  refine List.map_congr_left fun m _ => ?_
  rw [Declaration.contentOf_unplaced]
  simp [FileImports.recordOf, ImportRecord.content, ImportRecord.addAll, Declaration.contentOf,
    FileImports.start, ImportRecord.empty]

end ScriptSurvey
