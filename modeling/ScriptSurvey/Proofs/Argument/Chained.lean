import ScriptSurvey.Proofs.Argument.ByOffset
import ScriptSurvey.Proofs.Argument.ReadBack
import ScriptSurvey.Proofs.Lexical.Overflow

/-!
# Calls with something behind them

A call is read as one only if nothing follows its closing parenthesis. A chain `f(a).b`, `f<T>(a)[0]` or
`f(a)!` begins as a call does, and what its arguments hold may look like anything else: an arrow, an
` as `, a `<`. None of that is seen, since it stands in brackets, and the partner of the opening bracket
is found however brackets of the four kinds, strings and comments are nested between the two. So **a chain
is a leaf**, the text as it was written.

On one point the reader does not follow its own brackets. Type arguments that end in `=` make an arrow
of the `>` behind them, so that the `<` is left open to the end. That is no call either.

A reader that counts brackets in words of 32 bits sees the arguments again once `2 ^ 31` brackets are open
at once. A chain needs `2 ^ 32` bytes for that.
-/

namespace ScriptSurvey

open Run Nesting

/-- Runs in which every bracket of the four kinds has a partner of its own kind. -/
def Paired (rs : List Run) : Prop :=
  ∃ e, BracketStack.empty.walk rs = some ⟨[], e⟩

theorem Paired.even {rs : List Run} (h : Paired rs) : IsEven rs := by
  obtain ⟨e, hw⟩ := h
  exact BracketStack.openBehind_of_walk hw

namespace Text

/-- Whether the text goes on behind a call: with an access, one more call, or a `!`. -/
def BeginsChain (t : Text) : Prop :=
  ['.'] <+: t ∨ ['['] <+: t ∨ ['('] <+: t ∨ ['!'] <+: t ∨ ['?', '.'] <+: t

instance (t : Text) : Decidable t.BeginsChain :=
  inferInstanceAs (Decidable (_ ∨ _))

/-- The text of a call, with or without type arguments, and what stands behind it. -/
def chained (name : Text) (types : Option Text) (args suffix : Text) : Text :=
  name ++ (types.elim [] (fun t => '<' :: (t ++ ['>'])) ++ '(' :: (args ++ ')' :: suffix))

end Text

namespace Form

open Element

variable {name : Text} {types args q : List Run} {n : Nat}

theorem call?_of_suffix (h : IsName name) (ha : ClosedBy ')' args) (hq : isBlankCode q = false) :
    call? (runs name) (args ++ code ')' :: q) = none := by
  simp only [call?]
  rw [join_runs, trim_name h, if_pos (isCallee_of_isName h), ha.enclosed]
  simp only [hq]
  rfl

/-- Behind type arguments that end in `=`, the bracket in front of them is never closed. -/
theorem openBehind_types (ht : IsEven types) (he : endsInEquals types = true) (ha : ClosedBy ')' args)
    (hopen : openBehind 0 false q = some n) :
    openBehind 0 false (types ++ code '>' :: code '(' :: (args ++ code ')' :: q)) = some n := by
  rw [ht.openBehind_append, he]
  show openBehind 0 false (code '(' :: (args ++ code ')' :: q)) = some n
  rw [openBehind_group pair_round ha, hopen]

theorem generic?_of_suffix (h : IsName name) (ht : IsEven types) (ha : ClosedBy ')' args)
    (hq : isBlankCode q = false) (hopen : openBehind 0 false q = some n) :
    generic? (runs name) (types ++ code '>' :: code '(' :: (args ++ code ')' :: q)) = none := by
  simp only [generic?]
  rw [join_runs, trim_name h, if_pos (isCallee_of_isName h)]
  cases he : endsInEquals types with
  | false =>
      have hclosed : ClosedBy '>' types := ⟨ht, by rw [he]; rfl⟩
      have hdrop : dropBlanks (code '(' :: (args ++ code ')' :: q)) =
          code '(' :: (args ++ code ')' :: q) := rfl
      rw [hclosed.enclosed]
      simp only [hdrop]
      rw [ha.enclosed]
      simp only [hq]
      rfl
  | true => rw [enclosed, enclosedFrom_of_openBehind (openBehind_types ht he ha hopen)]

/-- Outside the brackets of a chain there is what is outside those of its suffix. -/
theorem lacks_types {w : Char} (hw : w ≠ '<' ∧ w ≠ '(') {word : Text} (ht : IsEven types)
    (ha : ClosedBy ')' args) (hq : Lacks (w :: word) q) (hopen : openBehind 0 false q = some n) :
    Lacks (w :: word) (code '<' :: (types ++ code '>' :: code '(' :: (args ++ code ')' :: q))) := by
  cases he : endsInEquals types with
  | false =>
      exact lacks_group pair_angle ⟨ht, by rw [he]; rfl⟩ hw.1 (lacks_group pair_round ha hw.2 hq)
  | true =>
      rw [Lacks, cutAtFirst_open pair_angle hw.1,
        cutAtFirst_of_openBehind (openBehind_types ht he ha hopen)]
      rfl

/-- What stands behind the parentheses of a call, as runs: neither blank nor read as anything. -/
structure IsSuffix (q : List Run) : Prop where
  notBlank : isBlankCode q = false
  opened : ∃ n, openBehind 0 false q = some n
  lacksAs : Lacks asWord q
  lacksArrow : Lacks ['=', '>'] q

theorem of_chained_call (h : IsName name) (ha : ClosedBy ')' args) (hq : IsSuffix q)
    (ht : Trimmed (runs name ++ code '(' :: (args ++ code ')' :: q))) :
    of (runs name ++ code '(' :: (args ++ code ')' :: q)) =
      leaf (Run.join (runs name ++ code '(' :: (args ++ code ')' :: q))) := by
  rw [of_applied h pair_round (lacks_group pair_round ha (by decide) hq.lacksAs)
    (lacks_group pair_round ha (by decide) hq.lacksArrow) ht, applied?_call h,
    call?_of_suffix h ha hq.notBlank]
  rfl

theorem of_chained_generic (h : IsName name) (ht : IsEven types) (ha : ClosedBy ')' args)
    (hq : IsSuffix q)
    (htrim : Trimmed (runs name ++
      code '<' :: (types ++ code '>' :: code '(' :: (args ++ code ')' :: q)))) :
    of (runs name ++ code '<' :: (types ++ code '>' :: code '(' :: (args ++ code ')' :: q))) =
      leaf (Run.join (runs name ++
        code '<' :: (types ++ code '>' :: code '(' :: (args ++ code ')' :: q)))) := by
  obtain ⟨n, hopen⟩ := hq.opened
  rw [of_applied h pair_angle (lacks_types (by decide) ht ha hq.lacksAs hopen)
    (lacks_types (by decide) ht ha hq.lacksArrow hopen) htrim, applied?_generic h,
    generic?_of_suffix h ht ha hq.notBlank hopen]
  rfl

end Form

/-! ## Chains as texts -/

namespace Text

theorem exists_cons_of_beginsChain {t : Text} (h : t.BeginsChain) :
    ∃ c u, t = c :: u ∧ isPlain c = true ∧ (code c).isTrivia = false := by
  rcases h with ⟨u, rfl⟩ | ⟨u, rfl⟩ | ⟨u, rfl⟩ | ⟨u, rfl⟩ | ⟨u, rfl⟩
  · exact ⟨'.', u, rfl, by decide, by decide⟩
  · exact ⟨'[', u, rfl, by decide, by decide⟩
  · exact ⟨'(', u, rfl, by decide, by decide⟩
  · exact ⟨'!', u, rfl, by decide, by decide⟩
  · exact ⟨'?', '.' :: u, rfl, by decide, by decide⟩

/-- What is left of a suffix when trivia at its end is trimmed. -/
theorem exists_isSuffix {t : Text} (h : t.BeginsChain) (hp : IsEven (runs t))
    (has : Lacks asWord (runs t)) (harrow : Lacks ['=', '>'] (runs t)) :
    ∃ q b, runs t = q ++ b ∧ (∀ r ∈ b, r.isTrivia = true) ∧ Trimmed q ∧ Form.IsSuffix q := by
  obtain ⟨c, u, rfl, hplain, htrivia⟩ := exists_cons_of_beginsChain h
  have hruns : runs (c :: u) = code c :: runs u := runs_cons_of_isPlain hplain u
  obtain ⟨a, b, hsplit, ha, hb⟩ := exists_trim (runs (c :: u))
  have hmem : code c ∈ Run.trim (runs (c :: u)) :=
    mem_trim (by rw [hruns]; exact List.mem_cons_self) htrivia
  -- the suffix does not begin with trivia, so trimming leaves its front as it is
  have hnil : a = [] := by
    cases a with
    | nil => rfl
    | cons r a =>
        rw [hruns, List.cons_append, List.cons.injEq] at hsplit
        have := ha r List.mem_cons_self
        rw [← hsplit.1, htrivia] at this
        exact Bool.noConfusion this
  rw [hnil, List.nil_append] at hsplit
  refine ⟨_, b, hsplit, hb, trimmed_trim (List.ne_nil_of_mem hmem), ?_⟩
  rw [IsEven, hsplit] at hp
  rw [hsplit, Lacks] at has harrow
  refine ⟨?_, exists_openBehind_of_append hp, cutAtFirst_of_append has, cutAtFirst_of_append harrow⟩
  refine Form.isAllBlank_join (t := c :: u) (fun r hr => ?_) hmem htrivia
  rw [hsplit]
  exact List.mem_append_left b hr

end Text

/-- A text is a leaf if its runs without trivia at their ends are. -/
theorem parseElement_of_trim {t : Text} {p b : List Run} (hruns : runs t = p ++ b) (hp : Trimmed p)
    (hb : ∀ r ∈ b, r.isTrivia = true) (hleaf : Form.of p = .leaf (join p)) :
    parseElement t = .leaf (trimTrivia t) := by
  have htrim : Run.trim (runs t) = p := by
    have := trim_padded (a := []) hp (by simp) hb
    rwa [List.nil_append, ← hruns] at this
  have hsame : Run.trim (runs t) = Run.trim p := by rw [htrim, trim_of_trimmed hp]
  rw [parseElement, Element.ofRuns_of_trim_eq hsame, Element.ofRuns_eq, hleaf, trimTrivia, htrim]
  rfl

theorem runs_in_parentheses {args : Text} (ha : args.Settled) (suffix : Text) :
    runs ('(' :: (args ++ ')' :: suffix)) = code '(' :: (runs args ++ code ')' :: runs suffix) := by
  rw [Text.runs_cons_of_isPlain (by decide), ha.runs_append (by simp) (by simp),
    Text.runs_cons_of_isPlain (by decide)]

theorem runs_behind_name {name : Text} (hn : Element.IsName name) (t : Text) :
    runs (name ++ t) = runs name ++ runs t := by
  rw [Text.runs_append_of_isPlain (Element.isPlain_of_isName hn), Element.runs_name hn]

/-- Scanned behind one another, the pieces of a chain keep their runs. -/
theorem runs_chained {name args suffix : Text} {types : Option Text} (hname : Element.IsName name)
    (htypes : ∀ t ∈ types, t.Settled) (hargs : args.Settled) :
    runs (Text.chained name types args suffix) =
      runs name ++ (types.elim [] (fun t => code '<' :: (runs t ++ [code '>'])) ++
        code '(' :: (runs args ++ code ')' :: runs suffix)) := by
  rw [Text.chained, runs_behind_name hname]
  refine congrArg (runs name ++ ·) ?_
  cases types with
  | none => exact runs_in_parentheses hargs suffix
  | some t =>
      show runs ('<' :: ((t ++ ['>']) ++ '(' :: (args ++ ')' :: suffix))) = _
      rw [Text.runs_cons_of_isPlain (by decide), List.append_assoc,
        (htypes t rfl).runs_append (by simp) (by simp), List.singleton_append,
        Text.runs_cons_of_isPlain (by decide), runs_in_parentheses hargs]
      simp

section Chain

variable {name args suffix : Text} {types : Option Text} (hname : Element.IsName name)
  (htypes : ∀ t ∈ types, t.Settled ∧ Paired (runs t)) (hargs : args.Settled ∧ Paired (runs args))

include htypes hargs

/-- Behind its name, a chain closes what it opens, up to one `<`. -/
theorem exists_openBehind_chained (hsuffix : Paired (runs suffix)) :
    ∃ k ≤ 1, openBehind 0 false (types.elim [] (fun t => code '<' :: (runs t ++ [code '>'])) ++
      code '(' :: (runs args ++ code ')' :: runs suffix)) = some k := by
  have hclosed : ClosedBy ')' (runs args) := hargs.2.even.closedBy (by simp)
  have hparens : openBehind 0 false (code '(' :: (runs args ++ code ')' :: runs suffix)) = some 0 := by
    rw [openBehind_group pair_round hclosed]
    exact hsuffix.even
  cases types with
  | none => exact ⟨0, Nat.zero_le 1, hparens⟩
  | some t =>
      have hlist : (some t).elim [] (fun t => code '<' :: (runs t ++ [code '>'])) ++
          code '(' :: (runs args ++ code ')' :: runs suffix) =
            code '<' :: (runs t ++ code '>' :: code '(' :: (runs args ++ code ')' :: runs suffix)) := by
        simp
      rw [hlist]
      have heven := (htypes t rfl).2.even
      cases he : endsInEquals (runs t) with
      | false =>
          have htypesClosed : ClosedBy '>' (runs t) := ⟨heven, by rw [he]; rfl⟩
          exact ⟨0, Nat.zero_le 1, by rw [openBehind_group pair_angle htypesClosed, hparens]⟩
      | true =>
          have hopen := Form.openBehind_types heven he hclosed hsuffix.even
          exact ⟨1, Nat.le_refl 1, openBehind_add hopen 1⟩

include hname

/-- Without bounds on the count of brackets, every chain is a leaf. -/
theorem parseElement_of_beginsChain (hsuffix : suffix.BeginsChain ∧ Paired (runs suffix))
    (has : Lacks asWord (runs suffix)) (harrow : Lacks ['=', '>'] (runs suffix)) :
    parseElement (Text.chained name types args suffix) =
      .leaf (trimTrivia (Text.chained name types args suffix)) := by
  obtain ⟨q, b, hq, hb, htrimmed, hissuffix⟩ :=
    Text.exists_isSuffix hsuffix.1 hsuffix.2.even has harrow
  have hclosed : ClosedBy ')' (runs args) := hargs.2.even.closedBy (by simp)
  have hfront (m : List Run) := (Element.trimmed_name hname).append htrimmed m
  have hruns : runs (Text.chained name types args suffix) = _ :=
    runs_chained hname (fun t ht => (htypes t ht).1) hargs.1
  rw [hq] at hruns
  -- the suffix loses trivia at its end
  cases types with
  | none =>
      have hsplit : runs (Text.chained name none args suffix) =
          (runs name ++ code '(' :: (runs args ++ code ')' :: q)) ++ b := by
        rw [hruns]
        simp
      have htrim : Trimmed (runs name ++ code '(' :: (runs args ++ code ')' :: q)) := by
        simpa using hfront (code '(' :: (runs args ++ [code ')']))
      exact parseElement_of_trim hsplit htrim hb (Form.of_chained_call hname hclosed hissuffix htrim)
  | some t =>
      have hsplit : runs (Text.chained name (some t) args suffix) =
          (runs name ++
            code '<' :: (runs t ++ code '>' :: code '(' :: (runs args ++ code ')' :: q))) ++ b := by
        rw [hruns]
        simp
      have htrim : Trimmed (runs name ++
          code '<' :: (runs t ++ code '>' :: code '(' :: (runs args ++ code ')' :: q))) := by
        simpa using hfront
          (code '<' :: (runs t ++ code '>' :: code '(' :: (runs args ++ [code ')'])))
      exact parseElement_of_trim hsplit htrim hb
        (Form.of_chained_generic hname (htypes t rfl).2.even hclosed hissuffix htrim)

/-- Half of the bytes of a chain are enough for its brackets. -/
theorem depth_chained_lt (hsuffix : Paired (runs suffix))
    (hsize : Text.size (Text.chained name types args suffix) < 2 ^ 32) :
    (Text.chained name types args suffix).depth < 2 ^ 31 := by
  have hruns : runs (Text.chained name types args suffix) = _ :=
    runs_chained hname (fun t ht => (htypes t ht).1) hargs.1
  obtain ⟨k, hk, hopen⟩ := exists_openBehind_chained htypes hargs hsuffix
  have hlevel := Element.level_name hname
  rw [← join_runs (Text.chained name types args suffix), hruns, join_append, Text.size_append] at hsize
  rw [Text.depth, hruns, deepest_append]
  generalize types.elim [] (fun t => code '<' :: (runs t ++ [code '>'])) ++
    code '(' :: (runs args ++ code ')' :: runs suffix) = q at hsize hopen ⊢
  have hfront : 2 * outermost.deepest (runs name) ≤ 0 + 0 + Text.size (join (runs name)) :=
    two_mul_deepest_le hlevel.even.1
  have hrest : 2 * outermost.deepest q ≤ 0 + k + Text.size (join q) := two_mul_deepest_le hopen
  have hsame : outermost.after (runs name) = outermost := after_level hlevel 0
  have hpos : 0 < Text.size (join (runs name)) := by
    obtain ⟨r, rs, hr, -⟩ := Element.exists_cons_of_isName hname
    exact ByOffset.size_join_pos (List.infix_refl _) (by rw [hr]; exact List.cons_ne_nil r rs)
  rw [hsame]
  omega

/-- **A call with something behind it is a leaf**, whatever its arguments and type arguments hold, if
their strings and comments have their ends (that of a line comment is its line feed) and the brackets
of each part are paired by kind. So it is for the reader that counts brackets in words of 32 bits, if fewer
than `2 ^ 31` of them are open at once, as in every text of fewer than `2 ^ 32` bytes. -/
theorem parseElement_chained (hsuffix : suffix.BeginsChain ∧ Paired (runs suffix))
    (has : Lacks asWord (runs suffix)) (harrow : Lacks ['=', '>'] (runs suffix)) :
    (Text.size (Text.chained name types args suffix) < 2 ^ 32 →
      (Text.chained name types args suffix).depth < 2 ^ 31) ∧
    ((Text.chained name types args suffix).depth < 2 ^ 31 →
      parseElement (Text.chained name types args suffix) =
        .leaf (trimTrivia (Text.chained name types args suffix)) ∧
      ByOffset.element? ByOffset.int32 (Text.size (Text.chained name types args suffix))
          (Text.chained name types args suffix) =
        some (.leaf (trimTrivia (Text.chained name types args suffix)))) := by
  have hleaf := parseElement_of_beginsChain hname htypes hargs hsuffix has harrow
  refine ⟨depth_chained_lt hname htypes hargs hsuffix.2, fun hdeep => ⟨hleaf, ?_⟩⟩
  rw [ByOffset.element?_eq (ByOffset.keeps_int32 hdeep) (Nat.le_refl _), hleaf]

end Chain

/-- An arrow, an ` as ` and brackets of all kinds in front of the suffix, and a comment behind it. -/
theorem parseElement_chained_generic :
    let name : Text := "new a.b".toList
    let types : Text := "Map<K, (v) => V>".toList
    let args : Text := "(p: T<[q]>) => p as T, ') as >', /* => */ \x7br: [1]\x7d".toList
    let suffix : Text := "?.then(v => v as U)[0] // end".toList
    (Element.IsName name ∧ (∀ t ∈ some types, t.Settled ∧ Paired (runs t)) ∧
      (args.Settled ∧ Paired (runs args)) ∧ (suffix.BeginsChain ∧ Paired (runs suffix)) ∧
      Lacks asWord (runs suffix) ∧ Lacks ['=', '>'] (runs suffix)) ∧
    parseElement (Text.chained name (some types) args suffix) =
        .leaf (trimTrivia (Text.chained name (some types) args suffix)) ∧
      ByOffset.element? ByOffset.int32 (Text.size (Text.chained name (some types) args suffix))
          (Text.chained name (some types) args suffix) =
        some (.leaf (trimTrivia (Text.chained name (some types) args suffix))) := by
  intro name types args suffix
  have hname : Element.IsName name := .inr ⟨"a.b".toList, by decide, rfl⟩
  have htypes : types.Settled ∧ Paired (runs types) := ⟨by decide +kernel, false, by decide +kernel⟩
  have hargs : args.Settled ∧ Paired (runs args) := ⟨by decide +kernel, false, by decide +kernel⟩
  have hsuffix : suffix.BeginsChain ∧ Paired (runs suffix) :=
    ⟨by decide +kernel, false, by decide +kernel⟩
  have has : Lacks asWord (runs suffix) := by decide +kernel
  have harrow : Lacks ['=', '>'] (runs suffix) := by decide +kernel
  have hsome : ∀ t ∈ some types, t.Settled ∧ Paired (runs t) := by
    intro t ht
    rw [← Option.some.inj ht]
    exact htypes
  obtain ⟨hshallow, hleaf⟩ := parseElement_chained hname hsome hargs hsuffix has harrow
  exact ⟨⟨hname, hsome, hargs, hsuffix, has, harrow⟩, hleaf (hshallow (by decide +kernel))⟩

/-- Where the word ` as ` is found, a text is read as an assertion. -/
theorem ByOffset.exists_layer?_eq_assertion {count : Int → Int} {read : Text → Option Element} {t : Text}
    {a b : List Run} (htrim : trimTrivia t = t) (hhead : t.head? ≠ some '\x7b')
    (hruns : runs t = a ++ (asWord.map code ++ b))
    (hfound : ByOffset.found? count asWord t = some [Text.size (join a)])
    (hexpr : Text.isAllBlank (join a) = false) (htarget : trim b ≠ []) :
    ∃ (target : Text) (part : Option Element),
      ByOffset.layer? count read t = part.map (Element.assertion target) := by
  have hobject (read : Text → Option Element) : ByOffset.object? count read t = some none := by
    have hnot : ByOffset.wrapped? count t '\x7b' = some false := by
      cases t with
      | nil => rfl
      | cons c u => exact if_neg fun hc => hhead (congrArg some hc)
    rw [ByOffset.object?, hnot]
    rfl
  obtain ⟨hfront, hback⟩ := ByOffset.between?_cut hruns
  rw [join_runs] at hfront hback
  have hpart : ByOffset.IsPart t b := by
    refine .of_eq (a := a ++ asWord.map code) (b := []) ?_ (by simp [asWord])
    rw [hruns]
    simp
  have hnonempty : (join (trim b)).isEmpty = false := by
    rw [List.isEmpty_eq_false_iff, Ne, ByOffset.join_eq_nil_iff (hpart.mono (isInfix_trim b)).isInfix]
    exact htarget
  have hassertion (read : Text → Option Element) : ByOffset.assertion? count read t =
      ((read (join a)).map (Element.assertion (join (trim b)))).map some := by
    have hword : Text.size asWord = 4 := rfl
    rw [hword] at hback
    rw [ByOffset.assertion?, ← asWord, hfound, Option.bind_some]
    show (ByOffset.between? t 0 (Text.size (join a))).bind _ = _
    rw [hfront, Option.bind_some]
    show (ByOffset.between? t (Text.size (join a) + 4) (Text.size t)).bind _ = _
    rw [hback, Option.bind_some, ByOffset.trimmed?_join hpart, Option.bind_some, hexpr, hnonempty,
      Option.map_map]
    rfl
  refine ⟨join (trim b), ByOffset.onlyShorter read t (join a), ?_⟩
  rw [ByOffset.layer?, ByOffset.trimmed?_eq, htrim, Option.bind_some, hobject, hassertion]
  cases ByOffset.onlyShorter read t (join a) <;> rfl

/-- One bracket more than a word counts: the ` as ` in the arguments of a call is taken for one outside
brackets. -/
theorem element?_chained_nested {n : Nat} (hn : n + 1 = 2 ^ 31) {t : Text}
    (ht : t = Text.chained ['f'] none (Text.nested n " as x".toList) ".b".toList) (k : Nat) (u : Text) :
    ByOffset.element? ByOffset.int32 (k + 1) t ≠ some (.leaf u) := by
  have hplain : ∀ c ∈ " as x".toList, Text.isPlain c = true := by decide
  have hargs : Text.Settled (Text.nested n " as x".toList) :=
    .of_isPlain (Text.isPlain_of_mem_nested hplain n)
  have hruns : runs t = code 'f' :: (List.replicate (n + 1) (code '(') ++
      code ' ' :: (['a', 's', ' '].map code ++
        code 'x' :: (List.replicate n (code ')') ++ [code ')', code '.', code 'b']))) := by
    rw [ht, runs_chained (.inl (by decide)) (by simp) hargs, Text.runs_nested hplain, List.replicate_succ,
      Text.runs_of_isPlain (s := ['f']) (by decide), Text.runs_of_isPlain (s := ".b".toList) (by decide)]
    simp
  have hlacks : ¬[' ', 'a', 's', ' '].map code <:+: ['a', 's', ' '].map code ++
      code 'x' :: (List.replicate n (code ')') ++ [code ')', code '.', code 'b']) := by
    -- two spaces are not to be had from one
    intro hinfix
    have hcount := hinfix.sublist.count_le (code ' ')
    simp [List.count_replicate] at hcount
  have hfound := ByOffset.found?_int32_replicate hn (by decide) (by decide) (by decide) rfl hruns hlacks
  have hends : runs t = [code 'f'] ++ ((List.replicate (n + 1) (code '(') ++
      (" as x".toList.map code ++ (List.replicate n (code ')') ++ [code ')', code '.']))) ++
        [code 'b']) := by
    rw [hruns]
    simp
  have htrimmed : Trimmed (runs t) := by
    rw [hends]
    exact Trimmed.append (by decide) (by decide) _
  have htrim : trimTrivia t = t := by rw [trimTrivia, trim_of_trimmed htrimmed, join_runs]
  have hmem : code 'x' ∈ trim (code 'x' :: (List.replicate n (code ')') ++
      [code ')', code '.', code 'b'])) := mem_trim List.mem_cons_self (by decide)
  have hhead : t.head? ≠ some '\x7b' := by
    rw [ht]
    exact fun h => absurd (Option.some.inj h) (by decide)
  have hlayer : ∃ (target : Text) (part : Option Element),
      ByOffset.layer? ByOffset.int32 (ByOffset.element? ByOffset.int32 k) t =
        part.map (Element.assertion target) :=
    ByOffset.exists_layer?_eq_assertion (a := code 'f' :: List.replicate (n + 1) (code '('))
      (b := code 'x' :: _) htrim hhead (by rw [hruns]; rfl) hfound rfl (List.ne_nil_of_mem hmem)
  obtain ⟨target, part, hlayer⟩ := hlayer
  rw [ByOffset.element?, hlayer]
  intro hleaf
  obtain ⟨e, -, hassertion⟩ := Option.map_eq_some_iff.mp hleaf
  exact Element.noConfusion hassertion

/-- A chain whose arguments hold ` as ` in `2 ^ 31` parentheses, the first of which is that of the call. A
reader that counts in words of 32 bits takes it for an assertion. -/
theorem parseElement_chained_nested :
    let name : Text := ['f']
    let args : Text := Text.nested (2 ^ 31 - 1) " as x".toList
    let suffix : Text := ".b".toList
    let t : Text := Text.chained name none args suffix
    (Element.IsName name ∧ (args.Settled ∧ Paired (runs args)) ∧
      (suffix.BeginsChain ∧ Paired (runs suffix)) ∧ Lacks asWord (runs suffix) ∧
      Lacks ['=', '>'] (runs suffix)) ∧
    ∀ u, ByOffset.element? ByOffset.int32 (Text.size t) t ≠ some (.leaf u) := by
  intro name args suffix t
  have hplain : ∀ c ∈ " as x".toList, Text.isPlain c = true := by decide
  refine ⟨⟨.inl (by decide), ⟨.of_isPlain (Text.isPlain_of_mem_nested hplain _), false,
    walk_nested hplain fun _ => rfl⟩, ⟨by decide +kernel, false, by decide +kernel⟩, by decide +kernel,
    by decide +kernel⟩, fun u => ?_⟩
  obtain ⟨k, hk⟩ : ∃ k, Text.size t = k + 1 :=
    Nat.exists_eq_add_one.mpr (Text.size_pos (by simp [t, Text.chained, name]))
  rw [hk]
  exact element?_chained_nested rfl rfl k u

end ScriptSurvey
