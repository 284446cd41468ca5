import ScriptSurvey.Argument.Parse
import ScriptSurvey.Proofs.Argument.Written
import ScriptSurvey.Proofs.Lexical.Cuts

/-!
# The forms of written shapes

Each kind of element is written in one shape, and the reader tries six forms in a fixed order. For
each shape the lemmas here say that no earlier form takes it, and which parts its own form finds:

* only an object begins with `{` and ends with the partner of that brace;
* an assertion is whatever has ` as ` outside brackets, and no other shape has;
* an array begins with `[`, a function has its arrow outside brackets, a call or generic has its
  first bracket right behind its name, and all else is a leaf.
-/

namespace ScriptSurvey

open Run Nesting

namespace Run

/-- The word that makes an assertion. -/
def asWord : Text := [' ', 'a', 's', ' ']

/-- Whether the runs begin with the name `as` and a space. -/
def StartsAs (rs : List Run) : Prop :=
  ∃ after, rs = code 'a' :: code 's' :: code ' ' :: after

/-- A space begins ` as ` exactly where the name `as` and a space follow. -/
theorem lacks_space_iff {rs : List Run} :
    Lacks asWord (code ' ' :: rs) ↔ ¬StartsAs rs ∧ Lacks asWord rs := by
  rw [lacks_flat_iff rfl]
  refine and_congr_left fun _ => ⟨fun hd hs => ?_, fun hs => ?_⟩
  · obtain ⟨after, rfl⟩ := hs
    have hword : dropCode? asWord (code ' ' :: code 'a' :: code 's' :: code ' ' :: after) =
        some after := dropCode?_append asWord after
    rw [hd] at hword
    exact absurd hword (by simp)
  · cases hd : dropCode? asWord (code ' ' :: rs) with
    | none => rfl
    | some after =>
        have heq := eq_of_dropCode? hd
        rw [asWord, List.map_cons, List.cons_append, List.cons.injEq] at heq
        exact absurd ⟨after, heq.2⟩ hs

/-- Behind bare runs a character that is neither of ` as ` hides nothing that begins with `as`. -/
theorem not_startsAs_append {p : List Run} (hp : Bare p) {b : Char}
    (hb : b ≠ 'a' ∧ b ≠ 's' ∧ b ≠ ' ') (q : List Run) : ¬StartsAs (p ++ code b :: q) := by
  rintro ⟨after, h⟩
  have hspace : Text.isPathChar ' ' = false := rfl
  rcases p with _ | ⟨x, _ | ⟨y, _ | ⟨z, p⟩⟩⟩
  · simp only [List.nil_append, List.cons.injEq, Run.code.injEq] at h
    exact hb.1 h.1
  · simp only [List.cons_append, List.nil_append, List.cons.injEq, Run.code.injEq] at h
    exact hb.2.1 h.2.1
  · simp only [List.cons_append, List.nil_append, List.cons.injEq, Run.code.injEq] at h
    exact hb.2.2 h.2.2.1
  · simp only [List.cons_append, List.cons.injEq] at h
    exact ne_of_isBare (hp z (by simp)) hspace h.2.2.1

/-- Bare runs before a space begin with `as` and a space when they are the name `as`. -/
theorem startsAs_space_iff {p q : List Run} (hp : Bare p) :
    StartsAs (p ++ code ' ' :: q) ↔ p = [code 'a', code 's'] := by
  refine ⟨?_, fun h => ⟨q, by rw [h]; rfl⟩⟩
  rintro ⟨after, h⟩
  have hspace : Text.isPathChar ' ' = false := rfl
  rcases p with _ | ⟨x, _ | ⟨y, _ | ⟨z, p⟩⟩⟩
  · simp at h
  · simp at h
  · simp only [List.cons_append, List.nil_append, List.cons.injEq] at h
    rw [h.1, h.2.1]
  · simp only [List.cons_append, List.cons.injEq] at h
    exact absurd h.2.2.1 (ne_of_isBare (hp z (by simp)) hspace)

theorem Bare.not_startsAs {p : List Run} (hp : Bare p) : ¬StartsAs p := by
  rintro ⟨after, h⟩
  refine ne_of_isBare (hp (code ' ') ?_) (w := ' ') rfl rfl
  rw [h]
  simp

/-! ## Brackets before the end -/

/-- Level runs with something behind them are not wrapped as a whole. -/
theorem wrapped_append {b : Char} {p q : List Run} (hb : ∃ c, (b, c) ∈ bracketPairs)
    (hp : Level p) (hpne : p ≠ []) (hq : q ≠ []) : wrapped b (p ++ q) = none := by
  cases hp with
  | nil => exact absurd rfl hpne
  | @flat r rs hr _ =>
      refine wrapped_of_head fun h => ?_
      obtain ⟨c, hc⟩ := hb
      have := shift_of_isFlat hr false
      rw [h, shift_open hc] at this
      exact absurd this (by decide)
  | arrow _ =>
      refine wrapped_of_head fun h => ?_
      obtain ⟨c, hc⟩ := hb
      have hopen := shift_open hc false
      rw [← h] at hopen
      exact absurd hopen (by decide)
  | @group o c inner rs ho hi _ =>
      rw [List.cons_append, List.append_assoc, List.cons_append]
      refine (hi.closedBy ho).wrapped_eq_none ?_ o b
      exact fun h => hq (List.append_eq_nil_iff.mp h).2

end Run

namespace Form

/-- Trimmed runs are tried against the forms in their order. -/
theorem of_of_trimmed {rs : List Run} (h : Trimmed rs) :
    of rs = ((object? rs).or <| (assertion? rs).or <| (array? rs).or <| (arrow? rs).or <|
      applied? rs).getD (leaf (Run.join rs)) := by
  rw [of, trim_of_trimmed h]

theorem object?_eq_none {rs : List Run} (h : Run.wrapped '\x7b' rs = none) : object? rs = none := by
  rw [object?, h]
  rfl

theorem array?_eq_none {rs : List Run} (h : Run.wrapped '[' rs = none) : array? rs = none := by
  rw [array?, h]
  rfl

theorem assertion?_eq_none {rs : List Run} (h : Lacks asWord rs) : assertion? rs = none := by
  rw [assertion?, show [' ', 'a', 's', ' '] = asWord from rfl, cutAtLast_of_lacks h]

/-- Runs that begin with no parenthesis and have no arrow outside brackets are no function. -/
theorem arrow?_eq_none {r : Run} {rs : List Run} (hr : r ≠ code '(')
    (h : Lacks ['=', '>'] (r :: rs)) : arrow? (r :: rs) = none := by
  rw [Lacks] at h
  unfold arrow?
  split
  · next heq =>
      rw [List.cons.injEq] at heq
      exact absurd heq.1 hr
  · rw [nameArrow?, Run.cutAtFirst, h]

/-! ## Leaves, lists and calls -/

/-- Runs that nest nothing and hold no trivia are no shape of any kind. -/
theorem of_flat {rs : List Run} (hne : rs ≠ [])
    (h : ∀ r ∈ rs, r.isFlat = true ∧ r.isTrivia = false) : of rs = leaf (Run.join rs) := by
  have ht : Trimmed rs :=
    ⟨hne, fun r hr => (h r (List.mem_of_mem_head? hr)).2, fun r hr => (h r (List.mem_of_getLast? hr)).2⟩
  have hnot {c : Char} (hc : (code c).isFlat = false ∨ (code c).isTrivia = true) : code c ∉ rs := by
    intro hm
    obtain ⟨hflat, htrivia⟩ := h _ hm
    rcases hc with hc | hc
    · exact Bool.noConfusion (hc.symm.trans hflat)
    · exact Bool.noConfusion (htrivia.symm.trans hc)
  have hlacks {w : Char} (hw : (code w).isFlat = false ∨ (code w).isTrivia = true) (word : Text) :
      Lacks (w :: word) rs := by
    have hmem := hnot hw
    clear hne ht hnot
    induction rs with
    | nil => exact lacks_nil w word
    | cons r rs ih =>
        refine lacks_flat (h r List.mem_cons_self).1 (dropCode?_of_ne ?_ rs)
          (ih (fun s hs => h s (List.mem_cons_of_mem r hs)) fun hm => hmem (List.mem_cons_of_mem r hm))
        exact fun he => hmem (he ▸ List.mem_cons_self)
  obtain ⟨r, rs, rfl⟩ := List.exists_cons_of_ne_nil hne
  have hhead {c : Char} (hc : (code c).isFlat = false ∨ (code c).isTrivia = true) : r ≠ code c :=
    fun he => hnot hc (he ▸ List.mem_cons_self)
  -- every other shape asks for a bracket, an arrow or a blank
  rw [of_of_trimmed ht, object?_eq_none (wrapped_of_head (hhead (.inl rfl))),
    assertion?_eq_none (hlacks (.inr rfl) _), array?_eq_none (wrapped_of_head (hhead (.inl rfl))),
    arrow?_eq_none (hhead (.inl rfl)) (hlacks (.inl rfl) _), applied?,
    cutAtChar_of_not_mem (hnot (.inl rfl)), cutAtChar_of_not_mem (hnot (.inl rfl))]
  rfl

theorem of_word {t : Text} (ht : t.IsWord) : of (runs t) = leaf t := by
  rw [of_flat ht.runs_ne_nil fun r hr =>
    ⟨isFlat_of_isBare (ht.bare r hr), isTrivia_of_isBare (ht.bare r hr)⟩, join_runs]

theorem of_object {inner : List Run} (hi : ClosedBy '\x7d' inner) :
    of (code '\x7b' :: (inner ++ [code '\x7d'])) =
      object ((Run.splitAtCommas inner).map ofProperty) := by
  rw [of_of_trimmed (trimmed_bracketed pair_curly inner), object?, hi.wrapped]
  rfl

theorem of_array {inner : List Run} (hi : Level inner) :
    of (code '[' :: (inner ++ [code ']'])) = array (Run.splitAtCommas inner) := by
  rw [of_of_trimmed (trimmed_bracketed pair_square inner),
    object?_eq_none (wrapped_of_head (by decide)),
    assertion?_eq_none
      (lacks_group pair_square (hi.closedBy pair_square) (by decide) (lacks_nil _ _)),
    array?, (hi.closedBy pair_square).wrapped]
  rfl

end Form

namespace Element

/-! ## Names in front of brackets -/

theorem exists_cons_of_isName {name : Text} (h : IsName name) :
    ∃ r rs, runs name = r :: rs ∧ r.isBare = true := by
  rcases h with h | ⟨path, _, rfl⟩
  · have hw := Text.IsWord.of_isDottedPath h
    obtain ⟨r, rs, hr⟩ := List.exists_cons_of_ne_nil hw.runs_ne_nil
    exact ⟨r, rs, hr, hw.bare r (by rw [hr]; exact List.mem_cons_self)⟩
  · rw [Text.runs_append_of_isPlain (by decide)]
    exact ⟨code 'n', _, rfl, show Text.isPathChar 'n' = true by decide⟩

theorem not_mem_name {name : Text} (h : IsName name) {c : Char} (hc : Text.isPathChar c = false)
    (hs : c ≠ ' ') : code c ∉ runs name := by
  intro hm
  rw [runs_name h, List.mem_map] at hm
  obtain ⟨d, hd, he⟩ := hm
  rw [Run.code.injEq] at he
  rcases isPathChar_of_isName h d hd with hp | hp
  · rw [he, hc] at hp
    exact Bool.noConfusion hp
  · exact hs (he ▸ hp)

theorem trim_name {name : Text} (h : IsName name) : Text.trim name = name := by
  have ht := trimmed_name h
  rw [runs_name h] at ht
  have hblank {c : Char} (hc : (code c).isTrivia = false) : Text.isBlank c = false := by
    rw [isTrivia, Text.isWhiteSpace, Bool.or_eq_false_iff] at hc
    exact hc.1
  refine Text.trim_of_ends (fun c hc => hblank (ht.head _ ?_)) (fun c hc => hblank (ht.last _ ?_))
  · rw [List.head?_map, hc]
    rfl
  · rw [List.getLast?_map, hc]
    rfl

theorem isCallee_of_isName {name : Text} (h : IsName name) : Form.isCallee name = true := by
  rcases h with h | ⟨path, hp, rfl⟩
  · have hnone : List.isPrefixOf? ['n', 'e', 'w', ' '] name = none := by
      cases hpre : List.isPrefixOf? ['n', 'e', 'w', ' '] name with
      | none => rfl
      | some after =>
          have hmem : ' ' ∈ name := by
            rw [← List.append_eq_of_isPrefixOf?_eq_some hpre]
            simp
          exact absurd rfl (Text.ne_of_isPathChar (Text.isPathChar_of_mem h hmem)
            (show Text.isPathChar ' ' = false by decide))
    rw [Form.isCallee, hnone]
    exact h
  · have hstart : Text.trimStart path = path := Text.dropWhile_of_head? fun c hc =>
      Text.isBlank_of_isPathChar (Text.isPathChar_of_mem hp (List.mem_of_mem_head? hc))
    rw [Form.isCallee, Text.isPrefixOf?_append]
    simp only [hstart]
    exact hp

/-- A bracket right behind a name makes no assertion. -/
theorem lacks_as_applied {name : Text} (h : IsName name) {o c : Char}
    (ho : (o, c) ∈ bracketPairs) {rest : List Run} (hr : Lacks asWord (code o :: rest)) :
    Lacks asWord (runs name ++ code o :: rest) := by
  have hspace : Text.isPathChar ' ' = false := rfl
  rcases h with h | ⟨path, hp, rfl⟩
  · have hw := Text.IsWord.of_isDottedPath h
    exact Lacks.append hw.bare.level (hw.bare.lacks hspace []) hr
  · have hw := Text.IsWord.of_isDottedPath hp
    have hplain : ∀ c ∈ ['n', 'e', 'w', ' '], Text.isPlain c = true := by decide
    have hb : o ≠ 'a' ∧ o ≠ 's' ∧ o ≠ ' ' := by
      simp only [bracketPairs, List.mem_cons, Prod.mk.injEq, List.not_mem_nil, or_false] at ho
      rcases ho with ⟨rfl, rfl⟩ | ⟨rfl, rfl⟩ | ⟨rfl, rfl⟩ | ⟨rfl, rfl⟩ <;> decide
    have hnew : Level [code 'n', code 'e', code 'w'] := .of_isFlat (by decide)
    rw [Text.runs_append_of_isPlain hplain]
    exact Lacks.append (q := code ' ' :: (runs path ++ _)) hnew rfl
      (lacks_space_iff.mpr ⟨not_startsAs_append hw.bare hb _,
        Lacks.append hw.bare.level (hw.bare.lacks hspace []) hr⟩)

/-- Nor does it begin with the name `as` and a space. -/
theorem not_startsAs_applied {name : Text} (h : IsName name) {o c : Char}
    (ho : (o, c) ∈ bracketPairs) (q : List Run) : ¬StartsAs (runs name ++ code o :: q) := by
  rcases h with h | ⟨path, _, rfl⟩
  · refine not_startsAs_append (Text.IsWord.of_isDottedPath h).bare ?_ q
    simp only [bracketPairs, List.mem_cons, Prod.mk.injEq, List.not_mem_nil, or_false] at ho
    rcases ho with ⟨rfl, rfl⟩ | ⟨rfl, rfl⟩ | ⟨rfl, rfl⟩ | ⟨rfl, rfl⟩ <;> decide
  · rw [Text.runs_append_of_isPlain (by decide)]
    rintro ⟨after, he⟩
    simp at he

end Element

namespace Form

open Element

/-- A name with brackets behind it is neither an object, an assertion, an array nor a function. -/
theorem of_applied {name : Text} (h : IsName name) {o c : Char} (ho : (o, c) ∈ bracketPairs)
    {rest : List Run} (has : Lacks asWord (code o :: rest))
    (harrow : Lacks ['=', '>'] (code o :: rest)) (ht : Trimmed (runs name ++ code o :: rest)) :
    of (runs name ++ code o :: rest) =
      (applied? (runs name ++ code o :: rest)).getD
        (leaf (Run.join (runs name ++ code o :: rest))) := by
  obtain ⟨r, rs, hr, hbare⟩ := exists_cons_of_isName h
  have hhead {d : Char} (hd : Text.isPathChar d = false) : r ≠ code d := ne_of_isBare hbare hd
  have hfree : Lacks ['=', '>'] (runs name ++ code o :: rest) :=
    Lacks.append (level_name h) (lacks_name h rfl (by decide) []) harrow
  have hasfree := lacks_as_applied h ho has
  rw [of_of_trimmed ht]
  rw [hr, List.cons_append] at hfree hasfree ⊢
  rw [object?_eq_none (wrapped_of_head (hhead rfl)), assertion?_eq_none hasfree,
    array?_eq_none (wrapped_of_head (hhead rfl)),
    arrow?_eq_none (hhead rfl) hfree]
  rfl

/-- A `<` further on is no reason to look for type arguments. -/
theorem applied?_call {name : Text} (h : IsName name) (rest : List Run) :
    applied? (runs name ++ code '(' :: rest) = call? (runs name) rest := by
  have hparen : Run.cutAtChar '(' (runs name ++ code '(' :: rest) = some (runs name, rest) := by
    rw [cutAtChar_append (not_mem_name h (by decide) (by decide)), cutAtChar_cons_self]
    simp
  have hangle : Run.cutAtChar '<' (runs name ++ code '(' :: rest) =
      (Run.cutAtChar '<' rest).map fun x => (runs name ++ code '(' :: x.1, x.2) := by
    rw [cutAtChar_append (not_mem_name h (by decide) (by decide)), Run.cutAtChar]
    simp [isChar, Option.map_map, Function.comp_def]
  rw [applied?, hparen, hangle]
  cases Run.cutAtChar '<' rest with
  | none => rfl
  | some x =>
      have hlater : ¬(runs name ++ code '(' :: x.1).length < (runs name).length := by
        rw [List.length_append]
        omega
      simp only [Option.map_some, if_neg hlater]

theorem of_call {name : Text} (h : IsName name) {args : List Run} (ha : Level args) :
    of (runs name ++ code '(' :: (args ++ [code ')'])) = call name (Run.splitAtCommas args) := by
  have ht := (trimmed_name h).append (trimmed_bracketed pair_round args) []
  have hclosed := ha.closedBy pair_round
  rw [of_applied h pair_round (lacks_group pair_round hclosed (by decide) (lacks_nil _ _))
    (lacks_group pair_round hclosed (by decide) (lacks_nil _ _)) ht, applied?_call h]
  simp only [call?]
  rw [join_runs, trim_name h, if_pos (isCallee_of_isName h), enclosed_level pair_round ha]
  rfl

/-- A `(` further on is no reason to look for a call. -/
theorem applied?_generic {name : Text} (h : IsName name) (rest : List Run) :
    applied? (runs name ++ code '<' :: rest) = generic? (runs name) rest := by
  have hangle : Run.cutAtChar '<' (runs name ++ code '<' :: rest) = some (runs name, rest) := by
    rw [cutAtChar_append (not_mem_name h (by decide) (by decide)), cutAtChar_cons_self]
    simp
  have hparen : Run.cutAtChar '(' (runs name ++ code '<' :: rest) =
      (Run.cutAtChar '(' rest).map fun x => (runs name ++ code '<' :: x.1, x.2) := by
    rw [cutAtChar_append (not_mem_name h (by decide) (by decide)), Run.cutAtChar]
    simp [isChar, Option.map_map, Function.comp_def]
  rw [applied?, hangle, hparen]
  cases Run.cutAtChar '(' rest with
  | none => rfl
  | some x => simp

theorem of_generic {name : Text} (h : IsName name) {types : List Run} (ht : Level types) :
    of (runs name ++ code '<' :: (types ++ [code '>'])) =
      generic name (Run.splitAtCommas types) := by
  have htrim := (trimmed_name h).append (trimmed_bracketed pair_angle types) []
  have hclosed := ht.closedBy pair_angle
  rw [of_applied h pair_angle (lacks_group pair_angle hclosed (by decide) (lacks_nil _ _))
    (lacks_group pair_angle hclosed (by decide) (lacks_nil _ _)) htrim, applied?_generic h]
  simp only [generic?]
  rw [join_runs, trim_name h, if_pos (isCallee_of_isName h), enclosed_level pair_angle ht]
  rfl

theorem of_genericCall {name : Text} (h : IsName name) {types args : List Run}
    (ht : Level types) (ha : Level args) :
    of (runs name ++ code '<' :: (types ++ code '>' :: code '(' :: (args ++ [code ')']))) =
      genericCall name (Run.splitAtCommas types) (Run.splitAtCommas args) := by
  have htrim := (trimmed_name h).append (trimmed_bracketed pair_round args)
    (code '<' :: (types ++ [code '>']))
  have has : Lacks asWord (code '(' :: (args ++ [code ')'])) :=
    lacks_group pair_round (ha.closedBy pair_round) (by decide) (lacks_nil _ _)
  have harrow : Lacks ['=', '>'] (code '(' :: (args ++ [code ')'])) :=
    lacks_group pair_round (ha.closedBy pair_round) (by decide) (lacks_nil _ _)
  rw [List.cons_append, List.append_assoc, List.singleton_append] at htrim
  have hclosed := ht.closedBy pair_angle
  rw [of_applied h pair_angle (lacks_group pair_angle hclosed (by decide) has)
    (lacks_group pair_angle hclosed (by decide) harrow) htrim, applied?_generic h]
  simp only [generic?]
  rw [join_runs, trim_name h, if_pos (isCallee_of_isName h), enclosed_level pair_angle ht]
  have hdrop : dropBlanks (code '(' :: (args ++ [code ')'])) = code '(' :: (args ++ [code ')']) :=
    rfl
  simp only [hdrop]
  rw [enclosed_level pair_round ha]
  rfl

/-! ## Assertions -/

/-- What is no trivia is not blank. -/
theorem isAllBlank_first {c : Char} {t : Text} (h : (Step.first c t).run.isTrivia = false) :
    Text.isAllBlank (Step.first c t).run.text = false := by
  unfold Step.first at h ⊢
  split at h
  · exact absurd h (by simp [isTrivia])
  · exact absurd h (by simp [Step.ofBody, isTrivia])
  · split at h
    · next kind hkind =>
        have hc : Text.isBlank c = false := by
          cases hb : Text.isBlank c with
          | false => rfl
          | true =>
              have := Text.isPlain_of_isBlank hb
              rw [Text.isPlain, hkind] at this
              exact absurd this (by simp)
        rw [Step.ofBody, Run.text, Text.isAllBlank, List.singleton_append, List.all_cons, hc]
        rfl
    · rw [isTrivia, Text.isWhiteSpace, Bool.or_eq_false_iff] at h
      rw [Run.text, Text.isAllBlank, List.all_cons, h.1]
      rfl

theorem isAllBlank_text {t : Text} {r : Run} (hr : r ∈ runs t) (h : r.isTrivia = false) :
    Text.isAllBlank r.text = false := by
  fun_induction runs t with
  | case1 => exact absurd hr List.not_mem_nil
  | case2 c t ih =>
      rcases List.mem_cons.mp hr with rfl | hr
      · exact isAllBlank_first h
      · exact ih hr

/-- Runs of a text that are not all trivia are not blank. -/
theorem isAllBlank_join {t : Text} {rs : List Run} (hrs : ∀ r ∈ rs, r ∈ runs t) {r : Run}
    (hr : r ∈ rs) (h : r.isTrivia = false) : Text.isAllBlank (Run.join rs) = false := by
  have hblank := isAllBlank_text (hrs r hr) h
  rw [Text.isAllBlank, List.all_eq_false] at hblank ⊢
  obtain ⟨c, hc, hb⟩ := hblank
  exact ⟨c, List.mem_flatMap.mpr ⟨r, hr, hc⟩, hb⟩

/-- Something is left of runs without trivia at their ends, unless all of them are trivia. -/
theorem isEmpty_join_trim {t : Text} {rs : List Run} (hrs : ∀ r ∈ rs, r ∈ runs t) {r : Run}
    (hr : r ∈ rs) (h : r.isTrivia = false) : (Run.join (Run.trim rs)).isEmpty = false := by
  have hblank := isAllBlank_join (fun s hs => hrs s ((isInfix_trim rs).subset hs)) (mem_trim hr h) h
  cases hjoin : Run.join (Run.trim rs) with
  | nil =>
      rw [hjoin] at hblank
      exact absurd hblank (by decide)
  | cons => rfl

/-- Runs that do not begin in trivia are no blanks. -/
theorem isBlankCode_of_trimmed {t : Text} (h : Trimmed (runs t)) :
    isBlankCode (runs t) = false := by
  obtain ⟨r, rs, hr⟩ := List.exists_cons_of_ne_nil h.ne_nil
  have hmem : r ∈ runs t := by
    rw [hr]
    exact List.mem_cons_self
  exact isAllBlank_join (fun _ hs => hs) hmem (h.head r (by rw [hr]; rfl))

theorem of_assertion {t target : Text} (ht : t.IsWritten) (h : target.IsWord) :
    of (runs t ++ (asWord.map code ++ runs target)) = assertion target (runs t) := by
  have hp := ht.isPiece
  have htarget := h.bare.trimmed h.runs_ne_nil
  have hspace : Text.isPathChar ' ' = false := rfl
  have htail : outermost.cutAtLast asWord (asWord.map code ++ runs target) =
      some ([], runs target) := by
    have hlacks : Lacks asWord ([code 'a', code 's'] ++ code ' ' :: runs target) :=
      Lacks.append (.of_isFlat (by decide)) rfl
        (lacks_space_iff.mpr ⟨h.bare.not_startsAs, h.bare.lacks hspace _⟩)
    have hnone := cutAtLast_eq_none_iff.mpr hlacks
    have hdrop := dropCode?_append asWord (runs target)
    rw [show asWord.map code ++ runs target =
      code ' ' :: ([code 'a', code 's'] ++ code ' ' :: runs target) from rfl] at hdrop ⊢
    have houter : Nesting.mk outermost.depth false = outermost := rfl
    rw [Nesting.cutAtLast, behind_of_isFlat rfl, houter,
      hnone, hdrop]
    rfl
  have hcut : Run.cutAtLast asWord (runs t ++ (asWord.map code ++ runs target)) =
      some (runs t, runs target) := by
    have hbehind : (outermost.after (runs t)).cutAtLast asWord (asWord.map code ++ runs target) =
        some ([], runs target) := by
      rw [outermost, after_level hp.level]
      exact htail
    have := cutAtLast_append hbehind
    rwa [List.append_nil] at this
  have hobject : object? (runs t ++ (asWord.map code ++ runs target)) = none :=
    object?_eq_none (wrapped_append ⟨'\x7d', by decide⟩ hp.level hp.trimmed.ne_nil
      (by simp [asWord]))
  have hassertion : assertion? (runs t ++ (asWord.map code ++ runs target)) =
      some (assertion target (runs t)) := by
    rw [assertion?, show [' ', 'a', 's', ' '] = asWord from rfl, hcut]
    have hne : target.isEmpty = false := by simpa using h.ne_nil
    simp only [trim_of_trimmed htarget, join_runs, isBlankCode_of_trimmed hp.trimmed, hne]
    rfl
  rw [of_of_trimmed (hp.trimmed.append htarget _), hobject, hassertion]
  rfl

/-- An ` as ` outside the brackets of a trimmed text has something on both sides. -/
theorem assertion?_of_not_lacks {t : Text} (ht : Trimmed (runs t)) (h : ¬Lacks asWord (runs t)) :
    ∃ target expr, assertion? (runs t) = some (assertion target expr) := by
  rw [Lacks, ← cutAtLast_eq_none_iff] at h
  obtain ⟨⟨expr, target⟩, hcut⟩ := Option.ne_none_iff_exists'.mp h
  have hruns := eq_of_cutAtLast hcut
  have hspace : (code ' ').isTrivia = true := rfl
  have hexpr : isBlankCode expr = false := by
    cases expr with
    | nil =>
        -- the text would begin with the blank of ` as `
        have := ht.head (code ' ') (by rw [hruns]; rfl)
        rw [hspace] at this
        exact Bool.noConfusion this
    | cons r expr =>
        refine isAllBlank_join (t := t) (fun s hs => ?_) List.mem_cons_self
          (ht.head r (by rw [hruns]; rfl))
        rw [hruns]
        exact List.mem_append_left _ hs
  have htarget : (Run.join (Run.trim target)).isEmpty = false := by
    by_cases hnil : target = []
    · -- the text would end in the blank of ` as `
      have := ht.last (code ' ') (by rw [hruns, hnil]; simp [asWord])
      rw [hspace] at this
      exact Bool.noConfusion this
    · have hlast := List.getLast?_eq_some_getLast hnil
      have htrivia := ht.last (target.getLast hnil) (by
        rw [hruns, List.getLast?_append, List.getLast?_append, hlast]
        rfl)
      refine isEmpty_join_trim (t := t) (fun s hs => ?_) (List.getLast_mem hnil) htrivia
      rw [hruns]
      exact List.mem_append_right _ (List.mem_append_right _ hs)
  refine ⟨Run.join (Run.trim target), expr, ?_⟩
  rw [assertion?, show [' ', 'a', 's', ' '] = asWord from rfl, Run.cutAtLast, hcut]
  simp [hexpr, htarget]

/-! ## Functions -/

/-- What a function makes of the runs behind its arrow. -/
def bodyOf (body : List Run) : ArrowBody (List Run) :=
  if body.head? = some (code '\x7b') then .block (Run.join body) else .expression body

theorem arrowTo?_space {body : List Run} (h : Trimmed body) (params : List (List Run))
    (types : Option ArrowTypes) :
    arrowTo? params types (code ' ' :: body) = some (arrow params types (bodyOf body)) := by
  have htrim : Run.trim (code ' ' :: body) = body := by
    have := trim_padded (a := [code ' ']) (b := []) h (by simp [isTrivia]; decide) (by simp)
    rwa [List.append_nil] at this
  obtain ⟨r, rs, rfl⟩ := List.exists_cons_of_ne_nil h.ne_nil
  rw [arrowTo?, htrim]
  by_cases hr : r = code '\x7b'
  · rw [hr]
    rfl
  · have : r.isChar '\x7b' = false := by
      rw [isChar, beq_eq_false_iff_ne]
      exact hr
    simp [bodyOf, this, hr]

/-- The arrow between the two sides of a function. -/
def arrowWord : Text := [' ', '=', '>', ' ']

/-- In front of the right side of a function there is no ` as `, so the right side decides. -/
theorem lacks_as_arrow_iff {head body : List Run} (hl : Level head) (hh : Lacks [' '] head) :
    Lacks asWord (head ++ (arrowWord.map code ++ body)) ↔ ¬StartsAs body ∧ Lacks asWord body := by
  have harrow : arrowWord.map code ++ body =
      code ' ' :: (code '=' :: code '>' :: code ' ' :: body) := rfl
  have hstart : ¬StartsAs (code '=' :: code '>' :: code ' ' :: body) := by
    rintro ⟨after, he⟩
    simp at he
  have hskip : Lacks asWord (code '=' :: code '>' :: code ' ' :: body) ↔
      Lacks asWord (code ' ' :: body) :=
    lacks_arrow_iff (dropCode?_of_ne (by decide) _) (dropCode?_of_ne (by decide) _)
  rw [asWord, lacks_append_iff hl hh, ← asWord, harrow, lacks_space_iff, hskip, lacks_space_iff]
  exact and_iff_right hstart

/-- The arrow is found behind a left side without an equals sign. -/
theorem cutAtFirst_arrow {head : List Run} (hl : Level head) (hh : Lacks ['='] head)
    (body : List Run) :
    Run.cutAtFirst ['=', '>'] (head ++ (arrowWord.map code ++ body)) =
      some (head ++ [code ' '], code ' ' :: body) := by
  have hlevel : Level (head ++ [code ' ']) := hl.append (.flat rfl .nil)
  have hequals : Lacks ['='] (head ++ [code ' ']) := Lacks.append hl hh rfl
  have hdrop : dropCode? ['=', '>'] (code '=' :: code '>' :: code ' ' :: body) =
      some (code ' ' :: body) := dropCode?_append ['=', '>'] _
  have hsplit : head ++ (arrowWord.map code ++ body) =
      (head ++ [code ' ']) ++ code '=' :: code '>' :: code ' ' :: body := by simp [arrowWord]
  rw [hsplit, Run.cutAtFirst, cutAtFirst_append hlevel hequals, outermost,
    cutAtFirst_cons_of_some hdrop]
  simp

theorem runs_eq_as_iff {t : Text} : runs t = [code 'a', code 's'] ↔ t = asName := by
  refine ⟨fun hr => ?_, fun ht => ?_⟩
  · have hjoin := join_runs t
    rw [hr] at hjoin
    exact hjoin.symm
  · rw [ht]
    exact Text.runs_of_isPlain (by decide)

/-- A result type in front of the arrow must not be called `as`. -/
theorem lacks_as_result_iff {result : Text} {body : List Run} (hr : result.IsWord) :
    Lacks asWord ([code ':', code ' '] ++ (runs result ++ (arrowWord.map code ++ body))) ↔
      result ≠ asName ∧ ¬StartsAs body ∧ Lacks asWord body := by
  have hcolon : dropCode? asWord
      (code ':' :: code ' ' :: (runs result ++ (arrowWord.map code ++ body))) = none := rfl
  have hstart : StartsAs (runs result ++ (arrowWord.map code ++ body)) ↔ result = asName :=
    (startsAs_space_iff hr.bare).trans runs_eq_as_iff
  rw [List.cons_append, List.singleton_append, lacks_flat_iff rfl, lacks_space_iff, hstart,
    lacks_as_arrow_iff hr.bare.level (hr.bare.lacks rfl [])]
  exact and_iff_right hcolon

theorem of_nameArrow {name : Text} (h : Text.isIdentifier name = true) {body : List Run}
    (ht : Trimmed body) (hs : ¬StartsAs body) (hb : Lacks asWord body) :
    of (runs name ++ (arrowWord.map code ++ body)) =
      arrow [runs name ++ [code ' ']] none (bodyOf body) := by
  have hw := Text.IsWord.of_isIdentifier h
  have hpath {c : Char} (hc : Text.isPathChar c = false) : ∀ r ∈ runs name, r ≠ code c :=
    fun r hr => ne_of_isBare (hw.bare r hr) hc
  have hlacks := (lacks_as_arrow_iff hw.bare.level
    (hw.bare.lacks rfl [])).mpr ⟨hs, hb⟩
  have hcut := cutAtFirst_arrow hw.bare.level (hw.bare.lacks rfl []) body
  have hname : Text.trim (Run.join (runs name ++ [code ' '])) = name := by
    rw [join_append, join_runs]
    refine Text.trim_append_of_isBlank (fun c hc => ?_) hw.ne_nil (by unfold Text.IsBlanks; decide)
    exact Text.isBlank_of_isIdentifierPart (Text.isIdentifierPart_of_mem h hc)
  obtain ⟨r, rs, hr⟩ := List.exists_cons_of_ne_nil hw.runs_ne_nil
  have hhead {c : Char} (hc : Text.isPathChar c = false) : r ≠ code c :=
    hpath hc r (by rw [hr]; exact List.mem_cons_self)
  have harrow : arrow? (runs name ++ (arrowWord.map code ++ body)) =
      some (arrow [runs name ++ [code ' ']] none (bodyOf body)) := by
    have hnot : arrow? (runs name ++ (arrowWord.map code ++ body)) =
        nameArrow? (runs name ++ (arrowWord.map code ++ body)) := by
      rw [hr, List.cons_append]
      unfold arrow?
      split
      · next heq =>
          rw [List.cons.injEq] at heq
          exact absurd heq.1 (hhead rfl)
      · rfl
    rw [hnot, nameArrow?, hcut]
    simp only [hname, h, if_true]
    exact arrowTo?_space ht _ _
  rw [of_of_trimmed ((hw.bare.trimmed hw.runs_ne_nil).append ht _), harrow,
    assertion?_eq_none hlacks, hr, List.cons_append,
    object?_eq_none (wrapped_of_head (hhead rfl)),
    array?_eq_none (wrapped_of_head (hhead rfl))]
  rfl

/-- A function with its parameters in brackets, as far as its parameters go. -/
theorem of_bracketedArrow {params after : List Run} (hp : Level params)
    (has : Lacks asWord after) (ht : Trimmed (code '(' :: (params ++ code ')' :: after)))
    {f : Form (List Run)} (hf : bracketedArrow? params after = some f) :
    of (code '(' :: (params ++ code ')' :: after)) = f := by
  rw [of_of_trimmed ht, object?_eq_none (wrapped_of_head (by decide)),
    assertion?_eq_none (lacks_group pair_round (hp.closedBy pair_round) (by decide) has),
    array?_eq_none (wrapped_of_head (by decide)), arrow?, enclosed_level pair_round hp]
  simp [hf]

theorem of_untypedArrow {params body : List Run} (hp : Level params) (ht : Trimmed body)
    (hs : ¬StartsAs body) (hb : Lacks asWord body) :
    of (code '(' :: (params ++ [code ')']) ++ (arrowWord.map code ++ body)) =
      arrow (Run.splitAtCommas params) none (bodyOf body) := by
  have hlacks : Lacks asWord (arrowWord.map code ++ body) :=
    (lacks_as_arrow_iff .nil (lacks_nil _ _)).mpr ⟨hs, hb⟩
  have htrim := (trimmed_bracketed pair_round params).append ht (arrowWord.map code)
  rw [List.cons_append, List.append_assoc, List.singleton_append] at htrim ⊢
  refine of_bracketedArrow hp hlacks htrim ?_
  have hdrop : dropBlanks (arrowWord.map code ++ body) =
      ['=', '>'].map code ++ code ' ' :: body := rfl
  rw [bracketedArrow?, hdrop, dropCode?_append]
  exact arrowTo?_space ht _ _

theorem of_typedArrow {params body : List Run} {result : Text} (hp : Level params)
    (hr : result.IsWord) (has : result ≠ asName) (ht : Trimmed body)
    (hs : ¬StartsAs body) (hb : Lacks asWord body) :
    of (code '(' :: (params ++ [code ')']) ++
        ([code ':', code ' '] ++ (runs result ++ (arrowWord.map code ++ body)))) =
      arrow (((Run.splitAtCommas params).map ofParameter).map Prod.fst)
        (some ⟨((Run.splitAtCommas params).map ofParameter).map Prod.snd, result⟩)
        (bodyOf body) := by
  have hlevel := hr.bare.level
  have htrim := (trimmed_bracketed pair_round params).append ht
    ([code ':', code ' '] ++ (runs result ++ arrowWord.map code))
  rw [List.append_assoc, List.append_assoc, List.cons_append, List.append_assoc,
    List.singleton_append] at htrim
  rw [List.cons_append, List.append_assoc, List.singleton_append]
  refine of_bracketedArrow hp ((lacks_as_result_iff hr).mpr ⟨has, hs, hb⟩) htrim ?_
  have hdrop : dropBlanks ([code ':', code ' '] ++ (runs result ++ (arrowWord.map code ++ body))) =
      [':'].map code ++ code ' ' :: (runs result ++ (arrowWord.map code ++ body)) := rfl
  have hnone : dropCode? ['=', '>']
      ([':'].map code ++ code ' ' :: (runs result ++ (arrowWord.map code ++ body))) = none := rfl
  have hfront : Level (code ' ' :: runs result) := .flat rfl hlevel
  have hequals : Lacks ['='] (code ' ' :: runs result) :=
    lacks_flat rfl rfl (hr.bare.lacks rfl [])
  have hcut : Run.cutAtFirst ['=', '>']
      (code ' ' :: (runs result ++ (arrowWord.map code ++ body))) =
        some (code ' ' :: (runs result ++ [code ' ']), code ' ' :: body) :=
    cutAtFirst_arrow hfront hequals body
  have hname : Run.join (Run.trim (code ' ' :: (runs result ++ [code ' ']))) = result := by
    have hspace : ∀ r ∈ [code ' '], r.isTrivia = true := by decide
    have := trim_padded (hr.bare.trimmed hr.runs_ne_nil) hspace hspace
    rw [List.singleton_append] at this
    rw [this, join_runs]
  have hne : result.isEmpty = false := by simpa using hr.ne_nil
  simp only [bracketedArrow?, hdrop, hnone, dropCode?_append, hcut, hname, hne]
  exact arrowTo?_space ht _ _

end Form

end ScriptSurvey
