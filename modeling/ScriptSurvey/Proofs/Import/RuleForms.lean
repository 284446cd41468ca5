import ScriptSurvey.Proofs.Import.Spans

/-!
# The forms of a rule

A rule can have its path in either quotes, directly or in `url(`, or in `url(` as it is. All five say the
same, whatever characters stand in the path, except for one: the search for the parenthesis behind a path
without quotes stops at a semicolon, so with a semicolon in its path that form is no rule at all.
-/

namespace ScriptSurvey

namespace StyleImport

open Cursor

/-- The forms of a rule. -/
inductive RuleForm where
  /-- The path in single quotes, or in double ones. -/
  | quoted (double : Bool)
  /-- The same in the parentheses of `url(`. -/
  | urlQuoted (double : Bool)
  /-- The path in these parentheses as it is. -/
  | urlBare
deriving DecidableEq, Repr

namespace RuleForm

/-- The literals that a form can have its path in. -/
def literalKind (double : Bool) : LiteralKind :=
  if double then .double else .single

/-- A path as the form has it. -/
def path (p : Text) : RuleForm → Text
  | quoted double => (literalKind double).enclose p
  | urlQuoted double => "url(".toList ++ ((literalKind double).enclose p ++ [')'])
  | urlBare => "url(".toList ++ (p ++ [')'])

/-- The rule of a path in the form. -/
def rule (f : RuleForm) (p : Text) : Text :=
  keyword ++ ' ' :: (f.path p ++ [';'])

theorem url_append (v t : Text) :
    "url(".toList ++ (v ++ [')']) ++ t = "url(".toList ++ (v ++ ')' :: t) :=
  (List.append_assoc _ _ t).trans (congrArg _ (List.append_assoc v [')'] t))

theorem path_urlQuoted_append (double : Bool) (p t : Text) : (urlQuoted double).path p ++ t =
    "url(".toList ++ ((literalKind double).enclose p ++ ')' :: t) :=
  url_append _ t

theorem path_urlBare_append (p t : Text) :
    urlBare.path p ++ t = "url(".toList ++ (p ++ ')' :: t) :=
  url_append p t

end RuleForm

/-- Whether a text can stand in every form as a path: it has no quotes, backslashes, parentheses or line
feeds, and no blanks at its ends. -/
structure IsPath (p : Text) : Prop where
  ne_nil : p ≠ []
  clean : ∀ c ∈ p, c ∉ ['\'', '"', '\\', '(', ')', '\n']
  head : ∀ c, p.head? = some c → Text.isBlank c = false
  last : ∀ c, p.getLast? = some c → Text.isBlank c = false

namespace IsPath

variable {p : Text} (h : IsPath p)

include h

theorem trim_eq : Text.trim p = p :=
  Text.trim_of_ends h.head h.last

theorem ne {c d : Char} (hc : c ∈ p) (hd : d ∈ ['\'', '"', '\\', '(', ')', '\n']) : c ≠ d :=
  fun he => h.clean c hc (he ▸ hd)

/-- A path is the contents of a string in either quotes. -/
theorem readQuoted?_enclose (double : Bool) (t : Text) :
    readQuoted? ((RuleForm.literalKind double).enclose p ++ t) = some (p, t) := by
  have hline : (RuleForm.literalKind double).endsAtLineFeed = true := by cases double <;> rfl
  have hquote : (RuleForm.literalKind double).delimiter ∈ ['\'', '"', '\\', '(', ')', '\n'] := by
    cases double <;> decide
  exact (QuotedPath.quotes ⟨RuleForm.literalKind double, p, hline, fun c hc =>
    ⟨h.ne hc hquote, h.ne hc (by decide), h.ne hc (by decide)⟩⟩).read t

/-- No string begins in front of a path without quotes. -/
theorem startsQuoted_trimStart : startsQuoted (Text.trimStart p) = false := by
  obtain ⟨c, u, rfl⟩ := List.exists_cons_of_ne_nil h.ne_nil
  have htrim : Text.trimStart (c :: u) = c :: u := Text.dropWhile_of_head? h.head
  rw [htrim, startsQuoted, Bool.or_eq_false_iff, beq_eq_false_iff_ne, beq_eq_false_iff_ne]
  exact ⟨h.ne List.mem_cons_self (by decide), h.ne List.mem_cons_self (by decide)⟩

end IsPath

/-- The record of the one rule of a style sheet. -/
def RuleForm.record (importer : Text) (f : RuleForm) (p : Text) : ImportRecord where
  module := modulePath p
  grammar := .style
  isExternal := Path.isNetwork p
  bindings := []
  spans := [⟨0, Text.size (keyword ++ ' ' :: f.path p)⟩]
  sideEffect := true
  absolute? :=
    if Path.isNetwork p || importer.isEmpty then none
    else some (Path.resolveFrom importer (modulePath p))
  resolved? := none

/-- A marker makes no path a network location. -/
theorem isNetwork_modulePath (p : Text) : Path.isNetwork (modulePath p) = Path.isNetwork p := by
  rw [modulePath]
  split
  · rfl
  · next hp =>
      rw [Path.withMarker, Bool.eq_false_iff.mpr hp]
      split
      · exact Bool.eq_false_iff.mpr hp
      · -- what begins with a dot names no location
        rfl

/-! ## Rules that are read -/

variable {p : Text}

/-- The path stands behind the keyword and the blank. -/
theorem skipTrivia_rule (f : RuleForm) (p : Text) :
    ((ofText (f.rule p)).forward keyword.length).skipTrivia.rest = f.path p ++ [';'] := by
  have hrest : (ofText (f.rule p)).rest = keyword ++ ([' '] ++ (f.path p ++ [';'])) := rfl
  rw [forward_of_append hrest, skipTrivia_gap Text.isBlanks_space.isTrivia]
  cases f with
  | quoted double =>
      rw [skipTrivia_of_cons (x := (RuleForm.literalKind double).delimiter) rfl, Text.first_delimiter]
      rfl
  | urlQuoted double =>
      rw [skipTrivia_of_cons rfl, Text.first_of_isPlain (by decide)]
      rfl
  | urlBare =>
      rw [skipTrivia_of_cons rfl, Text.first_of_isPlain (by decide)]
      rfl

/-- **Each form but one** is read whatever stands in the path, and that one without a semicolon in it. -/
theorem readsPath_rule (h : IsPath p) {f : RuleForm} (hf : ¬(f = .urlBare ∧ ';' ∈ p)) :
    ReadsPath (f.path p ++ [';']) p [';'] := by
  have htrim := h.trim_eq
  cases f with
  | quoted double =>
      have hread := ReadsPath.quoted (h.readQuoted?_enclose double [';'])
      rwa [htrim] at hread
  | urlQuoted double =>
      have hread := ReadsPath.urlQuoted isUrlWord_url .nil
        (h.readQuoted?_enclose double ([] ++ ')' :: [';'])) .nil
      rw [htrim] at hread
      rw [RuleForm.path_urlQuoted_append]
      exact hread
  | urlBare =>
      have hline : ∀ c ∈ p, c ≠ '\n' ∧ c ≠ ';' ∧ c ≠ ')' := fun c hc =>
        ⟨h.ne hc (by decide), fun he => hf ⟨rfl, he ▸ hc⟩, h.ne hc (by decide)⟩
      rw [RuleForm.path_urlBare_append]
      have hread : ReadsPath ("url(".toList ++ (p ++ ')' :: [';'])) (Text.trim p) [';'] :=
        .urlBare isUrlWord_url h.startsQuoted_trimStart hline
      rwa [htrim] at hread

/-- The rule in front of the rest is found. -/
theorem look_rule (h : IsPath p) {f : RuleForm} (hf : ¬(f = .urlBare ∧ ';' ∈ p)) :
    look (ofText (f.rule p)) =
      (some ⟨modulePath p, [], ⟨0, Text.size (keyword ++ ' ' :: f.path p)⟩, false⟩,
        .resume (Text.size (keyword ++ ' ' :: f.path p))) := by
  have hsplit : (ofText (f.rule p)).rest = keyword ++ ' ' :: f.path p ++ [';'] := by
    rw [List.append_assoc]
    rfl
  have hspan : (ofText (f.rule p)).spanTo [';'] = ⟨0, Text.size (keyword ++ ' ' :: f.path p)⟩ := by
    rw [spanTo_of_append hsplit, offset_ofText, Nat.zero_add]
  have hrule := ruleAt?_eq_some_iff.mpr
    ⟨p, [';'], skipTrivia_rule f p ▸ readsPath_rule h hf, h.ne_nil, rfl⟩
  have hword : atRule (ofText (f.rule p)) = true :=
    atRule_iff.mpr ⟨_, rfl, fun x hx => by
      obtain rfl := Option.some.inj hx
      decide⟩
  rw [look, if_pos hword, hrule, hspan]

/-- The rule is all that is found. -/
theorem styleDeclarations_rule (h : IsPath p) {f : RuleForm} (hf : ¬(f = .urlBare ∧ ';' ∈ p)) :
    styleDeclarations (f.rule p) =
      [⟨modulePath p, [], ⟨0, Text.size (keyword ++ ' ' :: f.path p)⟩, false⟩] := by
  have hwritten : keyword ++ ' ' :: f.path p = '@' :: ("import".toList ++ ' ' :: f.path p) := rfl
  have hrule : f.rule p = '@' :: ("import".toList ++ ' ' :: f.path p) ++ [';'] := by
    rw [← hwritten, List.append_assoc]
    rfl
  have hlook := look_rule h hf
  have hend (q : Text) : visit look ⟨q, [';'], .code⟩ = [] := by
    rw [visit_onward (by decide) rfl, visit_end]
  rw [hrule, hwritten] at hlook
  rw [hrule, hwritten]
  refine (visit_found (by decide) hlook ?_).trans (congrArg (_ :: ·) (hend _))
  rw [Text.size_nil, Nat.zero_add]

/-! ## A semicolon in a path without quotes -/

/-- From the path on, nothing can begin a path any more. -/
theorem IsPath.not_mem_behind (h : IsPath p) :
    ∀ c ∈ p ++ ')' :: [';'], c ∉ ['\'', '"', '('] := by
  intro c hc hmem
  have hopeners : ∀ d ∈ ['\'', '"', '('],
      d ∈ ['\'', '"', '\\', '(', ')', '\n'] ∧ d ∉ [')', ';'] := by decide
  rcases List.mem_append.mp hc with hc | hc
  · exact h.clean c hc (hopeners c hmem).1
  · exact (hopeners c hmem).2 hc

/-- Up to the semicolon there is no parenthesis. -/
theorem not_readsPath_urlBare (h : IsPath p) (hsemicolon : ';' ∈ p) (path after : Text) :
    ¬ReadsPath (RuleForm.urlBare.path p ++ [';']) path after := by
  intro hread
  have hurl {u v : Text} (hu : IsUrlWord u)
      (hsame : RuleForm.urlBare.path p ++ [';'] = u ++ v) : v = p ++ ')' :: [';'] := by
    rw [RuleForm.path_urlBare_append] at hsame
    exact (List.append_inj hsame hu.length_eq.symm).2.symm
  generalize ht : RuleForm.urlBare.path p ++ [';'] = t at hread
  cases hread with
  | quoted string =>
      have hquote := (startsQuoted_of_readQuoted? string).1
      rw [← ht] at hquote
      exact absurd hquote Bool.false_ne_true
  | @urlQuoted u g w contents g' after url gap string gap' =>
      obtain ⟨c, hc, hmem⟩ := (ReadsPath.quoted string).exists_mem
      exact h.not_mem_behind c (hurl url ht ▸ List.mem_append_right g hc) hmem
  | @urlBare u q after url bare line =>
      -- both are cut at the first parenthesis
      have hq : Text.cutAtFirst (· == ')') (q ++ ')' :: after) = some (q, after) :=
        Text.cutAtFirst_eq_some_iff.mpr
          ⟨')', rfl, rfl, fun c hc => beq_eq_false_iff_ne.mpr (line c hc).2.2⟩
      have hp : Text.cutAtFirst (· == ')') (p ++ ')' :: [';']) = some (p, [';']) :=
        Text.cutAtFirst_eq_some_iff.mpr
          ⟨')', rfl, rfl, fun c hc => beq_eq_false_iff_ne.mpr (h.ne hc (by decide))⟩
      rw [← hurl url ht, hq] at hp
      obtain ⟨rfl, -⟩ := Prod.mk.inj (Option.some.inj hp)
      exact (line ';' hsemicolon).2.1 rfl

/-- Where nothing begins a path once a keyword can begin, no rule is found. -/
theorem visit_eq_nil {c : Cursor} {front back : Text} (hrest : c.rest = front ++ back)
    (hfront : '@' ∉ front) (hback : ∀ x ∈ back, x ∉ ['\'', '"', '(']) : visit look c = [] := by
  refine List.eq_nil_iff_forall_not_mem.mpr fun d hd => ?_
  obtain ⟨e, hahead, hfound⟩ := exists_of_mem_visit hd
  obtain ⟨gap, t, path, after, hword, -, hread, -⟩ := exists_of_look hfound
  obtain ⟨x, hx, hmem⟩ := hread.exists_mem
  -- the keyword begins behind the front, so the path stands there as well
  have hin : e.rest <:+ back := by
    have hsuffix := hahead.rest_suffix
    rw [hrest] at hsuffix
    obtain hin | ⟨s, hs⟩ :=
      List.suffix_or_suffix_of_suffix hsuffix (List.suffix_append front back)
    · exact hin
    · obtain ⟨w, hw⟩ := hsuffix
      rw [← hs, ← List.append_assoc] at hw
      obtain rfl := List.append_cancel_right hw
      rw [hword] at hs
      cases s with
      | nil =>
          rw [hword, ← hs]
          exact List.suffix_refl back
      | cons y s =>
          obtain rfl := (List.cons.inj hs).1
          exact absurd (List.mem_append_right w List.mem_cons_self) hfront
  refine hback x (hin.subset ?_) hmem
  rw [hword]
  exact List.mem_append_right _ (List.mem_append_right _ hx)

/-- **No rule** is found with a path without quotes that has a semicolon in it. -/
theorem styleDeclarations_urlBare (h : IsPath p) (hsemicolon : ';' ∈ p) :
    styleDeclarations (RuleForm.urlBare.rule p) = [] := by
  have hnone : ruleAt? (ofText (RuleForm.urlBare.rule p)) = none := by
    refine Option.eq_none_iff_forall_ne_some.mpr fun d hd => ?_
    obtain ⟨path, after, hread, -⟩ := ruleAt?_eq_some_iff.mp hd
    rw [skipTrivia_rule] at hread
    exact not_readsPath_urlBare h hsemicolon path after hread
  have hrest : (ofText (RuleForm.urlBare.rule p)).rest =
      keyword ++ (" url(".toList ++ (p ++ ')' :: [';'])) := by
    show keyword ++ ' ' :: (RuleForm.urlBare.path p ++ [';']) = _
    rw [RuleForm.path_urlBare_append]
    rfl
  show visit look (ofText (RuleForm.urlBare.rule p)) = []
  generalize ofText (RuleForm.urlBare.rule p) = c at hnone hrest ⊢
  have hkeyword : c.Reaches (c.forward keyword.length) (keyword.map .code) :=
    reaches_forward hrest (by decide)
  have hlook : look c = (none, .resume (c.forward keyword.length).offset) := by
    have hword : atRule c = true :=
      atRule_iff.mpr ⟨_, hrest, fun x hx => by
        obtain rfl := Option.some.inj hx
        decide⟩
    rw [look, if_pos hword, hnone, hkeyword.offset_eq, Run.join_map_code]
    rfl
  have hcode : c.toCode = c := by
    rw [toCode_of_cons hrest, Text.first_of_isPlain (by decide)]
    rfl
  -- the visits go on behind the keyword, where no other one begins
  have hvisit := visit_of_resume (hcode.symm ▸ hkeyword) (by decide) (hcode.symm ▸ hlook)
  rw [hvisit, hcode, forward_of_append hrest]
  exact visit_eq_nil rfl (by decide) h.not_mem_behind

/-! ## Records -/

/-- **All forms of a rule agree** about every path that can stand in all of them, but for the path
without quotes: each gives one record, with the same module, and that form gives none if there is a
semicolon in the path. -/
theorem records_rule (h : IsPath p) (importer : Text) (f : RuleForm) :
    (readStyleImports importer (f.rule p)).records =
      if f = .urlBare ∧ ';' ∈ p then [] else [f.record importer p] := by
  rw [readStyleImports, FileImports.records_foldl_add importer .style Path.isNetwork]
  split
  · next hbare =>
      obtain ⟨rfl, hsemicolon⟩ := hbare
      rw [styleDeclarations_urlBare h hsemicolon]
      rfl
  · next hf =>
      rw [styleDeclarations_rule h hf, RuleForm.record, ← isNetwork_modulePath p]
      simp [FileImports.recordOf, FileImports.start, ImportRecord.empty, ImportRecord.addAll,
        List.eraseDups_cons]

/-- The address of a font service, with a line comment's slashes in it, is the module of all forms. -/
theorem records_rule_fonts :
    IsPath "https://fonts.example.com/css2?family=Inter:wght@400,700".toList ∧
      ∀ f : RuleForm,
        (readStyleImports []
            (f.rule "https://fonts.example.com/css2?family=Inter:wght@400,700".toList)).records =
          [f.record [] "https://fonts.example.com/css2?family=Inter:wght@400,700".toList] ∧
        (f.record [] "https://fonts.example.com/css2?family=Inter:wght@400,700".toList).module =
          "https://fonts.example.com/css2?family=Inter:wght@400,700".toList := by
  have hp : IsPath "https://fonts.example.com/css2?family=Inter:wght@400,700".toList :=
    { ne_nil := by decide
      clean := by decide
      head := fun c hc => Option.some.inj hc ▸ (by decide)
      last := fun c hc => Option.some.inj hc ▸ (by decide) }
  refine ⟨hp, fun f => ⟨?_, ?_⟩⟩
  · rw [records_rule hp [] f, if_neg fun hbare => absurd hbare.2 (by decide)]
  · simp only [RuleForm.record]
    decide +kernel

/-- With a second weight behind a semicolon, there is no rule without quotes. -/
theorem no_rule_with_semicolon :
    (readStyleImports []
        "@import url(https://fonts.example.com/css2?family=Inter:wght@400;700);".toList).records =
      [] ∧
    (readStyleImports []
        "@import url('https://fonts.example.com/css2?family=Inter:wght@400;700');".toList).records.map
          (fun r => (r.module, r.isExternal, r.sideEffect)) =
      [("https://fonts.example.com/css2?family=Inter:wght@400;700".toList, true, true)] := by
  decide +kernel

end StyleImport

end ScriptSurvey
