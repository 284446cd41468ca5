import ScriptSurvey.Lexical.Trivia
import ScriptSurvey.Proofs.Text.Blank

/-!
# Texts that keep their runs

A scan cuts a text into runs from the left, so what stands behind a text can change its runs
only at the end: an open string or comment goes on, and a `/` may turn out to open a comment. A
text is **sealed** when that cannot happen. Sealed texts can be put together run by run, which
is how everything that is written piece by piece is scanned again:

* a character that opens nothing is sealed, and so is a text of such characters;
* a string closed by its own delimiter is sealed, whatever it holds;
* a block comment with its end is sealed, a line comment together with its line feed;
* sealed texts one after another are sealed.
-/

namespace ScriptSurvey

theorem runs_nil : runs [] = [] := by rw [runs]

theorem runs_cons (c : Char) (t : Text) :
    runs (c :: t) = (Step.first c t).run :: runs (Step.first c t).rest := by
  rw [runs]

theorem Run.join_map_code (t : Text) : join (t.map code) = t := by
  simp [join, List.flatMap_map, Run.text]

theorem LiteralKind.delimiter_of_ofDelimiter? {c : Char} {kind : LiteralKind}
    (h : ofDelimiter? c = some kind) : c = kind.delimiter := by
  unfold ofDelimiter? at h
  split at h
  · next hc => rw [← Option.some.inj h]; exact hc
  · split at h
    · next hc => rw [← Option.some.inj h]; exact hc
    · split at h
      · next hc => rw [← Option.some.inj h]; exact hc
      · exact absurd h (by simp)

namespace Step

/-- A character that opens no string and no comment is a run of its own. -/
theorem first_code {c : Char} {t : Text} (hkind : LiteralKind.ofDelimiter? c = none)
    (hslash : c = '/' → t.head? ≠ some '/' ∧ t.head? ≠ some '*') :
    first c t = ⟨.code c, t, false⟩ := by
  unfold first
  split
  · exact absurd rfl (hslash rfl).1
  · exact absurd rfl (hslash rfl).2
  · rw [hkind]

/-- What a text begins with and what step that makes. -/
inductive IsFirst : Text → Step → Prop
  | line (t : Text) : IsFirst ('/' :: '/' :: t)
      ⟨.comment .line ('/' :: '/' :: t.takeWhile (· != '\n')), t.dropWhile (· != '\n'), false⟩
  | block (t : Text) : IsFirst ('/' :: '*' :: t)
      (ofBody (.comment .block) ['/', '*'] (Body.ofBlock t))
  | literal (kind : LiteralKind) (t : Text) : IsFirst (kind.delimiter :: t)
      (ofBody (.literal kind) [kind.delimiter] (Body.ofLiteral kind t))
  | code {c : Char} {t : Text} (hkind : LiteralKind.ofDelimiter? c = none)
      (hslash : c = '/' → t.head? ≠ some '/' ∧ t.head? ≠ some '*') :
      IsFirst (c :: t) ⟨.code c, t, false⟩

theorem isFirst (c : Char) (t : Text) : IsFirst (c :: t) (first c t) := by
  unfold first
  split
  · exact .line _
  · exact .block _
  · next hline hblock =>
      split
      · next kind hkind =>
          rw [LiteralKind.delimiter_of_ofDelimiter? hkind]
          exact .literal kind t
      · next hkind =>
          refine .code hkind fun hc => ⟨fun hd => ?_, fun hd => ?_⟩
          · obtain ⟨u, hu⟩ := List.head?_eq_some_iff.mp hd
            exact hline u hc hu
          · obtain ⟨u, hu⟩ := List.head?_eq_some_iff.mp hd
            exact hblock u hc hu

/-- A step over code passes one character. -/
theorem first_of_isCode {c : Char} {t : Text} (h : (first c t).run.mode.isCode = true) :
    first c t = ⟨.code c, t, false⟩ := by
  have hs := isFirst c t
  generalize first c t = s at hs h ⊢
  cases hs with
  | line t => exact absurd h Bool.false_ne_true
  | block t => exact absurd h Bool.false_ne_true
  | literal kind t => exact absurd h Bool.false_ne_true
  | code _ _ => rfl

end Step

namespace Text

/-- A text whose runs stay what they are, whatever follows. -/
def Sealed (t : Text) : Prop :=
  ∀ u : Text, runs (t ++ u) = runs t ++ runs u

theorem Sealed.nil : Sealed [] := by
  intro u
  rw [runs_nil, List.nil_append, List.nil_append]

theorem Sealed.append {s t : Text} (hs : s.Sealed) (ht : t.Sealed) : (s ++ t).Sealed := by
  intro u
  rw [List.append_assoc, hs, ht, hs t, List.append_assoc]

theorem Sealed.runs_append {s : Text} (hs : s.Sealed) (t : Text) :
    runs (s ++ t) = runs s ++ runs t :=
  hs t

/-- Whether the character is a run of its own wherever it stands in code. -/
def isPlain (c : Char) : Bool :=
  c != '/' && (LiteralKind.ofDelimiter? c).isNone

theorem first_of_isPlain {c : Char} (h : isPlain c = true) (t : Text) :
    Step.first c t = ⟨.code c, t, false⟩ := by
  simp only [isPlain, Bool.and_eq_true, bne_iff_ne, Option.isNone_iff_eq_none] at h
  exact Step.first_code h.2 fun hc => absurd hc h.1

theorem runs_cons_of_isPlain {c : Char} (h : isPlain c = true) (t : Text) :
    runs (c :: t) = .code c :: runs t := by
  rw [runs_cons, first_of_isPlain h]

theorem runs_append_of_isPlain {s : Text} (h : ∀ c ∈ s, isPlain c = true) (t : Text) :
    runs (s ++ t) = s.map Run.code ++ runs t := by
  induction s with
  | nil => rfl
  | cons c s ih =>
      rw [List.cons_append, runs_cons_of_isPlain (h c List.mem_cons_self),
        ih fun d hd => h d (List.mem_cons_of_mem c hd)]
      rfl

/-- The runs of a text of plain characters are its characters. -/
theorem runs_of_isPlain {s : Text} (h : ∀ c ∈ s, isPlain c = true) :
    runs s = s.map Run.code := by
  have := runs_append_of_isPlain h []
  rwa [List.append_nil, runs_nil, List.append_nil] at this

theorem sealed_of_isPlain {s : Text} (h : ∀ c ∈ s, isPlain c = true) : s.Sealed := by
  intro u
  rw [runs_append_of_isPlain h, runs_of_isPlain h]

end Text

/-! ## Closed strings and comments -/

namespace Body

/-- What follows a closed block comment is left to the rest. -/
theorem ofBlock_append_of_closed {t : Text} (h : (ofBlock t).closed = true) (u : Text) :
    ofBlock (t ++ u) = ⟨(ofBlock t).text, (ofBlock t).rest ++ u, true⟩ := by
  fun_induction ofBlock t with
  | case1 => exact absurd h (by simp)
  | case2 t => simp [ofBlock]
  | case3 c t hne ih =>
      have hopen : ∀ v : Text, c = '*' → t ++ u = '/' :: v → False := by
        intro v hc ht
        cases t with
        | nil => exact absurd h (by simp [ofBlock, push])
        | cons d t =>
            rw [List.cons_append, List.cons.injEq] at ht
            exact hne t hc (by rw [ht.1])
      rw [List.cons_append, ofBlock.eq_3 c (t ++ u) hopen, ih h]
      simp [push]

theorem ofLiteral_escape (kind : LiteralKind) (c : Char) (t : Text) :
    ofLiteral kind ('\\' :: c :: t) = ((ofLiteral kind t).push c).push '\\' :=
  ofLiteral.eq_3 kind c t

/-- A character that is no backslash ends a string or is one more of it. -/
theorem ofLiteral_cons_of_ne {kind : LiteralKind} {c : Char} (hc : c ≠ '\\') (t : Text) :
    ofLiteral kind (c :: t) =
      if c = kind.delimiter then ⟨[c], t, true⟩
      else if c = '\n' ∧ kind.endsAtLineFeed then ⟨[], c :: t, true⟩
      else (ofLiteral kind t).push c :=
  ofLiteral.eq_4 kind c t (fun h _ => hc h) (fun _ _ h _ => hc h)

theorem delimiter_ne_backslash (kind : LiteralKind) : kind.delimiter ≠ '\\' := by
  cases kind <;> decide

theorem ofLiteral_delimiter (kind : LiteralKind) (t : Text) :
    ofLiteral kind (kind.delimiter :: t) = ⟨[kind.delimiter], t, true⟩ := by
  rw [ofLiteral_cons_of_ne (delimiter_ne_backslash kind), if_pos rfl]

theorem ofLiteral_lineFeed {kind : LiteralKind} (h : kind.endsAtLineFeed = true) (t : Text) :
    ofLiteral kind ('\n' :: t) = ⟨[], '\n' :: t, true⟩ := by
  have hne : '\n' ≠ kind.delimiter := by cases kind <;> decide
  rw [ofLiteral_cons_of_ne (by decide), if_neg hne, if_pos ⟨rfl, h⟩]

theorem ofLiteral_inside {kind : LiteralKind} {c : Char} (hc : c ≠ '\\') (hd : c ≠ kind.delimiter)
    (hn : ¬(c = '\n' ∧ kind.endsAtLineFeed = true)) (t : Text) :
    ofLiteral kind (c :: t) = (ofLiteral kind t).push c := by
  rw [ofLiteral_cons_of_ne hc, if_neg hd, if_neg hn]

/-- Induction along the body of a string: its end, an escape, or one more character. -/
theorem literal_induction (kind : LiteralKind) {P : Text → Prop}
    (nil : P []) (lone : P ['\\'])
    (escape : ∀ (c : Char) (t : Text), P t → P ('\\' :: c :: t))
    (delimiter : ∀ t : Text, P (kind.delimiter :: t))
    (lineFeed : ∀ t : Text, kind.endsAtLineFeed = true → P ('\n' :: t))
    (inside : ∀ (c : Char) (t : Text), c ≠ '\\' → c ≠ kind.delimiter →
      ¬(c = '\n' ∧ kind.endsAtLineFeed = true) → P t → P (c :: t)) (t : Text) : P t := by
  induction t using ofLiteral.induct kind with
  | case1 => exact nil
  | case2 => exact lone
  | case3 c t ih => exact escape c t ih
  | case4 t _ _ => exact delimiter t
  | case5 c t _ _ _ hn => rw [hn.1]; exact lineFeed t hn.2
  | case6 c t hone htwo hd hn ih =>
      refine inside c t (fun hc => ?_) hd hn ih
      cases t with
      | nil => exact hone hc rfl
      | cons d t => exact htwo d t hc rfl

/-- What follows a closed string is left to the rest. -/
theorem ofLiteral_append_of_closed {kind : LiteralKind} {t : Text}
    (h : (ofLiteral kind t).closed = true) (u : Text) :
    ofLiteral kind (t ++ u) = ⟨(ofLiteral kind t).text, (ofLiteral kind t).rest ++ u, true⟩ := by
  induction t using literal_induction kind with
  | nil => exact absurd h (by simp [ofLiteral])
  | lone => exact absurd h (by simp [ofLiteral])
  | escape c t ih =>
      rw [ofLiteral_escape] at h
      rw [List.cons_append, List.cons_append, ofLiteral_escape, ofLiteral_escape, ih h]
      rfl
  | delimiter t =>
      rw [List.cons_append, ofLiteral_delimiter, ofLiteral_delimiter]
  | lineFeed t hk =>
      rw [List.cons_append, ofLiteral_lineFeed hk, ofLiteral_lineFeed hk]
      rfl
  | inside c t hc hd hn ih =>
      rw [ofLiteral_inside hc hd hn] at h
      rw [List.cons_append, ofLiteral_inside hc hd hn, ofLiteral_inside hc hd hn, ih h]
      rfl

end Body

/-- Whether a comment or string has its end: a block comment its `*/`, a string the delimiter
that opened it. A line comment needs none. -/
def Run.isClosed : Run → Bool
  | .code _ => true
  | .comment .line _ => true
  | .comment .block t => Body.ofBlock (t.drop 2) == ⟨t.drop 2, [], true⟩
  | .literal kind t => Body.ofLiteral kind t.tail == ⟨t.tail, [], true⟩

/-! ## A run in front of a text -/

/-- Whether a scan of the run with `t` behind it finds the run first, and then goes on with `t`. -/
def Run.Leads (r : Run) (t : Text) : Prop :=
  ∃ d u, r.text ++ t = d :: u ∧ Step.first d u = ⟨r, t, false⟩

theorem Run.Leads.runs_append {r : Run} {t : Text} (h : r.Leads t) :
    runs (r.text ++ t) = r :: runs t := by
  obtain ⟨d, u, hcons, hfirst⟩ := h
  rw [hcons, runs_cons, hfirst]

/-- A run that a scan finds whatever follows is sealed. -/
theorem Run.sealed_of_leads {r : Run} (h : ∀ t, r.Leads t) : r.text.Sealed := by
  intro t
  have hone := (h []).runs_append
  rw [List.append_nil, runs_nil] at hone
  rw [(h t).runs_append, hone]
  rfl

namespace Text

theorem leads_of_isPlain {c : Char} (h : isPlain c = true) (t : Text) : (Run.code c).Leads t :=
  ⟨c, t, rfl, first_of_isPlain h t⟩

theorem first_delimiter (kind : LiteralKind) (t : Text) :
    Step.first kind.delimiter t =
      Step.ofBody (.literal kind) [kind.delimiter] (Body.ofLiteral kind t) := by
  cases kind <;> rfl

/-- A string closed by its own delimiter is one run, whatever follows. -/
theorem leads_literal {kind : LiteralKind} {body : Text}
    (h : Body.ofLiteral kind body = ⟨body, [], true⟩) (t : Text) :
    (Run.literal kind (kind.delimiter :: body)).Leads t := by
  refine ⟨kind.delimiter, body ++ t, rfl, ?_⟩
  rw [first_delimiter, Body.ofLiteral_append_of_closed (by rw [h]), h]
  rfl

theorem runs_literal_append {kind : LiteralKind} {body : Text}
    (h : Body.ofLiteral kind body = ⟨body, [], true⟩) (u : Text) :
    runs (kind.delimiter :: body ++ u) = .literal kind (kind.delimiter :: body) :: runs u :=
  (leads_literal h u).runs_append

theorem sealed_literal {kind : LiteralKind} {body : Text}
    (h : Body.ofLiteral kind body = ⟨body, [], true⟩) : Sealed (kind.delimiter :: body) :=
  Run.sealed_of_leads (leads_literal h)

/-- A block comment with its end is one run, whatever follows. -/
theorem leads_block {body : Text} (h : Body.ofBlock body = ⟨body, [], true⟩) (t : Text) :
    (Run.comment .block ('/' :: '*' :: body)).Leads t := by
  refine ⟨'/', '*' :: (body ++ t), rfl, ?_⟩
  have hclosed : (Body.ofBlock body).closed = true := by rw [h]
  simp only [Step.first, Body.ofBlock_append_of_closed hclosed, h]
  rfl

/-- A line comment is one run in front of its line feed, and at the end of a text. -/
theorem leads_line {body t : Text} (h : '\n' ∉ body) (ht : t = [] ∨ t.head? = some '\n') :
    (Run.comment .line ('/' :: '/' :: body)).Leads t := by
  have hne : ∀ c ∈ body, (c != '\n') = true := by
    intro c hc
    rw [bne_iff_ne]
    intro he
    exact h (he ▸ hc)
  refine ⟨'/', '/' :: (body ++ t), rfl, ?_⟩
  simp only [Step.first]
  rw [List.takeWhile_append_of_pos hne, List.dropWhile_append_of_pos hne]
  rcases ht with rfl | ht
  · simp
  · obtain ⟨u, rfl⟩ := List.head?_eq_some_iff.mp ht
    simp

end Text

end ScriptSurvey
