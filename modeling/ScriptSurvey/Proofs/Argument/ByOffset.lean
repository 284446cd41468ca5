import Mathlib.Data.List.Infix
import ScriptSurvey.Proofs.Argument.ByKind
import ScriptSurvey.Proofs.Lexical.ByOffset

/-!
# Reading by offset

Arguments are read once more over the bytes of their texts, as `ScriptSurvey.ByOffset` walks over them. A
part is cut out at offsets that come from the search for a bracket, a word or a character, and from those
by counting on. Then it is read like the whole.

There are three ways to come to nothing: by a cut that is **refused**, by reading a part that is **not
shorter** than the argument that it is a part of, and by parts of parts **more deeply** than the text is
long. Reading by offset knows no other way to stop early, and it never stops early: it reads what the
reader of runs reads, for every text that is no deeper than the machine can count.
-/

namespace ScriptSurvey

open Run Nesting

namespace ByOffset

/-! ## The reader -/

section Reader

variable (count : Int → Int) (read : Text → Option Element)

/-- Read the parts between the outermost commas. -/
def elements? (t : Text) : Option (List Element) :=
  (split? count t).bind fun parts => parts.mapM read

/-- Read a property of an object. -/
def property? (t : Text) : Option (Text × Element) :=
  if (List.isPrefixOf? ['.', '.', '.'] t).isSome then some (t, .leaf t)
  else
    (found? count [':'] t).bind fun colons =>
      match colons.head? with
      | none => some (t, .leaf t)
      | some n =>
        (between? t 0 n).bind fun key =>
          (trimmed? key).bind fun key =>
            (between? t (n + 1) (Text.size t)).bind fun value =>
              (read value).map fun value => (key, value)

/-- Read an object; the inner `none` when the text is none. -/
def object? (t : Text) : Option (Option Element) :=
  (wrapped? count t '\x7b').bind fun isObject =>
    if isObject then
      (between? t 1 (Text.size t - 1)).bind fun inner =>
        (split? count inner).bind fun properties =>
          (properties.mapM (property? count read)).map fun ps => some (Element.ofProperties ps)
    else some none

/-- Read a type assertion. -/
def assertion? (t : Text) : Option (Option Element) :=
  (found? count [' ', 'a', 's', ' '] t).bind fun words =>
    match words.getLast? with
    | none => some none
    | some n =>
      (between? t 0 n).bind fun expr =>
        (between? t (n + 4) (Text.size t)).bind fun target =>
          (trimmed? target).bind fun target =>
            if Text.isAllBlank expr || target.isEmpty then some none
            else (read expr).map fun expr => some (.assertion target expr)

/-- Read an array. -/
def array? (t : Text) : Option (Option Element) :=
  (wrapped? count t '[').bind fun isArray =>
    if isArray then
      (between? t 1 (Text.size t - 1)).bind fun inner =>
        (elements? count read inner).map fun items => some (.array items)
    else some none

/-- Read what stands behind the arrow of a function. -/
def arrowTo? (params : List Element) (types : Option ArrowTypes) (body : Text) :
    Option (Option Element) :=
  (trimmed? body).bind fun body =>
    if body.isEmpty then some none
    else if body.head? = some '\x7b' then some (some (.arrow params types (.leaf body)))
    else (read body).map fun body => some (.arrow params types body)

/-- Read a parameter and its annotation. -/
def parameter? (t : Text) : Option (Element × Option Text) :=
  (found? count [':'] t).bind fun colons =>
    match colons.head? with
    | none => (read t).map fun name => (name, none)
    | some n =>
      (between? t 0 n).bind fun name =>
        (read name).bind fun name =>
          (between? t (n + 1) (Text.size t)).bind fun annotation =>
            (trimmed? annotation).map fun annotation => (name, some annotation)

/-- Read a function with a result type, given what its parentheses enclose and what stands behind the
colon. -/
def typedArrow? (params annotated : Text) : Option (Option Element) :=
  (found? count ['=', '>'] annotated).bind fun arrows =>
    match arrows.head? with
    | none => some none
    | some n =>
      (between? annotated 0 n).bind fun result =>
        (trimmed? result).bind fun result =>
          if result.isEmpty then some none
          else
            (split? count params).bind fun params =>
              (params.mapM (parameter? count read)).bind fun params =>
                (between? annotated (n + 2) (Text.size annotated)).bind fun body =>
                  arrowTo? read (params.map Prod.fst) (some ⟨params.map Prod.snd, result⟩) body

/-- Read a function with parentheses in front of its arrow. -/
def bracketedArrow? (t : Text) : Option (Option Element) :=
  (closing? count t 0).bind fun close =>
    match close with
    | none => some none
    | some close =>
      (between? t 1 close).bind fun params =>
        (between? t (close + 1) (Text.size t)).bind fun rest =>
          match List.isPrefixOf? ['=', '>'] (Text.trimStart rest) with
          | some body => (elements? count read params).bind fun params => arrowTo? read params none body
          | none =>
            match List.isPrefixOf? [':'] (Text.trimStart rest) with
            | some annotated => typedArrow? count read params annotated
            | none => some none

/-- Read a function with a single name in front of its arrow. -/
def nameArrow? (t : Text) : Option (Option Element) :=
  (found? count ['=', '>'] t).bind fun arrows =>
    match arrows.head? with
    | none => some none
    | some n =>
      (between? t 0 n).bind fun param =>
        if Text.isIdentifier (Text.trim param) then
          (between? t (n + 2) (Text.size t)).bind fun body =>
            arrowTo? read [.leaf (Text.trim param)] none body
        else some none

/-- Read a function, if there is an arrow anywhere in the text. -/
def arrow? (t : Text) : Option (Option Element) :=
  if ['=', '>'] <:+: t then
    if t.head? = some '(' then bracketedArrow? count read t else nameArrow? count read t
  else some none

/-- Read the arguments in the parentheses at an offset; the inner `none` when they are not closed, or when
there is more behind them than blanks. -/
def listed? (t : Text) (n : Nat) : Option (Option (List Element)) :=
  (closing? count t n).bind fun close =>
    match close with
    | none => some none
    | some close =>
      (between? t (close + 1) (Text.size t)).bind fun after =>
        if Text.isAllBlank after then
          (between? t (n + 1) close).bind fun args => (elements? count read args).map some
        else some none

/-- Read a call, given the offset of its parenthesis. -/
def call? (t : Text) (n : Nat) : Option (Option Element) :=
  (between? t 0 n).bind fun name =>
    if Form.isCallee (Text.trim name) then
      (listed? count read t n).map fun args => args.map (.call (Text.trim name))
    else some none

/-- Read what stands behind the type arguments of a generic. -/
def genericTo? (name : Text) (types : List Element) (rest : Text) : Option (Option Element) :=
  if rest.isEmpty then some (some (.generic name types))
  else if rest.head? = some '(' then
    (listed? count read rest 0).map fun args => args.map (.genericCall name types)
  else some none

/-- Read a generic, given the offset of its bracket. -/
def generic? (t : Text) (n : Nat) : Option (Option Element) :=
  (between? t 0 n).bind fun name =>
    if Form.isCallee (Text.trim name) then
      (closing? count t n).bind fun close =>
        match close with
        | none => some none
        | some close =>
          (between? t (n + 1) close).bind fun types =>
            (elements? count read types).bind fun types =>
              (between? t (close + 1) (Text.size t)).bind fun rest =>
                genericTo? count read (Text.trim name) types (Text.trim rest)
    else some none

/-- Read a call or a generic, if there is a bracket of the two kinds anywhere in the text. -/
def applied? (t : Text) : Option (Option Element) :=
  if t.contains '(' || t.contains '<' then
    (firstCode? t '(').bind fun paren =>
      (firstCode? t '<').bind fun angle =>
        match angle, paren with
        | some a, some p => if a < p then generic? count read t a else call? count read t p
        | some a, none => generic? count read t a
        | none, some p => call? count read t p
        | none, none => some none
  else some none

/-- The first of two readings that is one. -/
def orElse? (first second : Option (Option Element)) : Option (Option Element) :=
  first.bind fun found =>
    match found with
    | some e => some (some e)
    | none => second

/-- A reader that comes to nothing for texts that are not shorter than `t`. -/
def onlyShorter (t part : Text) : Option Element :=
  if Text.size part < Text.size t then read part else none

/-- Read an argument, given a reader for its parts, which are to be shorter. -/
def layer? (t : Text) : Option Element :=
  (trimmed? t).bind fun t =>
    (orElse? (object? count (onlyShorter read t) t) <|
      orElse? (assertion? count (onlyShorter read t) t) <|
      orElse? (array? count (onlyShorter read t) t) <|
      orElse? (arrow? count (onlyShorter read t) t) <|
      applied? count (onlyShorter read t) t).map fun found => found.getD (.leaf t)

end Reader

/-- Read an argument, with parts of parts not more deeply than `depth`. -/
def element? (count : Int → Int) : Nat → Text → Option Element
  | 0, t => layer? count (fun _ => none) t
  | depth + 1, t => layer? count (element? count depth) t

/-- Read the arguments of a list. -/
def arguments? (count : Int → Int) (depth : Nat) (t : Text) : Option (List Element) :=
  elements? count (element? count depth) t

/-! ## Parts -/

theorem mapM_eq_some {α β : Type} {f : α → Option β} {g : α → β} {l : List α}
    (h : ∀ a ∈ l, f a = some (g a)) : l.mapM f = some (l.map g) := by
  induction l with
  | nil => rfl
  | cons a l ih =>
      rw [List.mapM_cons, h a List.mem_cons_self, ih fun b hb => h b (List.mem_cons_of_mem a hb)]
      rfl

theorem size_join_pos {t : Text} {p : List Run} (hp : p <:+: runs t) (hne : p ≠ []) :
    0 < Text.size (join p) :=
  Text.size_pos fun hnil => hne ((join_eq_nil_iff hp).mp hnil)

/-- Some of the runs of a text, but not all of them, make up a shorter text. -/
theorem size_join_lt {t : Text} {p : List Run} (hp : p <:+: runs t) (h : p.length < (runs t).length) :
    Text.size (join p) < Text.size t := by
  obtain ⟨a, b, hruns⟩ := hp
  have hsize : Text.size t = Text.size (join a) + Text.size (join p) + Text.size (join b) := by
    conv => lhs; rw [← join_runs t, ← hruns]
    rw [join_append, join_append, Text.size_append, Text.size_append]
  have ha : a <:+: runs t := ⟨[], p ++ b, by rw [← hruns, List.nil_append, List.append_assoc]⟩
  have hb : b <:+: runs t := ⟨a ++ p, [], by rw [hruns, List.append_nil]⟩
  by_cases hnil : a = []
  · have hbehind : b ≠ [] := by
      rintro rfl
      rw [← hruns, hnil, List.nil_append, List.append_nil] at h
      exact Nat.lt_irrefl _ h
    have := size_join_pos hb hbehind
    omega
  · have := size_join_pos ha hnil
    omega

theorem size_join_le {t : Text} {p : List Run} (hp : p <:+: runs t) :
    Text.size (join p) ≤ Text.size t := by
  rcases Nat.lt_or_ge p.length (runs t).length with hlt | hge
  · exact Nat.le_of_lt (size_join_lt hp hlt)
  · have hall : p = runs t := hp.eq_of_length (Nat.le_antisymm hp.length_le hge)
    rw [hall, join_runs]

/-- What begins with fewer of the runs of a text is shorter. -/
theorem size_join_lt_iff {t : Text} {p q : List Run} (hp : p <+: runs t) (hq : q <+: runs t) :
    Text.size (join p) < Text.size (join q) ↔ p.length < q.length := by
  have hlt {p q : List Run} (hp : p <+: runs t) (hq : q <+: runs t) (h : p.length < q.length) :
      Text.size (join p) < Text.size (join q) := by
    obtain ⟨b, rfl⟩ := List.prefix_of_prefix_length_le hp hq (Nat.le_of_lt h)
    have hb : b <:+: runs t := (List.suffix_append p b).isInfix.trans hq.isInfix
    have hne : b ≠ [] := by
      rintro rfl
      rw [List.append_nil] at h
      exact Nat.lt_irrefl _ h
    rw [join_append, Text.size_append]
    exact Nat.lt_add_of_pos_right (size_join_pos hb hne)
  refine ⟨fun h => ?_, hlt hp hq⟩
  by_contra hge
  rcases Nat.lt_or_eq_of_le (Nat.not_lt.mp hge) with hgt | heq
  · exact Nat.lt_asymm h (hlt hq hp hgt)
  · have hsame : q <+: p := List.prefix_of_prefix_length_le hq hp (Nat.le_of_eq heq)
    rw [hsame.eq_of_length heq] at h
    exact Nat.lt_irrefl _ h

/-- Whether a reader reads all texts that are shorter, and no deeper. -/
def ReadsShorter (read : Text → Option Element) (t : Text) : Prop :=
  ∀ part, Text.size part < Text.size t → part.depth ≤ t.depth → read part = some (parseElement part)

/-- Runs that are some of those of a text, but not all. -/
structure IsPart (t : Text) (p : List Run) : Prop where
  isInfix : p <:+: runs t
  length_lt : p.length < (runs t).length

namespace IsPart

variable {t : Text} {p q : List Run}

theorem mono (h : IsPart t q) (hp : p <:+: q) : IsPart t p :=
  ⟨hp.trans h.isInfix, Nat.lt_of_le_of_lt hp.length_le h.length_lt⟩

theorem stable (h : IsPart t p) : Stable p :=
  (Run.stable_runs t).of_isInfix h.isInfix

theorem runs_join (h : IsPart t p) : runs (join p) = p :=
  h.stable

theorem keeps {count : Int → Int} (h : IsPart t p) (hcount : Keeps count t.depth) :
    Keeps count (Text.depth (join p)) :=
  hcount.mono (Text.depth_join_le h.isInfix)

theorem dropBlanks (h : IsPart t p) : IsPart t (Form.dropBlanks p) :=
  h.mono (List.dropWhile_suffix _).isInfix

theorem of_dropCode? {word : Text} (h : IsPart t p) (hq : dropCode? word p = some q) : IsPart t q := by
  rw [eq_of_dropCode? hq] at h
  exact h.mono (List.suffix_append _ _).isInfix

theorem of_eq {a b : List Run} (h : runs t = a ++ (p ++ b)) (hab : 0 < a.length + b.length) :
    IsPart t p := by
  refine ⟨⟨a, b, by rw [h, List.append_assoc]⟩, ?_⟩
  rw [h, List.length_append, List.length_append]
  omega

/-- What two runs enclose is a part, and so is what follows. -/
theorem of_enclosed {a inner after : List Run} {o c : Run}
    (h : runs t = a ++ o :: (inner ++ c :: after)) : IsPart t inner ∧ IsPart t after := by
  constructor
  · refine .of_eq (a := a ++ [o]) (b := c :: after) ?_ (Nat.add_pos_right _ (Nat.zero_lt_succ _))
    rw [h, List.append_assoc, List.singleton_append]
  · refine .of_eq (a := a ++ o :: (inner ++ [c])) (b := []) ?_ ?_
    · rw [h]
      simp
    · rw [List.length_append, List.length_cons]
      omega

end IsPart

/-! ## Cuts -/

section Cuts

variable {t : Text} {p a b : List Run}

theorem isInfix_of_cut {q : List Run} (h : p = a ++ (q ++ b)) : a <:+: p ∧ b <:+: p := by
  rw [h]
  refine ⟨(List.prefix_append _ _).isInfix, ?_⟩
  rw [← List.append_assoc]
  exact (List.suffix_append _ _).isInfix

/-- The texts on both sides of a cut at a word. -/
theorem between?_cut {w : Text} (h : p = a ++ (w.map code ++ b)) :
    between? (join p) 0 (Text.size (join a)) = some (join a) ∧
      between? (join p) (Text.size (join a) + Text.size w) (Text.size (join p)) = some (join b) := by
  have hjoin : join p = join a ++ (w ++ join b) := by
    rw [h, join_append, join_append, Run.join_map_code]
  refine ⟨between?_eq (x := []) hjoin rfl (Nat.zero_add _).symm, ?_⟩
  refine between?_eq (x := join a ++ w) (z := []) ?_ ?_ ?_
  · rw [hjoin, List.append_nil, List.append_assoc]
  · rw [Text.size_append]
  · rw [hjoin, Text.size_append, Text.size_append, Text.size_append, Nat.add_assoc]

/-- The texts in brackets and behind them. -/
theorem between?_enclosed {o c : Char} {inner after : List Run}
    (h : runs t = a ++ code o :: (inner ++ code c :: after)) (ho : isOpeningBracket o = true)
    (hc : c ∈ closers) :
    between? t (Text.size (join a) + 1) (Text.size (join a) + 1 + Text.size (join inner)) =
        some (join inner) ∧
      between? t (Text.size (join a) + 1 + Text.size (join inner) + 1) (Text.size t) =
        some (join after) := by
  have hopen := utf8Size_of_isOpeningBracket ho
  have hclose := utf8Size_of_mem_closers hc
  have ht : t = (join a ++ [o]) ++ (join inner ++ (c :: join after)) := by
    rw [← join_runs t, h]
    simp [Run.text]
  have hfront : Text.size (join a ++ [o]) = Text.size (join a) + 1 := by
    rw [Text.size_append, Text.size_cons, Text.size_nil, hopen]
  refine ⟨between?_eq ht hfront.symm (by rw [hfront]), ?_⟩
  have ht' : t = ((join a ++ [o]) ++ (join inner ++ [c])) ++ (join after ++ []) := by
    rw [ht]
    simp
  have hfront' : Text.size ((join a ++ [o]) ++ (join inner ++ [c])) =
      Text.size (join a) + 1 + Text.size (join inner) + 1 := by
    rw [Text.size_append, hfront, Text.size_append, Text.size_cons, Text.size_nil, hclose,
      Nat.add_assoc _ _ 1]
  refine between?_eq ht' hfront'.symm ?_
  conv => lhs; rw [ht']
  rw [List.append_nil, Text.size_append]

theorem trimmed?_join (hp : IsPart t p) : trimmed? (join p) = some (join (trim p)) := by
  rw [trimmed?_eq, trimTrivia, hp.runs_join]

/-- A plain character in front of a text is the first of its runs. -/
theorem head?_join_eq_iff {c : Char} (hc : Text.isPlain c = true) (h : Stable p) :
    (join p).head? = some c ↔ p.head? = some (code c) := by
  cases p with
  | nil => exact iff_of_false (by simp) (by simp)
  | cons r p =>
      cases hcode : r.mode.isCode with
      | true =>
          obtain ⟨d, rfl⟩ := exists_eq_code hcode
          rw [List.head?_cons, Option.some_inj, Run.code.injEq]
          exact Option.some_inj
      | false =>
          obtain ⟨o, s, htext, ho⟩ := exists_text_eq_cons h hcode
          refine iff_of_false (fun hhead => ?_) (fun hr => ?_)
          · rw [join_cons, htext] at hhead
            rw [Option.some.inj hhead, hc] at ho
            exact Bool.noConfusion ho
          · rw [Option.some.inj hr] at hcode
            exact Bool.noConfusion hcode

/-- A text in brackets is a part of the whole. -/
theorem isPart_of_wrapped {c : Char} {inner : List Run} (h : Run.wrapped c (runs t) = some inner) :
    IsPart t inner := by
  obtain ⟨rest, hruns, henc⟩ := eq_of_wrapped h
  obtain ⟨z, -, rfl⟩ := eq_of_enclosed henc
  exact (IsPart.of_enclosed (a := []) hruns).1

/-- Without its leading blanks, a text is the runs without theirs. -/
theorem trimStart_join (h : Stable p) : Text.trimStart (join p) = join (Form.dropBlanks p) := by
  induction p with
  | nil => rfl
  | cons r p ih =>
      have hp : Stable p := h.of_append_right (p := [r])
      cases hcode : r.mode.isCode with
      | true =>
          obtain ⟨c, rfl⟩ := exists_eq_code hcode
          show List.dropWhile Text.isBlank (c :: join p) = join (List.dropWhile _ (code c :: p))
          cases hc : Text.isBlank c with
          | true =>
              rw [List.dropWhile_cons_of_pos hc, List.dropWhile_cons_of_pos]
              · exact ih hp
              · simp [Run.text, Text.isAllBlank, hc]
          | false =>
              rw [List.dropWhile_cons_of_neg (by rw [hc]; exact Bool.false_ne_true),
                List.dropWhile_cons_of_neg]
              · rfl
              · simp [Run.text, Text.isAllBlank, hc]
      | false =>
          -- neither a comment nor a string begins in a blank
          obtain ⟨o, s, htext, ho⟩ := exists_text_eq_cons h hcode
          have hblank : Text.isBlank o = false := by
            cases hb : Text.isBlank o with
            | false => rfl
            | true =>
                rw [Text.isPlain_of_isBlank hb] at ho
                exact Bool.noConfusion ho
          rw [Form.dropBlanks, List.dropWhile_cons_of_neg, join_cons, htext, List.cons_append,
            Text.trimStart, List.dropWhile_cons_of_neg (by rw [hblank]; exact Bool.false_ne_true)]
          simp [htext, Text.isAllBlank, hblank]

/-- A single name, with blanks around it, is read as that name. -/
theorem ofRuns_of_isIdentifier (h : Stable p) (hname : Text.isIdentifier (Text.trim (join p)) = true) :
    Element.ofRuns p = .leaf (Text.trim (join p)) := by
  obtain ⟨g, hg, hfront⟩ := Text.exists_eq_append_trimStart (join p)
  obtain ⟨g', hg', hback⟩ := Text.exists_eq_append_trimEnd (Text.trimStart (join p))
  have hname' : Text.trimEnd (Text.trimStart (join p)) = Text.trim (join p) := rfl
  rw [hback, hname'] at hfront
  generalize Text.trim (join p) = name at hname hfront ⊢
  have hword := Text.IsWord.of_isIdentifier hname
  have hruns : p = g.map code ++ (runs name ++ g'.map code) := by
    rw [← h, hfront, Text.runs_append_of_isPlain fun c hc => Text.isPlain_of_isBlank (hg c hc),
      hword.isSealed.runs_append, Text.runs_of_isPlain fun c hc => Text.isPlain_of_isBlank (hg' c hc)]
  have hblank {b : Text} (hb : Text.IsBlanks b) : ∀ r ∈ b.map code, r.isTrivia = true := by
    intro r hr
    obtain ⟨c, hc, rfl⟩ := List.mem_map.mp hr
    rw [isTrivia, Text.isWhiteSpace, hb c hc, Bool.true_or]
  have htrimmed := hword.bare.trimmed hword.runs_ne_nil
  rw [← Element.ofRuns_word hword]
  refine Element.ofRuns_of_trim_eq ?_
  rw [hruns, trim_padded htrimmed (hblank hg) (hblank hg'), trim_of_trimmed htrimmed]

end Cuts

/-! ## Blanks behind brackets -/

section Blanks

variable {d : Nat} {e : Bool} {r : Run} {rs : List Run} {s g : Text}

theorem enclosedFrom_cons_of_stays (h : r.shift e = .stays) :
    enclosedFrom d e (r :: rs) = (enclosedFrom d (r.isChar '=') rs).map fun p => (r :: p.1, p.2) := by
  rw [enclosedFrom, h]
  rfl

/-- Blanks close nothing. -/
theorem enclosedFrom_of_isBlankCode (h : Form.isBlankCode rs = true) : enclosedFrom d e rs = none := by
  induction rs generalizing e with
  | nil => rfl
  | cons r rs ih =>
      rw [Form.isBlankCode, Text.isAllBlank, join_cons, List.all_append, Bool.and_eq_true] at h
      have hstays : r.shift e = .stays := by
        cases r with
        | code c => exact shift_of_isBlank (by simpa [Run.text] using h.1) e
        | comment kind text => rfl
        | literal kind text => rfl
      rw [enclosedFrom_cons_of_stays hstays, ih h.2]
      rfl

/-- **Blanks behind a text** make no difference to what a bracket in front of it encloses, nor to whether
more than blanks follow. -/
theorem enclosedFrom_of_append_blanks (h : Stable rs) (hjoin : join rs = s ++ g) (hg : Text.IsBlanks g) :
    (enclosedFrom d e (runs s)).map (fun p => (p.1, Form.isBlankCode p.2)) =
      (enclosedFrom d e rs).map fun p => (p.1, Form.isBlankCode p.2) := by
  have hblank (b : Text) (hb : Text.IsBlanks b) : Text.isAllBlank b = true := List.all_eq_true.mpr hb
  induction rs generalizing d e s with
  | nil =>
      rw [(List.append_eq_nil_iff.mp hjoin.symm).1, runs_nil]
  | cons r rs ih =>
      have hrs : Stable rs := h.of_append_right (p := [r])
      rcases text_append_or hjoin with ⟨s', rfl, hrest⟩ | ⟨g', hcut, rfl, hne⟩
      · -- the first run is there with its whole text
        have hprefix : s' <+: join rs := ⟨g, hrest.symm⟩
        rw [runs_text_append h hprefix, enclosedFrom, enclosedFrom]
        cases (r.shift e).within d with
        | none =>
            have hsame : Form.isBlankCode (runs s') = Form.isBlankCode rs := by
              rw [Form.isBlankCode, Form.isBlankCode, join_runs, hrest, Text.isAllBlank, Text.isAllBlank,
                List.all_append, ← Text.isAllBlank, ← Text.isAllBlank, hblank g hg, Bool.and_true]
            exact congrArg (fun b => some ([], b)) hsame
        | some d' =>
            have hfound := congrArg (Option.map fun q : List Run × Bool => (r :: q.1, q.2))
              (ih (d := d') (e := r.isChar '=') hrs hrest)
            rw [Option.map_map, Option.map_map] at hfound
            show ((enclosedFrom d' (r.isChar '=') (runs s')).map _).map _ =
              ((enclosedFrom d' (r.isChar '=') rs).map _).map _
            rw [Option.map_map, Option.map_map]
            exact hfound
      · -- all that stands behind is blank
        have hbehind : Form.isBlankCode rs = true := hblank _ fun c hc => hg c (List.mem_append_right g' hc)
        have hg' : Text.IsBlanks g' := fun c hc => hg c (List.mem_append_left _ hc)
        cases hcode : r.mode.isCode with
        | true =>
            have hs := eq_nil_of_cut_code hcode hcut hne
            have hall : Form.isBlankCode (r :: rs) = true := by
              refine hblank _ fun x hx => ?_
              rw [join_cons, hcut, hs, List.nil_append] at hx
              exact hg x hx
            rw [hs, runs_nil, enclosedFrom_of_isBlankCode hall]
            rfl
        | false =>
            have hstays : r.shift e = .stays := shift_of_not_code hcode e
            obtain ⟨q, hq, hstill⟩ := exists_runs_of_cut h hcode hcut hg' hne
            rw [hq, enclosedFrom_cons_of_stays (hstill e), enclosedFrom_cons_of_stays hstays,
              enclosedFrom_of_isBlankCode hbehind]
            rfl

/-- Without the blanks behind it, a text is no deeper. -/
theorem deepest_runs_le_of_append_blanks (h : Stable rs) (hjoin : join rs = s ++ g)
    (hg : Text.IsBlanks g) (n : Nesting) : n.deepest (runs s) ≤ n.deepest rs := by
  obtain ⟨p, q, b, hs, rfl, hstays⟩ := exists_runs_of_append_blanks h hjoin hg
  have hq : (n.after p).deepest q = (n.after p).depth :=
    deepest_of_stays fun r hr => hstays r (List.mem_append_left b hr)
  have hb := depth_le_deepest (n.after p) b
  rw [hs, deepest_append, deepest_append, hq]
  omega

end Blanks

/-! ## Forms taken apart -/

section Forms

theorem isInfix_of_cutAtFirst {word : Text} {p a b : List Run} (h : Run.cutAtFirst word p = some (a, b)) :
    word.map code <:+: p :=
  ⟨a, b, by rw [eq_of_cutAtFirst h, List.append_assoc]⟩

theorem isInfix_of_bracketedArrow? {params rest : List Run} {f : Form (List Run)}
    (h : Form.bracketedArrow? params rest = some f) : ['=', '>'].map code <:+: Form.dropBlanks rest := by
  unfold Form.bracketedArrow? at h
  dsimp only at h
  split at h
  · next body hbody =>
      rw [eq_of_dropCode? hbody]
      exact (List.prefix_append _ _).isInfix
  · split at h
    · exact absurd h (by simp)
    · next annotated hcolon =>
        rw [eq_of_dropCode? hcolon]
        split at h
        · exact absurd h (by simp)
        · next hcut => exact (isInfix_of_cutAtFirst hcut).trans (List.suffix_append _ _).isInfix

/-- There is no function without an arrow. -/
theorem isInfix_of_arrow? {rs : List Run} {f : Form (List Run)} (h : Form.arrow? rs = some f) :
    ['=', '>'].map code <:+: rs := by
  unfold Form.arrow? at h
  split at h
  · obtain ⟨⟨params, after⟩, henc, hf⟩ := Option.bind_eq_some_iff.mp h
    obtain ⟨c, -, rfl⟩ := eq_of_enclosed henc
    refine (isInfix_of_bracketedArrow? hf).trans ((List.dropWhile_suffix _).isInfix.trans ?_)
    exact ⟨code '(' :: (params ++ [code c]), [], by simp⟩
  · unfold Form.nameArrow? at h
    split at h
    · exact absurd h (by simp)
    · next hcut => exact isInfix_of_cutAtFirst hcut

/-- The form of a function with a result type. -/
def typedForm? (params annotated : List Run) : Option (Form (List Run)) :=
  match Run.cutAtFirst ['=', '>'] annotated with
  | none => none
  | some (result, body) =>
    let result := Run.join (Run.trim result)
    if result.isEmpty then none
    else
      let params := (Run.splitAtCommas params).map Form.ofParameter
      Form.arrowTo? (params.map Prod.fst) (some ⟨params.map Prod.snd, result⟩) body

/-- What a bracket in front encloses, if nothing but blanks follows. -/
def enclosedLast? (rest : List Run) : Option (List Run) :=
  (enclosed rest).bind fun p => if Form.isBlankCode p.2 then some p.1 else none

theorem eq_of_enclosedLast? {rest args : List Run} (h : enclosedLast? rest = some args) :
    ∃ after c, rest = args ++ code c :: after := by
  obtain ⟨⟨inner, after⟩, henc, hlast⟩ := Option.bind_eq_some_iff.mp h
  obtain ⟨c, -, hrest⟩ := eq_of_enclosed henc
  split at hlast
  · exact ⟨after, c, by rw [hrest, ← Option.some.inj hlast]⟩
  · exact absurd hlast (by simp)

theorem enclosedLast?_of_append_blanks {rs : List Run} {s g : Text} (h : Stable rs)
    (hjoin : join rs = s ++ g) (hg : Text.IsBlanks g) : enclosedLast? (runs s) = enclosedLast? rs := by
  have heq (q : List Run) : enclosedLast? q =
      ((enclosed q).map fun p => (p.1, Form.isBlankCode p.2)).bind fun p =>
        if p.2 then some p.1 else none := by
    rw [Option.bind_map]
    rfl
  rw [heq, heq, enclosed, enclosed, enclosedFrom_of_append_blanks h hjoin hg]

/-- The form of a generic, given what stands behind its type arguments. -/
def genericForm? (name : Text) (types : List Run) : List Run → Option (Form (List Run))
  | [] => some (.generic name (Run.splitAtCommas types))
  | r :: rest =>
    if r.isChar '(' then
      (enclosedLast? rest).map fun args =>
        .genericCall name (Run.splitAtCommas types) (Run.splitAtCommas args)
    else none

theorem generic?_eq_genericForm? {name rest types after : List Run}
    (h : enclosed rest = some (types, after)) :
    Form.generic? name rest =
      if Form.isCallee (Text.trim (join name)) then
        genericForm? (Text.trim (join name)) types (Form.dropBlanks after)
      else none := by
  rw [Form.generic?, h]
  dsimp only
  generalize Form.dropBlanks after = q
  split
  · split
    · rfl
    · next rest =>
        rw [genericForm?, if_pos (by rw [isChar, beq_iff_eq]), enclosedLast?]
        cases enclosed rest with
        | none => rfl
        | some enclosing =>
            obtain ⟨args, after⟩ := enclosing
            dsimp only [Option.bind_some]
            split <;> rfl
    · next hnil hparen =>
        obtain ⟨r, rest, rfl⟩ := List.exists_cons_of_ne_nil hnil
        have hr : ¬r.isChar '(' = true := by
          rw [isChar, beq_iff_eq]
          exact fun hr => hparen rest (by rw [hr])
        rw [genericForm?, if_neg hr]
  · rfl

end Forms

/-! ## What the reader comes to -/

theorem orElse?_some (found other : Option Element) :
    orElse? (some found) (some other) = some (found.or other) := by
  cases found <;> rfl

section Reads

variable {count : Int → Int} {read : Text → Option Element} {t : Text} (hcount : Keeps count t.depth)
  (hread : ReadsShorter read t)

include hread

theorem read_join {p : List Run} (hp : IsPart t p) : read (join p) = some (Element.ofRuns p) := by
  rw [hread _ (size_join_lt hp.isInfix hp.length_lt) (Text.depth_join_le hp.isInfix), parseElement,
    hp.runs_join]

/-- What stands behind an arrow is read as a block or like the whole. -/
theorem arrowTo?_eq (params : List (List Run)) (types : Option ArrowTypes) {body : List Run}
    (hbody : IsPart t body) :
    arrowTo? read (params.map Element.ofRuns) types (join body) =
      some ((Form.arrowTo? params types body).map (Element.ofForm Element.ofRuns)) := by
  have htrim : IsPart t (trim body) := hbody.mono (isInfix_trim body)
  rw [arrowTo?, trimmed?_join hbody, Option.bind_some, Form.arrowTo?]
  cases hrs : trim body with
  | nil => rfl
  | cons r rs =>
      rw [hrs] at htrim
      have hne : (join (r :: rs)).isEmpty = false := by
        rw [List.isEmpty_eq_false_iff]
        exact fun hnil => List.cons_ne_nil r rs ((join_eq_nil_iff htrim.isInfix).mp hnil)
      have hhead := head?_join_eq_iff (c := '\x7b') (by decide) htrim.stable
      rw [hne, if_neg Bool.false_ne_true]
      by_cases hblock : r = code '\x7b'
      · rw [if_pos (hhead.mpr (congrArg some hblock)), Option.map_some,
          if_pos (by rw [isChar, hblock, beq_iff_eq])]
        rfl
      · rw [if_neg fun hb => hblock (Option.some.inj (hhead.mp hb)), read_join hread htrim,
            Option.map_some]
        dsimp only
        rw [if_neg (by rwa [isChar, beq_iff_eq])]
        rfl

include hcount

theorem elements?_eq {p : List Run} (hp : IsPart t p) :
    elements? count read (join p) = some ((Run.splitAtCommas p).map Element.ofRuns) := by
  rw [elements?, split?_eq (hp.keeps hcount), splitAtCommas, hp.runs_join, Option.bind_some, List.mapM_map]
  exact mapM_eq_some fun q hq => read_join hread (hp.mono (isInfix_of_mem_splitAtCommas hq))

/-- A property is read as its key and its value, or as itself. -/
theorem property?_eq {p : List Run} (hp : IsPart t p) :
    property? count read (join p) = some ((Form.ofProperty p).1,
      ((Form.ofProperty p).2.map Element.ofRuns).getD (.leaf (Form.ofProperty p).1)) := by
  obtain ⟨colons, hfound, hhead, -⟩ := found?_eq (hp.keeps hcount) [':'] (by decide) (by decide)
  rw [hp.runs_join] at hhead
  rw [property?, isPrefixOf?_join (by decide) hp.stable, Option.isSome_map, Form.ofProperty]
  by_cases hdots : (dropCode? ['.', '.', '.'] p).isSome = true
  · rw [if_pos hdots, if_pos hdots]
    rfl
  · rw [if_neg hdots, if_neg hdots, hfound, Option.bind_some, hhead]
    cases hcut : Run.cutAtFirst [':'] p with
    | none => rfl
    | some cut =>
        obtain ⟨key, value⟩ := cut
        have heq := eq_of_cutAtFirst hcut
        obtain ⟨hkey, hvalue⟩ := between?_cut heq
        obtain ⟨hkeyPart, hvaluePart⟩ := isInfix_of_cut heq
        show (between? (join p) 0 (Text.size (join key))).bind _ = _
        rw [hkey, Option.bind_some, trimmed?_join (hp.mono hkeyPart), Option.bind_some]
        show (between? (join p) (Text.size (join key) + Text.size [':']) (Text.size (join p))).bind _ = _
        rw [hvalue, Option.bind_some, read_join hread (hp.mono hvaluePart)]
        rfl

theorem object?_eq :
    object? count read t = some ((Form.object? (runs t)).map (Element.ofForm Element.ofRuns)) := by
  rw [object?, wrapped?_eq hcount rfl, Option.bind_some, Form.object?]
  cases hw : Run.wrapped '\x7b' (runs t) with
  | none => rfl
  | some inner =>
      have hpart := isPart_of_wrapped hw
      have hproperties := mapM_eq_some (l := Run.splitAtCommas inner) (f := property? count read ∘ join)
        fun p hp => property?_eq hcount hread (hpart.mono (isInfix_of_mem_splitAtCommas hp))
      show (between? t 1 (Text.size t - 1)).bind _ = _
      rw [between?_of_wrapped rfl hw, Option.bind_some, split?_eq (hpart.keeps hcount),
        splitAtCommas, hpart.runs_join,
        Option.bind_some, List.mapM_map, hproperties]
      show _ = some (some (Element.ofProperties _))
      rw [List.map_map]
      rfl

theorem array?_eq :
    array? count read t = some ((Form.array? (runs t)).map (Element.ofForm Element.ofRuns)) := by
  rw [array?, wrapped?_eq hcount rfl, Option.bind_some, Form.array?]
  cases hw : Run.wrapped '[' (runs t) with
  | none => rfl
  | some inner =>
      show (between? t 1 (Text.size t - 1)).bind _ = _
      rw [between?_of_wrapped rfl hw, Option.bind_some, elements?_eq hcount hread (isPart_of_wrapped hw)]
      rfl

theorem assertion?_eq :
    assertion? count read t = some ((Form.assertion? (runs t)).map (Element.ofForm Element.ofRuns)) := by
  obtain ⟨words, hfound, -, hlast⟩ := found?_eq hcount [' ', 'a', 's', ' '] (by decide) (by decide)
  rw [assertion?, hfound, Option.bind_some, hlast, Form.assertion?]
  cases hcut : Run.cutAtLast [' ', 'a', 's', ' '] (runs t) with
  | none => rfl
  | some cut =>
      obtain ⟨expr, target⟩ := cut
      have heq := eq_of_cutAtLast hcut
      obtain ⟨hexpr, htarget⟩ := between?_cut heq
      rw [join_runs] at hexpr htarget
      have hexprPart : IsPart t expr := .of_eq (a := []) heq (by simp)
      have htargetPart : IsPart t target := by
        refine .of_eq (a := expr ++ [' ', 'a', 's', ' '].map code) (b := []) ?_ (by simp)
        rw [heq]
        simp
      show (between? t 0 (Text.size (join expr))).bind _ = _
      rw [hexpr, Option.bind_some]
      show (between? t (Text.size (join expr) + Text.size [' ', 'a', 's', ' ']) (Text.size t)).bind _ = _
      rw [htarget, Option.bind_some, trimmed?_join htargetPart, Option.bind_some]
      show (if Form.isBlankCode expr || (join (trim target)).isEmpty then _ else _) = _
      dsimp only
      split
      · rfl
      · rw [read_join hread hexprPart]
        rfl

/-- A parameter is read as its name and its annotation. -/
theorem parameter?_eq {p : List Run} (hp : IsPart t p) :
    parameter? count read (join p) =
      some (Element.ofRuns (Form.ofParameter p).1, (Form.ofParameter p).2) := by
  obtain ⟨colons, hfound, hhead, -⟩ := found?_eq (hp.keeps hcount) [':'] (by decide) (by decide)
  rw [hp.runs_join] at hhead
  rw [parameter?, hfound, Option.bind_some, hhead, Form.ofParameter]
  cases hcut : Run.cutAtFirst [':'] p with
  | none =>
      show (read (join p)).map _ = _
      rw [read_join hread hp]
      rfl
  | some cut =>
      obtain ⟨name, annotation⟩ := cut
      have heq := eq_of_cutAtFirst hcut
      obtain ⟨hname, htype⟩ := between?_cut heq
      obtain ⟨hnamePart, htypePart⟩ := isInfix_of_cut heq
      show (between? (join p) 0 (Text.size (join name))).bind _ = _
      rw [hname, Option.bind_some, read_join hread (hp.mono hnamePart), Option.bind_some]
      show (between? (join p) (Text.size (join name) + Text.size [':']) (Text.size (join p))).bind _ = _
      rw [htype, Option.bind_some, trimmed?_join (hp.mono htypePart)]
      rfl

theorem typedArrow?_eq {params annotated : List Run} (hparams : IsPart t params)
    (hannotated : IsPart t annotated) :
    typedArrow? count read (join params) (join annotated) =
      some ((typedForm? params annotated).map (Element.ofForm Element.ofRuns)) := by
  obtain ⟨arrows, hfound, hhead, -⟩ := found?_eq (hannotated.keeps hcount) ['=', '>'] (by decide) (by decide)
  rw [hannotated.runs_join] at hhead
  rw [typedArrow?, hfound, Option.bind_some, hhead, typedForm?]
  cases hcut : Run.cutAtFirst ['=', '>'] annotated with
  | none => rfl
  | some cut =>
      obtain ⟨result, body⟩ := cut
      have heq := eq_of_cutAtFirst hcut
      obtain ⟨hresult, hbody⟩ := between?_cut heq
      obtain ⟨hresultPart, hbodyPart⟩ := isInfix_of_cut heq
      show (between? (join annotated) 0 (Text.size (join result))).bind _ = _
      rw [hresult, Option.bind_some, trimmed?_join (hannotated.mono hresultPart), Option.bind_some]
      dsimp only
      split
      · rfl
      · have hnames := mapM_eq_some (l := Run.splitAtCommas params) (f := parameter? count read ∘ join)
          fun p hp => parameter?_eq hcount hread (hparams.mono (isInfix_of_mem_splitAtCommas hp))
        rw [split?_eq (hparams.keeps hcount), splitAtCommas, hparams.runs_join, Option.bind_some,
          List.mapM_map, hnames, Option.bind_some]
        show (between? (join annotated) (Text.size (join result) + Text.size ['=', '>'])
          (Text.size (join annotated))).bind _ = _
        rw [hbody, Option.bind_some, ← arrowTo?_eq hread _ _ (hannotated.mono hbodyPart)]
        simp only [List.map_map]
        rfl

theorem bracketedArrow?_eq {rest : List Run} (h : runs t = code '(' :: rest) :
    bracketedArrow? count read t = some (((enclosed rest).bind fun p => Form.bracketedArrow? p.1 p.2).map
      (Element.ofForm Element.ofRuns)) := by
  have hclosing : closing? count t 0 = some ((enclosed rest).map fun p => 0 + 1 + Text.size (join p.1)) :=
    (closing?_eq hcount (a := []) h rfl).trans (congrArg some (closingOffset_eq (a := []) h rfl))
  rw [bracketedArrow?, hclosing, Option.bind_some]
  cases henc : enclosed rest with
  | none => rfl
  | some enclosing =>
      obtain ⟨params, after⟩ := enclosing
      obtain ⟨c, hc, rfl⟩ := eq_of_enclosed henc
      obtain ⟨hinner, hafter⟩ := between?_enclosed (a := []) h rfl hc
      rw [join_nil, Text.size_nil] at hinner hafter
      obtain ⟨hparams, hafterPart⟩ := IsPart.of_enclosed (a := []) h
      have hdrop := hafterPart.dropBlanks
      show (between? t (0 + 1) (0 + 1 + Text.size (join params))).bind _ = _
      rw [hinner, Option.bind_some]
      show (between? t (0 + 1 + Text.size (join params) + 1) (Text.size t)).bind _ = _
      rw [hafter, Option.bind_some, trimStart_join hafterPart.stable,
        isPrefixOf?_join (by decide) hdrop.stable, isPrefixOf?_join (by decide) hdrop.stable]
      show _ = some ((Form.bracketedArrow? params after).map _)
      rw [Form.bracketedArrow?]
      dsimp only
      cases hbody : dropCode? ['=', '>'] (Form.dropBlanks after) with
      | some body =>
          show (elements? count read (join params)).bind _ = _
          rw [elements?_eq hcount hread hparams, Option.bind_some]
          exact arrowTo?_eq hread _ _ (hdrop.of_dropCode? hbody)
      | none =>
          cases hcolon : dropCode? [':'] (Form.dropBlanks after) with
          | none => rfl
          | some annotated => exact typedArrow?_eq hcount hread hparams (hdrop.of_dropCode? hcolon)

theorem nameArrow?_eq :
    nameArrow? count read t = some ((Form.nameArrow? (runs t)).map (Element.ofForm Element.ofRuns)) := by
  obtain ⟨arrows, hfound, hhead, -⟩ := found?_eq hcount ['=', '>'] (by decide) (by decide)
  rw [nameArrow?, hfound, Option.bind_some, hhead, Form.nameArrow?]
  cases hcut : Run.cutAtFirst ['=', '>'] (runs t) with
  | none => rfl
  | some cut =>
      obtain ⟨param, body⟩ := cut
      have heq := eq_of_cutAtFirst hcut
      obtain ⟨hparam, hbody⟩ := between?_cut heq
      rw [join_runs] at hparam hbody
      have hparamPart : IsPart t param := .of_eq (a := []) heq (by simp)
      have hbodyPart : IsPart t body := by
        refine .of_eq (a := param ++ ['=', '>'].map code) (b := []) ?_ (by simp)
        rw [heq]
        simp
      show (between? t 0 (Text.size (join param))).bind _ = _
      rw [hparam, Option.bind_some]
      dsimp only
      split
      · next hname =>
          show (between? t (Text.size (join param) + Text.size ['=', '>']) (Text.size t)).bind _ = _
          rw [hbody, Option.bind_some, ← arrowTo?_eq hread _ _ hbodyPart, List.map_singleton,
            ofRuns_of_isIdentifier hparamPart.stable hname]
      · rfl

theorem arrow?_eq :
    arrow? count read t = some ((Form.arrow? (runs t)).map (Element.ofForm Element.ofRuns)) := by
  rw [arrow?]
  split
  · have hhead := head?_join_eq_iff (c := '(') (by decide) (Run.stable_runs t)
    rw [join_runs] at hhead
    split
    · next hparen =>
        obtain ⟨rest, hruns⟩ := List.head?_eq_some_iff.mp (hhead.mp hparen)
        rw [bracketedArrow?_eq hcount hread hruns, hruns]
        rfl
    · next hparen =>
        rw [nameArrow?_eq hcount hread, Form.arrow?]
        exact fun rest hruns => hparen (hhead.mpr (by rw [hruns]; rfl))
  · next hnone =>
      cases hf : Form.arrow? (runs t) with
      | none => rfl
      | some f =>
          obtain ⟨a, b, hruns⟩ := isInfix_of_arrow? hf
          refine absurd ⟨join a, join b, ?_⟩ hnone
          rw [← join_runs t, ← hruns, join_append, join_append, Run.join_map_code]

/-- Arguments in parentheses, which may stand in what is left of the text. -/
theorem listed?_eq {u : Text} (hu : u.depth ≤ t.depth) {a rest : List Run}
    (h : runs u = a ++ code '(' :: rest) (hargs : ∀ args, enclosedLast? rest = some args → IsPart t args) :
    listed? count read u (Text.size (join a)) =
      some ((enclosedLast? rest).map fun args => (Run.splitAtCommas args).map Element.ofRuns) := by
  rw [listed?, closing?_eq (hcount.mono hu) h rfl, closingOffset_eq h rfl, Option.bind_some]
  cases henc : enclosed rest with
  | none =>
      rw [enclosedLast?, henc]
      rfl
  | some enclosing =>
      obtain ⟨args, after⟩ := enclosing
      obtain ⟨c, hc, rfl⟩ := eq_of_enclosed henc
      obtain ⟨hinner, hafter⟩ := between?_enclosed h rfl hc
      have hlast : enclosedLast? (args ++ code c :: after) =
          if Form.isBlankCode after then some args else none := by
        rw [enclosedLast?, henc]
        rfl
      dsimp only [Option.map_some]
      rw [hafter, Option.bind_some, hlast]
      show (if Form.isBlankCode after then _ else _) = _
      split
      · next hblank =>
          rw [hinner, Option.bind_some, elements?_eq hcount hread (hargs args (by rw [hlast, if_pos hblank]))]
          rfl
      · rfl

theorem call?_eq {name rest : List Run} (h : runs t = name ++ code '(' :: rest) :
    call? count read t (Text.size (join name)) =
      some ((Form.call? name rest).map (Element.ofForm Element.ofRuns)) := by
  have hargs (args : List Run) (hlast : enclosedLast? rest = some args) : IsPart t args := by
    obtain ⟨after, c, rfl⟩ := eq_of_enclosedLast? hlast
    exact (IsPart.of_enclosed h).1
  rw [call?, between?_upTo h, Option.bind_some, Form.call?]
  split
  · rw [listed?_eq hcount hread (Nat.le_refl _) h hargs, enclosedLast?]
    cases enclosed rest with
    | none => rfl
    | some enclosing =>
        obtain ⟨args, after⟩ := enclosing
        dsimp only [Option.bind_some]
        split <;> rfl
  · rfl

/-- What stands behind type arguments is trimmed as a text, and scanned again. -/
theorem genericTo?_eq (name : Text) (types : List Run) {after : List Run} (hafter : IsPart t after) :
    genericTo? count read name ((Run.splitAtCommas types).map Element.ofRuns) (Text.trim (join after)) =
      some ((genericForm? name types (Form.dropBlanks after)).map (Element.ofForm Element.ofRuns)) := by
  have hdrop := hafter.dropBlanks
  have hfirst := List.head?_dropWhile_not (fun r : Run => Text.isAllBlank r.text) after
  rw [← Form.dropBlanks] at hfirst
  obtain ⟨g, hg, htrim⟩ := Text.exists_eq_append_trimEnd (join (Form.dropBlanks after))
  rw [Text.trim, trimStart_join hafter.stable]
  generalize Text.trimEnd (join (Form.dropBlanks after)) = u at htrim ⊢
  cases hq : Form.dropBlanks after with
  | nil =>
      rw [hq] at htrim
      rw [(List.append_eq_nil_iff.mp htrim.symm).1]
      rfl
  | cons r rest =>
      rw [hq] at hdrop htrim hfirst
      have hrest : IsPart t rest := hdrop.mono (List.suffix_cons r rest).isInfix
      have hhead := head?_join_eq_iff (c := '(') (by decide) hdrop.stable
      cases u with
      | nil =>
          -- then the first run would be blank
          have hblank : Text.isAllBlank r.text = true := by
            refine List.all_eq_true.mpr fun c hc => hg c ?_
            rw [← List.nil_append g, ← htrim, join_cons]
            exact List.mem_append_left _ hc
          rw [List.head?_cons] at hfirst
          exact absurd hblank (by rw [hfirst]; exact Bool.false_ne_true)
      | cons x s =>
          rw [htrim, List.cons_append, List.head?_cons, List.head?_cons, Option.some_inj,
            Option.some_inj] at hhead
          rw [genericTo?, if_neg (by simp), List.head?_cons, genericForm?]
          by_cases hr : r = code '('
          · obtain rfl := hhead.mpr hr
            subst hr
            obtain ⟨-, hbehind⟩ := List.cons.inj htrim
            have hargs : enclosedLast? (runs s) = enclosedLast? rest :=
              enclosedLast?_of_append_blanks hrest.stable hbehind hg
            have hruns : runs ('(' :: s) = [] ++ code '(' :: runs s :=
              Text.runs_cons_of_isPlain (by decide) s
            have hdepth : Text.depth ('(' :: s) ≤ t.depth := by
              have hinner := deepest_runs_le_of_append_blanks hrest.stable hbehind hg
                (outermost.behind (code '('))
              have hwhole := Text.depth_join_le hdrop.isInfix
              rw [Text.depth_join hdrop.stable, deepest] at hwhole
              rw [Text.depth, hruns, List.nil_append, deepest]
              omega
            have hlisted := listed?_eq hcount hread hdepth hruns fun args hlast => by
              rw [hargs] at hlast
              obtain ⟨behind, c, rfl⟩ := eq_of_enclosedLast? hlast
              exact hrest.mono (List.prefix_append _ _).isInfix
            rw [if_pos rfl, if_pos (by rw [isChar, beq_iff_eq]), ← hargs]
            show (listed? count read ('(' :: s) (Text.size (join []))).map _ = _
            rw [hlisted]
            cases enclosedLast? (runs s) <;> rfl
          · rw [if_neg fun hx => hr (hhead.mp (Option.some.inj hx)),
              if_neg (by rwa [isChar, beq_iff_eq])]
            rfl

theorem generic?_eq {name rest : List Run} (h : runs t = name ++ code '<' :: rest) :
    generic? count read t (Text.size (join name)) =
      some ((Form.generic? name rest).map (Element.ofForm Element.ofRuns)) := by
  rw [generic?, between?_upTo h, Option.bind_some, closing?_eq hcount h rfl, closingOffset_eq h rfl,
    Option.bind_some]
  cases henc : enclosed rest with
  | none =>
      rw [Form.generic?, henc]
      dsimp only
      split <;> rfl
  | some enclosing =>
      obtain ⟨types, after⟩ := enclosing
      rw [generic?_eq_genericForm? henc]
      obtain ⟨c, hc, rfl⟩ := eq_of_enclosed henc
      obtain ⟨hinner, hafter⟩ := between?_enclosed h rfl hc
      obtain ⟨htypes, hafterPart⟩ := IsPart.of_enclosed h
      split
      · dsimp only [Option.map_some]
        rw [hinner, Option.bind_some, elements?_eq hcount hread htypes, Option.bind_some, hafter,
          Option.bind_some]
        exact genericTo?_eq hcount hread _ types hafterPart
      · rfl

theorem applied?_eq :
    applied? count read t = some ((Form.applied? (runs t)).map (Element.ofForm Element.ofRuns)) := by
  rw [applied?]
  split
  · rw [firstCode?_eq, firstCode?_eq, Option.bind_some, Option.bind_some, Form.applied?]
    cases hangle : Run.cutAtChar '<' (runs t) with
    | none =>
        cases hparen : Run.cutAtChar '(' (runs t) with
        | none => rfl
        | some call => exact call?_eq hcount hread (eq_of_cutAtChar hparen)
    | some generic =>
        have hgeneric := eq_of_cutAtChar hangle
        cases hparen : Run.cutAtChar '(' (runs t) with
        | none => exact generic?_eq hcount hread hgeneric
        | some call =>
            have hcall := eq_of_cutAtChar hparen
            -- which bracket comes first is the same by bytes and by runs
            have hlt := size_join_lt_iff ⟨_, hgeneric.symm⟩ ⟨_, hcall.symm⟩
            dsimp only [Option.map_some]
            by_cases hfirst : generic.1.length < call.1.length
            · rw [if_pos hfirst, if_pos (hlt.mpr hfirst)]
              exact generic?_eq hcount hread hgeneric
            · rw [if_neg hfirst, if_neg (hlt.not.mpr hfirst)]
              exact call?_eq hcount hread hcall
  · next hneither =>
      have hnone {c : Char} (hc : t.contains c = false) : Run.cutAtChar c (runs t) = none := by
        refine cutAtChar_of_not_mem fun hmem => ?_
        obtain ⟨a, b, hruns⟩ := List.append_of_mem hmem
        have ht : t = join a ++ c :: join b := eq_join_append hruns
        rw [ht] at hc
        simp at hc
      rw [Bool.not_eq_true, Bool.or_eq_false_iff] at hneither
      rw [Form.applied?, hnone hneither.1, hnone hneither.2]
      rfl

/-- **Reading by offset** comes to what the reader of runs does, if it does so for all parts. -/
theorem layer?_eq : layer? count read t = some (parseElement t) := by
  have htrim : trim (runs t) <:+: runs t := isInfix_trim (runs t)
  have hruns : runs (trimTrivia t) = trim (runs t) := (Run.stable_runs t).of_isInfix htrim
  have hdepth : Text.depth (trimTrivia t) ≤ t.depth := Text.depth_join_le htrim
  have hshorter : ReadsShorter (onlyShorter read (trimTrivia t)) (trimTrivia t) := by
    intro part hpart hdeep
    rw [onlyShorter, if_pos hpart]
    exact hread part (Nat.lt_of_lt_of_le hpart (size_join_le htrim)) (hdeep.trans hdepth)
  have hkeeps := hcount.mono hdepth
  rw [layer?, trimmed?_eq, Option.bind_some, object?_eq hkeeps hshorter, assertion?_eq hkeeps hshorter,
    array?_eq hkeeps hshorter, arrow?_eq hkeeps hshorter, applied?_eq hkeeps hshorter, orElse?_some,
    orElse?_some, orElse?_some, orElse?_some, hruns, ← Option.map_or, ← Option.map_or, ← Option.map_or,
    ← Option.map_or, Option.map_some, parseElement, Element.ofRuns_eq, Form.of]
  exact congrArg some
    (Option.getD_map (Element.ofForm Element.ofRuns) (Form.leaf (join (trim (runs t)))) _)

end Reads

/-! ## Texts of every length -/

theorem element?_eq {count : Int → Int} {n : Nat} {t : Text} (hcount : Keeps count t.depth)
    (h : Text.size t ≤ n) : element? count n t = some (parseElement t) := by
  induction n generalizing t with
  | zero => exact layer?_eq hcount fun part hpart _ => absurd hpart (by omega)
  | succ n ih => exact layer?_eq hcount fun part hpart hdeep => ih (hcount.mono hdeep) (by omega)

theorem arguments?_eq {count : Int → Int} {t : Text} (hcount : Keeps count t.depth) :
    arguments? count (Text.size t) t = some (parseArguments t) := by
  rw [arguments?, elements?, split?_eq hcount, splitAtCommas, Option.bind_some, List.mapM_map]
  refine mapM_eq_some fun p hp => ?_
  have hpart := isInfix_of_mem_splitAtCommas hp
  show element? count _ (join p) = _
  rw [element?_eq (hcount.mono (Text.depth_join_le hpart)) (size_join_le hpart), parseElement,
    (Run.stable_runs t).of_isInfix hpart]

/-- **Reading by offset never stops early.** Each cut is in order, within the text and between its
characters; each part is shorter than what it is a part of; and so there are parts of parts at most as
deeply as the text is long. What is read with brackets counted in words of 32 bits is the same for every
text in which fewer than `2 ^ 31` of them are open at once. -/
theorem arguments?_eq_parseArguments (t : Text) :
    arguments? id (Text.size t) t = some (parseArguments t) ∧
      (t.depth < 2 ^ 31 → arguments? int32 (Text.size t) t = some (parseArguments t)) ∧
      ∀ p ∈ (Form.of (runs t)).parts,
        Text.size (join p) < Text.size t ∧ ∃ a b, between? t a b = some (join p) := by
  refine ⟨arguments?_eq (keeps_id _), fun hdeep => arguments?_eq (keeps_int32 hdeep), fun p hp => ?_⟩
  obtain ⟨a, b, hruns⟩ := Form.isInfix_of_mem_parts hp
  rw [List.append_assoc] at hruns
  have hsize := size_join_lt (Form.isInfix_of_mem_parts hp) (Form.length_of_mem_parts hp)
  exact ⟨hsize, _, _, between?_runs hruns.symm⟩

end ByOffset

end ScriptSurvey
