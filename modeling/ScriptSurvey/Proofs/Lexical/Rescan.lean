import Mathlib.Data.List.TakeWhile
import ScriptSurvey.Proofs.Lexical.Automaton

/-!
# Parts of a text scanned again

A reader cuts a text into parts and writes them down again with something else between them. The
parts are found again, run by run, if

* no string and no comment in them is without its end;
* no part ends in a line comment, which would take in what is written behind it;
* nothing behind a part begins with `/` or `*`, which a `/` at its end would make a comment of.

Runs that are scanned as themselves are called **stable**. The runs of a text are stable, and so is
each part of them. A text whose runs have their ends and that ends in no line comment is
**settled**.
-/

namespace ScriptSurvey

/-! ## Less behind a run -/

namespace Body

/-- A block comment is found again when less follows it. -/
theorem ofBlock_of_prefix (t : Text) {u : Text} (hu : u <+: (ofBlock t).rest) :
    (ofBlock ((ofBlock t).text ++ u)).text = (ofBlock t).text ∧
      (ofBlock ((ofBlock t).text ++ u)).rest = u := by
  fun_induction ofBlock t with
  | case1 =>
      rw [List.prefix_nil.mp hu]
      exact ⟨rfl, rfl⟩
  | case2 t => exact ⟨rfl, rfl⟩
  | case3 c t hne ih =>
      obtain ⟨htext, hrest⟩ := ih hu
      -- what is kept begins as the comment did
      have hopen : ∀ v : Text, c = '*' → (ofBlock t).text ++ u = '/' :: v → False := by
        intro v hc hv
        have hfront : (ofBlock t).text ++ u <+: t := by
          have := (List.prefix_append_right_inj (ofBlock t).text).mpr hu
          rwa [show (push c (ofBlock t)).rest = (ofBlock t).rest from rfl, ofBlock_append] at this
        obtain ⟨w, hw⟩ := hfront
        rw [hv, List.cons_append] at hw
        exact hne (v ++ w) hc hw.symm
      show (ofBlock (c :: ((ofBlock t).text ++ u))).text = _ ∧
        (ofBlock (c :: ((ofBlock t).text ++ u))).rest = u
      rw [ofBlock.eq_3 c _ hopen]
      exact ⟨congrArg (c :: ·) htext, hrest⟩

/-- A string is found again in front of another text, if that ends it as the rest did: at the end of
the text, or at a line feed. At the end of the text a string is open. -/
theorem ofLiteral_again (kind : LiteralKind) (t : Text) {u : Text}
    (hnil : (ofLiteral kind t).rest = [] → u = [])
    (hline : (ofLiteral kind t).rest.head? = some '\n' → u = [] ∨ u.head? = some '\n') :
    (ofLiteral kind ((ofLiteral kind t).text ++ u)).text = (ofLiteral kind t).text ∧
      (ofLiteral kind ((ofLiteral kind t).text ++ u)).rest = u ∧
      ((u = [] → (ofLiteral kind t).rest = []) →
        (ofLiteral kind ((ofLiteral kind t).text ++ u)).closed = (ofLiteral kind t).closed) := by
  -- along the scan of the string, up to what ends it
  induction t using literal_induction kind with
  | nil =>
      rw [hnil rfl]
      exact ⟨rfl, rfl, fun _ => rfl⟩
  | lone =>
      rw [hnil rfl]
      exact ⟨rfl, rfl, fun _ => rfl⟩
  | escape c t ih =>
      rw [ofLiteral_escape] at hnil hline ⊢
      obtain ⟨htext, hrest, hclosed⟩ := ih hnil hline
      show (ofLiteral kind ('\\' :: c :: ((ofLiteral kind t).text ++ u))).text = _ ∧
        (ofLiteral kind ('\\' :: c :: ((ofLiteral kind t).text ++ u))).rest = u ∧
        (_ → (ofLiteral kind ('\\' :: c :: ((ofLiteral kind t).text ++ u))).closed = _)
      rw [ofLiteral_escape]
      exact ⟨congrArg ('\\' :: c :: ·) htext, hrest, hclosed⟩
  | delimiter t =>
      rw [ofLiteral_delimiter]
      show (ofLiteral kind (kind.delimiter :: u)).text = _ ∧
        (ofLiteral kind (kind.delimiter :: u)).rest = u ∧
        (_ → (ofLiteral kind (kind.delimiter :: u)).closed = _)
      rw [ofLiteral_delimiter]
      exact ⟨rfl, rfl, fun _ => rfl⟩
  | lineFeed t hk =>
      rw [ofLiteral_lineFeed hk] at hline ⊢
      rcases hline rfl with rfl | hu
      · exact ⟨rfl, rfl, fun h => absurd (h rfl) (List.cons_ne_nil _ _)⟩
      · obtain ⟨v, rfl⟩ := List.head?_eq_some_iff.mp hu
        show (ofLiteral kind ('\n' :: v)).text = _ ∧ (ofLiteral kind ('\n' :: v)).rest = _ ∧
          (_ → (ofLiteral kind ('\n' :: v)).closed = _)
        rw [ofLiteral_lineFeed hk]
        exact ⟨rfl, rfl, fun _ => rfl⟩
  | inside c t hc hd hn ih =>
      rw [ofLiteral_inside hc hd hn] at hnil hline ⊢
      obtain ⟨htext, hrest, hclosed⟩ := ih hnil hline
      show (ofLiteral kind (c :: ((ofLiteral kind t).text ++ u))).text = _ ∧
        (ofLiteral kind (c :: ((ofLiteral kind t).text ++ u))).rest = u ∧
        (_ → (ofLiteral kind (c :: ((ofLiteral kind t).text ++ u))).closed = _)
      rw [ofLiteral_inside hc hd hn]
      exact ⟨congrArg (c :: ·) htext, hrest, hclosed⟩

/-- A string is found again when less follows it, also one that a line feed has ended. -/
theorem ofLiteral_of_prefix (kind : LiteralKind) (t : Text) {u : Text}
    (hu : u <+: (ofLiteral kind t).rest) :
    (ofLiteral kind ((ofLiteral kind t).text ++ u)).text = (ofLiteral kind t).text ∧
      (ofLiteral kind ((ofLiteral kind t).text ++ u)).rest = u := by
  obtain ⟨v, hv⟩ := hu
  have hagain := ofLiteral_again kind t (u := u) (fun hnil => ?_) (fun hline => ?_)
  · exact ⟨hagain.1, hagain.2.1⟩
  · exact (List.append_eq_nil_iff.mp (hv.trans hnil)).1
  · rw [← hv] at hline
    cases u with
    | nil => exact .inl rfl
    | cons d u => exact .inr hline

end Body

/-- The first run of a text is found again when less follows it. -/
theorem Step.exists_first_of_prefix (c : Char) (t : Text) {u : Text}
    (hu : u <+: (first c t).rest) :
    ∃ d v, (first c t).run.text ++ u = d :: v ∧ (first d v).run = (first c t).run ∧
      (first d v).rest = u := by
  have hs := isFirst c t
  generalize first c t = s at hs hu ⊢
  cases hs with
  | line t =>
      refine ⟨'/', '/' :: (t.takeWhile (· != '\n') ++ u), rfl, ?_⟩
      have hline : ∀ x ∈ t.takeWhile (· != '\n'), (x != '\n') = true :=
        List.all_eq_true.mp List.all_takeWhile
      -- what follows a line comment is nothing or a line feed, so the comment gets no longer
      have hend : u.takeWhile (· != '\n') = [] := by
        cases u with
        | nil => rfl
        | cons d u =>
            obtain ⟨w, hw⟩ : d :: u <+: t.dropWhile (· != '\n') := hu
            have hnot := List.head_dropWhile_not (· != '\n') (l := t) (by rw [← hw]; simp)
            simp only [← hw, List.cons_append, List.head_cons] at hnot
            exact List.takeWhile_cons_of_neg (by rw [hnot]; exact Bool.false_ne_true)
      have hrest : u.dropWhile (· != '\n') = u := by
        have := List.takeWhile_append_dropWhile (p := (· != '\n')) (l := u)
        rwa [hend] at this
      simp only [first, List.takeWhile_append_of_pos hline, List.dropWhile_append_of_pos hline,
        hend, hrest, List.append_nil]
      exact ⟨trivial, trivial⟩
  | block t =>
      obtain ⟨htext, hrest⟩ := Body.ofBlock_of_prefix t hu
      exact ⟨'/', '*' :: ((Body.ofBlock t).text ++ u), rfl,
        congrArg (fun x => Run.comment .block ('/' :: '*' :: x)) htext, hrest⟩
  | literal kind t =>
      obtain ⟨htext, hrest⟩ := Body.ofLiteral_of_prefix kind t hu
      refine ⟨kind.delimiter, (Body.ofLiteral kind t).text ++ u, rfl, ?_⟩
      rw [Text.first_delimiter]
      exact ⟨congrArg (fun x => Run.literal kind (kind.delimiter :: x)) htext, hrest⟩
  | code hkind hslash =>
      obtain ⟨w, rfl⟩ := hu
      refine ⟨c, u, rfl, ?_⟩
      have hfirst : first c u = ⟨.code c, u, false⟩ := by
        refine first_code hkind fun hc => ?_
        obtain ⟨hl, hb⟩ := hslash hc
        cases u with
        | nil => exact ⟨by simp, by simp⟩
        | cons d u => exact ⟨hl, hb⟩
      rw [hfirst]
      exact ⟨rfl, rfl⟩

/-! ## More behind a run -/

/-- A first run with something behind it does not depend on what follows that. -/
theorem Step.first_append_of_rest {c : Char} {t : Text} (h : (first c t).rest ≠ []) (u : Text) :
    first c (t ++ u) = ⟨(first c t).run, (first c t).rest ++ u, false⟩ := by
  have hs := isFirst c t
  generalize first c t = s at hs h ⊢
  -- with something behind it, a line comment has its line feed, and a block or a string its end
  cases hs with
  | line t =>
      have h : t.dropWhile (· != '\n') ≠ [] := h
      have hlt : ¬(t.takeWhile (· != '\n')).length = t.length := by
        intro he
        have := congrArg List.length (List.takeWhile_append_dropWhile (p := (· != '\n')) (l := t))
        rw [List.length_append, he] at this
        exact h (List.length_eq_zero_iff.mp (by omega))
      have hdrop : (t.dropWhile (· != '\n')).isEmpty = false := by simpa using h
      simp only [first, List.cons_append, List.takeWhile_append, List.dropWhile_append, if_neg hlt,
        hdrop, Bool.false_eq_true, if_false]
  | block t =>
      have hclosed : (Body.ofBlock t).closed = true := by
        by_contra ho
        exact h (Body.ofBlock_rest_of_open (by simpa using ho))
      simp only [first, List.cons_append, Body.ofBlock_append_of_closed hclosed]
      rfl
  | literal kind t =>
      have hclosed : (Body.ofLiteral kind t).closed = true := by
        by_contra ho
        exact h (Body.ofLiteral_rest_of_open (by simpa using ho))
      rw [Text.first_delimiter, Body.ofLiteral_append_of_closed hclosed]
      rfl
  | @code c t hkind hslash =>
      obtain ⟨d, v, rfl⟩ := List.exists_cons_of_ne_nil h
      exact first_code hkind hslash

namespace Run

/-- Whether the run ends where it does when `t` follows: a `/` begins no comment there, and a line
comment goes on to the end of its line. -/
def EndsBefore (t : Text) : Run → Prop
  | code c => c = '/' → t.head? ≠ some '/' ∧ t.head? ≠ some '*'
  | comment .line _ => t = [] ∨ t.head? = some '\n'
  | comment .block _ => True
  | literal _ _ => True

/-- The first run of a text ends before the rest of it. -/
theorem endsBefore_first (c : Char) (t : Text) :
    (Step.first c t).run.EndsBefore (Step.first c t).rest := by
  have hs := Step.isFirst c t
  generalize Step.first c t = s at hs ⊢
  cases hs with
  | line t =>
      show t.dropWhile (· != '\n') = [] ∨ (t.dropWhile (· != '\n')).head? = some '\n'
      cases hd : t.dropWhile (· != '\n') with
      | nil => exact Or.inl rfl
      | cons d u =>
          have hnot := List.head_dropWhile_not (· != '\n') (l := t) (by rw [hd]; simp)
          simp only [hd, List.head_cons, bne_eq_false_iff_eq] at hnot
          exact Or.inr (by rw [hnot]; rfl)
  | block t => trivial
  | literal kind t => trivial
  | code hkind hslash => exact hslash

/-- The first run of a text stays the first run before every text that it ends before. -/
theorem leads_first {c : Char} {t : Text} (hclosed : (Step.first c t).run.isClosed = true)
    {u : Text} (hu : (Step.first c t).run.EndsBefore u) : (Step.first c t).run.Leads u := by
  have hs := Step.isFirst c t
  generalize Step.first c t = s at hs hclosed hu ⊢
  cases hs with
  | line t =>
      refine Text.leads_line (fun hm => ?_) hu
      have hne := List.mem_takeWhile_imp hm
      exact absurd rfl (bne_iff_ne.mp hne)
  | block t => exact Text.leads_block (by simpa [Step.ofBody, isClosed] using hclosed) u
  | literal kind t => exact Text.leads_literal (by simpa [Step.ofBody, isClosed] using hclosed) u
  | code hkind hslash => exact ⟨c, u, rfl, Step.first_code hkind hu⟩

/-- Runs that are scanned as themselves. -/
def Stable (rs : List Run) : Prop :=
  runs (join rs) = rs

theorem stable_runs (t : Text) : Stable (runs t) := by
  rw [Stable, join_runs]

/-- The first of stable runs is the first run of their text, and the others are stable. -/
theorem Stable.exists_first {r : Run} {rs : List Run} (h : Stable (r :: rs)) :
    ∃ c t, (Step.first c t).run = r ∧ (Step.first c t).rest = join rs ∧ Stable rs := by
  rw [Stable] at h
  cases ht : join (r :: rs) with
  | nil =>
      rw [ht, runs_nil] at h
      exact absurd h (by simp)
  | cons c t =>
      rw [ht, runs_cons, List.cons.injEq] at h
      have happend := Step.first_append c t
      rw [← ht, join_cons, h.1] at happend
      have hrest := List.append_cancel_left happend
      refine ⟨c, t, h.1, hrest, ?_⟩
      rw [Stable, ← hrest]
      exact h.2

theorem Stable.of_append_right {p q : List Run} (h : Stable (p ++ q)) : Stable q := by
  induction p with
  | nil => exact h
  | cons r p ih =>
      obtain ⟨_, _, _, _, hs⟩ := h.exists_first
      exact ih hs

/-- Stable runs are found in front of every text that the last of them is found in front of. -/
theorem Stable.runs_append_of_last {p : List Run} (h : Stable p) {u : Text}
    (hu : ∀ r, p.getLast? = some r → r.Leads u) : runs (join p ++ u) = p ++ runs u := by
  induction p with
  | nil => rfl
  | cons r p ih =>
      cases p with
      | nil =>
          rw [join_cons, join_nil, List.append_nil]
          exact (hu r rfl).runs_append
      | cons s p =>
          obtain ⟨c, t, hr, hrest, hs⟩ := h.exists_first
          have hne : (Step.first c t).rest ≠ [] := by
            intro hnil
            rw [hrest] at hnil
            rw [Stable, hnil, runs_nil] at hs
            exact List.cons_ne_nil s p hs.symm
          have htext : join (r :: s :: p) = c :: t := by
            rw [← Step.first_append c t, hr, hrest]
            rfl
          rw [htext, List.cons_append, runs_cons, Step.first_append_of_rest hne, hr, hrest,
            ih hs fun x hx => hu x (by rw [List.getLast?_cons, hx]; rfl)]
          rfl

/-- Stable runs that have their ends are found in front of every text that the last of them ends
before. -/
theorem Stable.runs_append {p : List Run} (h : Stable p) (hc : ∀ r ∈ p, r.isClosed = true)
    {u : Text} (hu : ∀ r, p.getLast? = some r → r.EndsBefore u) :
    runs (join p ++ u) = p ++ runs u := by
  refine h.runs_append_of_last fun r hr => ?_
  obtain ⟨q, rfl⟩ := List.getLast?_eq_some_iff.mp hr
  obtain ⟨c, t, hfirst, -, -⟩ := h.of_append_right.exists_first
  rw [← hfirst]
  refine leads_first ?_ ?_
  · rw [hfirst]
    exact hc r (List.mem_append_right q (List.mem_singleton_self r))
  · rw [hfirst]
    exact hu r hr

/-- Runs are found again without what followed them. -/
theorem Stable.of_append_left {p q : List Run} (h : Stable (p ++ q)) : Stable p := by
  induction p with
  | nil => exact runs_nil
  | cons r p ih =>
      rw [List.cons_append] at h
      obtain ⟨c, t, hr, hrest, hs⟩ := h.exists_first
      have hfront : join p <+: (Step.first c t).rest := by
        rw [hrest, join_append]
        exact List.prefix_append _ _
      obtain ⟨d, u, hcons, hrun, htail⟩ := Step.exists_first_of_prefix c t hfront
      rw [hr] at hcons hrun
      rw [Stable, join_cons, hcons, runs_cons, hrun, htail, ih hs]

/-- Runs of a text are stable without those behind them. -/
theorem stable_front {t : Text} {front after : List Run} (h : runs t = front ++ after) :
    Stable front := by
  have hstable := stable_runs t
  rw [h] at hstable
  exact hstable.of_append_left

theorem stable_front_concat {t : Text} {front after : List Run} {r : Run}
    (h : runs t = front ++ r :: after) : Stable (front ++ [r]) := by
  rw [← List.singleton_append, ← List.append_assoc] at h
  exact stable_front h

theorem Stable.of_isInfix {p rs : List Run} (h : Stable rs) (hp : p <:+: rs) : Stable p := by
  obtain ⟨a, b, rfl⟩ := hp
  exact h.of_append_left.of_append_right

/-- Runs that are scanned as themselves and have their ends. -/
structure Sound (rs : List Run) : Prop where
  stable : Stable rs
  closed : ∀ r ∈ rs, r.isClosed = true

theorem Sound.of_append {p q : List Run} (h : Sound (p ++ q)) : Sound p ∧ Sound q := by
  have hp : ∀ r ∈ p, r.isClosed = true := fun r hr => h.closed r (List.mem_append_left q hr)
  have hq : ∀ r ∈ q, r.isClosed = true := fun r hr => h.closed r (List.mem_append_right p hr)
  exact ⟨⟨h.stable.of_append_left, hp⟩, ⟨h.stable.of_append_right, hq⟩⟩

/-- Each part of sound runs is sound. -/
theorem Sound.of_isInfix {p rs : List Run} (h : Sound rs) (hp : p <:+: rs) : Sound p := by
  obtain ⟨a, b, rfl⟩ := hp
  exact h.of_append.1.of_append.2

theorem Sound.tail {r : Run} {rs : List Run} (h : Sound (r :: rs)) : Sound rs :=
  (show Sound ([r] ++ rs) from h).of_append.2

end Run

open Run

namespace Text

/-- A text in which every string and comment has its end, and that does not end in a line
comment. -/
structure Settled (t : Text) : Prop where
  closed : ∀ r ∈ runs t, r.isClosed = true
  last : ∀ r, (runs t).getLast? = some r → r.mode ≠ .comment .line

instance (t : Text) : Decidable t.Settled :=
  decidable_of_iff ((∀ r ∈ runs t, r.isClosed = true) ∧
      ∀ r ∈ (runs t).getLast?, r.mode ≠ .comment .line)
    ⟨fun h => ⟨h.1, h.2⟩, fun h => ⟨h.closed, h.last⟩⟩

/-- A settled text keeps its runs in front of everything that makes no comment of a `/`. -/
theorem Settled.runs_append {t : Text} (h : t.Settled) {u : Text} (hslash : u.head? ≠ some '/')
    (hstar : u.head? ≠ some '*') : runs (t ++ u) = runs t ++ runs u := by
  have := (stable_runs t).runs_append h.closed (u := u) fun r hr => by
    have hmode := h.last r hr
    cases r with
    | code c => exact fun _ => ⟨hslash, hstar⟩
    | comment kind _ =>
        cases kind with
        | line => exact absurd rfl hmode
        | block => trivial
    | literal _ _ => trivial
  rwa [join_runs] at this

/-- Runs that do not end in a line comment, as a text. -/
theorem settled_join {rs : List Run} (h : Sound rs)
    (hlast : ∀ r, rs.getLast? = some r → r.mode ≠ .comment .line) : (join rs).Settled := by
  refine ⟨?_, ?_⟩
  · rw [h.stable]
    exact h.closed
  · rw [h.stable]
    exact hlast

theorem Settled.nil : Settled [] := by
  refine ⟨?_, ?_⟩ <;> simp [runs_nil]

/-- A text that consists of plain characters, and does not turn a `/` in front of it into a
comment. -/
def IsJoiner (m : Text) : Prop :=
  (∀ c ∈ m, isPlain c = true) ∧ m ≠ [] ∧ m.head? ≠ some '*'

theorem Settled.of_isPlain {m : Text} (h : ∀ c ∈ m, isPlain c = true) : m.Settled := by
  refine ⟨?_, ?_⟩
  · intro r hr
    rw [runs_of_isPlain h, List.mem_map] at hr
    obtain ⟨c, _, rfl⟩ := hr
    rfl
  · intro r hr
    rw [runs_of_isPlain h] at hr
    obtain ⟨c, _, rfl⟩ := List.mem_map.mp (List.mem_of_getLast? hr)
    simp [Run.mode]

/-- Settled texts whose runs stay side by side are settled together. -/
theorem Settled.of_runs_append {s t u : Text} (hs : s.Settled) (ht : t.Settled)
    (hruns : runs u = runs s ++ runs t) : u.Settled := by
  refine ⟨fun r hr => ?_, fun r hr => ?_⟩
  · rw [hruns, List.mem_append] at hr
    exact hr.elim (hs.closed r) (ht.closed r)
  · rw [hruns, List.getLast?_append] at hr
    cases hlast : (runs t).getLast? with
    | some s =>
        rw [hlast] at hr
        exact ht.last r (by rw [hlast]; exact hr)
    | none =>
        rw [hlast] at hr
        exact hs.last r hr

/-- Plain characters in front of a settled text. -/
theorem Settled.cons_plain {m t : Text} (hm : ∀ c ∈ m, isPlain c = true) (ht : t.Settled) :
    (m ++ t).Settled := by
  refine (Settled.of_isPlain hm).of_runs_append ht ?_
  rw [runs_append_of_isPlain hm, runs_of_isPlain hm]

theorem runs_joiner {s m : Text} (hs : s.Settled) (hm : m.IsJoiner) (t : Text) :
    runs (s ++ (m ++ t)) = runs s ++ (m.map code ++ runs t) := by
  obtain ⟨hplain, hne, hstar⟩ := hm
  obtain ⟨c, m, rfl⟩ := List.exists_cons_of_ne_nil hne
  have hslash : c ≠ '/' := by
    have := hplain c List.mem_cons_self
    simp only [isPlain, Bool.and_eq_true, bne_iff_ne] at this
    exact this.1
  rw [hs.runs_append (by simpa using hslash) (by simpa using hstar), runs_append_of_isPlain hplain]

/-- Two settled texts with a joiner between them are settled. -/
theorem Settled.append {s m t : Text} (hs : s.Settled) (hm : m.IsJoiner) (ht : t.Settled) :
    (s ++ (m ++ t)).Settled := by
  refine hs.of_runs_append (.cons_plain hm.1 ht) ?_
  rw [runs_joiner hs hm t, runs_append_of_isPlain hm.1]

end Text

end ScriptSurvey
