import ScriptSurvey.CallSite
import ScriptSurvey.Proofs.Lexical.Cuts
import ScriptSurvey.Proofs.Lexical.Rescan
import ScriptSurvey.Proofs.Lexical.Scan

/-!
# Cursors in step with a scan

A cursor moves in three ways: past a run, past some characters, and to an offset. It **reaches**
another cursor over some runs if they are what stands between the two, and are also the first runs of
what lies ahead of it. Then both see the rest of the text as the same runs: a reader that jumps from the
one to the other is in step with a scan that goes there run by run.

* A search for code passes over the runs that are none, and one for the end of trivia over trivia.
* A jump over plain characters passes over each as a run.
* The search for a closing bracket passes over what is enclosed, and over the bracket.

Visits depend on the next code character alone, so they go on alike wherever they resume in step.
-/

namespace ScriptSurvey

theorem Run.exists_eq_code {r : Run} (h : r.mode.isCode = true) : ∃ x, r = code x := by
  cases r with
  | code x => exact ⟨x, rfl⟩
  | comment k t => exact absurd h Bool.false_ne_true
  | literal k t => exact absurd h Bool.false_ne_true

theorem isPlain_of_isOpeningBracket {o : Char} (h : isOpeningBracket o = true) :
    Text.isPlain o = true := by
  rcases eq_of_isOpeningBracket h with rfl | rfl | rfl | rfl <;> decide

namespace Cursor

/-! ## Over one run -/

theorem past_of_leads {r : Run} {t : Text} (h : r.Leads t) (p : Text) (m : Mode) :
    ∃ d u, r.text ++ t = d :: u ∧ (Step.first d u).run = r ∧
      (⟨p, r.text ++ t, m⟩ : Cursor).past (Step.first d u) = ⟨r.text.reverse ++ p, t, .code⟩ := by
  obtain ⟨d, u, hcons, hfirst⟩ := h
  refine ⟨d, u, hcons, by rw [hfirst], ?_⟩
  rw [past, hfirst]
  rfl

theorem skipTrivia_of_nil {c : Cursor} (h : c.rest = []) : c.skipTrivia = c := by
  rw [skipTrivia]
  split
  · rfl
  · next h' => exact absurd (h.symm.trans h') (by simp)

theorem skipTrivia_of_cons {c : Cursor} {x : Char} {t : Text} (h : c.rest = x :: t) :
    c.skipTrivia =
      if (Step.first x t).run.isTrivia then (c.past (Step.first x t)).skipTrivia else c := by
  rw [skipTrivia]
  split
  · next h' => exact absurd (h.symm.trans h') (by simp)
  · next h' =>
      obtain ⟨rfl, rfl⟩ := List.cons.inj (h.symm.trans h')
      rfl

theorem toCode_of_nil {c : Cursor} (h : c.rest = []) : c.toCode = c := by
  rw [toCode]
  split
  · rfl
  · next h' => exact absurd (h.symm.trans h') (by simp)

theorem toCode_of_cons {c : Cursor} {x : Char} {t : Text} (h : c.rest = x :: t) :
    c.toCode =
      if (Step.first x t).run.mode.isCode then c else (c.past (Step.first x t)).toCode := by
  rw [toCode]
  split
  · next h' => exact absurd (h.symm.trans h') (by simp)
  · next h' =>
      obtain ⟨rfl, rfl⟩ := List.cons.inj (h.symm.trans h')
      rfl

theorem skipTrivia_of_leads {r : Run} {t : Text} (h : r.Leads t) (p : Text) (m : Mode) :
    skipTrivia ⟨p, r.text ++ t, m⟩ =
      if r.isTrivia then skipTrivia ⟨r.text.reverse ++ p, t, .code⟩ else ⟨p, r.text ++ t, m⟩ := by
  obtain ⟨d, u, hcons, hrun, hpast⟩ := past_of_leads h p m
  rw [hcons] at hpast ⊢
  rw [skipTrivia_of_cons rfl, hrun, hpast]

theorem toCode_of_leads {r : Run} {t : Text} (h : r.Leads t) (p : Text) (m : Mode) :
    toCode ⟨p, r.text ++ t, m⟩ =
      if r.mode.isCode then ⟨p, r.text ++ t, m⟩ else toCode ⟨r.text.reverse ++ p, t, .code⟩ := by
  obtain ⟨d, u, hcons, hrun, hpast⟩ := past_of_leads h p m
  rw [hcons] at hpast ⊢
  rw [toCode_of_cons rfl, hrun, hpast]

/-! ## Over a known text -/

theorem forward_append (s p t : Text) :
    forward s.length ⟨p, s ++ t, .code⟩ = ⟨s.reverse ++ p, t, .code⟩ := by
  induction s generalizing p with
  | nil => rfl
  | cons c s ih =>
      rw [List.length_cons, List.cons_append, forward]
      simp only [ih (c :: p), List.reverse_cons, List.append_assoc, List.singleton_append]

theorem forward_of_append {c : Cursor} {s t : Text} (h : c.rest = s ++ t) :
    c.forward s.length = ⟨s.reverse ++ c.passed, t, .code⟩ := by
  rw [← forward_append, ← h]
  cases s <;> rfl

theorem forwardBytes_append (s p t : Text) :
    forwardBytes (Text.size s) p (s ++ t) = ⟨s.reverse ++ p, t, .code⟩ := by
  induction s generalizing p with
  | nil =>
      rw [Text.size_nil]
      cases t <;> rfl
  | cons c s ih =>
      have hpos := c.utf8Size_pos
      have hsize : Text.size (c :: s) - c.utf8Size = Text.size s := by
        rw [Text.size_cons]
        omega
      rw [List.cons_append, forwardBytes, if_neg (by rw [Text.size_cons]; omega), hsize, ih]
      simp

/-- Going on where a stretch of the text ends. -/
theorem advanceTo_append (s p t : Text) :
    (⟨p, s ++ t, .code⟩ : Cursor).advanceTo (Text.size p + Text.size s) =
      ⟨s.reverse ++ p, t, .code⟩ := by
  have hoffset : Text.size p + Text.size s - (⟨p, s ++ t, .code⟩ : Cursor).offset =
      Text.size s := by
    show Text.size p + Text.size s - Text.size p = Text.size s
    omega
  rw [advanceTo, hoffset, forwardBytes_append]

/-! ## In step -/

/-- Whether the runs are what stands between two cursors, and the first runs of what lies ahead of
the one in front. -/
structure Reaches (c d : Cursor) (rs : List Run) : Prop where
  passed : d.passed = (Run.join rs).reverse ++ c.passed
  ahead : runs c.rest = rs ++ runs d.rest

namespace Reaches

variable {c d e : Cursor} {rs ss : List Run}

theorem refl (c : Cursor) : c.Reaches c [] := ⟨rfl, rfl⟩

theorem trans (h : c.Reaches d rs) (h' : d.Reaches e ss) : c.Reaches e (rs ++ ss) where
  passed := by
    rw [h'.passed, h.passed, Run.join_append, List.reverse_append, List.append_assoc]
  ahead := by
    rw [h.ahead, h'.ahead, List.append_assoc]

/-- What is reached on the way to a cursor reaches it. -/
theorem of_append (h : c.Reaches d rs) (h' : c.Reaches e (rs ++ ss)) : d.Reaches e ss where
  passed := by
    rw [h'.passed, h.passed, Run.join_append, List.reverse_append, List.append_assoc]
  ahead := by
    have := h.ahead.symm.trans h'.ahead
    rw [List.append_assoc] at this
    exact List.append_cancel_left this

theorem rest_eq (h : c.Reaches d rs) : c.rest = Run.join rs ++ d.rest := by
  rw [← join_runs c.rest, h.ahead, Run.join_append, join_runs]

theorem text_eq (h : c.Reaches d rs) : d.text = c.text := by
  rw [text, text, h.passed, h.rest_eq, List.reverse_append, List.reverse_reverse,
    List.append_assoc]

theorem offset_eq (h : c.Reaches d rs) : d.offset = c.offset + Text.size (Run.join rs) := by
  rw [offset, offset, h.passed, Text.size_append, Text.size_reverse, Nat.add_comm]

/-- There is a run between two cursors only if there is text. -/
theorem length_rest_lt (h : c.Reaches d rs) (hne : rs ≠ []) : d.rest.length < c.rest.length := by
  have hrest := h.rest_eq
  cases hc : c.rest with
  | nil =>
      have hruns := h.ahead
      rw [hc, runs_nil] at hruns
      exact absurd (List.append_eq_nil_iff.mp hruns.symm).1 hne
  | cons x t =>
      obtain ⟨r, rs, rfl⟩ := List.exists_cons_of_ne_nil hne
      have hruns := h.ahead
      rw [hc, runs_cons] at hruns
      have hr := (List.cons.inj hruns).1
      have hpos := List.length_pos_iff.mpr (Step.first_run_ne_nil x t)
      have hlength := congrArg List.length hrest
      rw [hc, Run.join_cons, ← hr] at hlength
      simp only [List.length_append] at hlength
      omega

/-- A jump to the offset of a cursor that lies ahead. -/
theorem advanceTo_eq (h : c.Reaches d rs) : c.advanceTo d.offset = ⟨d.passed, d.rest, .code⟩ := by
  have := advanceTo_append (Run.join rs) c.passed d.rest
  rw [← h.rest_eq, ← h.passed, ← Text.size_reverse c.passed] at this
  rw [h.offset_eq, ← this]
  rw [advanceTo, advanceTo, offset, offset, Text.size_reverse]

/-- A span up to where the rest of a cursor ahead begins stops at its offset. -/
theorem stop_spanTo (h : c.Reaches d rs) : (c.spanTo d.rest).stop = d.offset := by
  rw [h.offset_eq, spanTo, h.rest_eq, Text.size_append, Nat.add_sub_cancel]

/-- What stands between two cursors is a piece of the text. -/
theorem slice?_eq (h : c.Reaches d rs) :
    (Span.mk c.offset d.offset).slice? c.text = some (Run.join rs) := by
  have := Span.slice?_append c.passed.reverse (Run.join rs) d.rest
  rwa [Text.size_reverse, ← h.rest_eq, ← offset, ← h.offset_eq] at this

end Reaches

theorem reaches_past {c : Cursor} {x : Char} {t : Text} (h : c.rest = x :: t) :
    c.Reaches (c.past (Step.first x t)) [(Step.first x t).run] where
  passed := by
    rw [past, Run.join_cons, Run.join_nil, List.append_nil]
  ahead := by
    rw [h, runs_cons]
    rfl

/-- Between any two runs of a text, a scan that begins there finds those that are left. -/
theorem reaches_of_runs_eq {t : Text} {front after : List Run} (h : runs t = front ++ after) :
    (ofText t).Reaches ⟨(Run.join front).reverse, Run.join after, .code⟩ front where
  passed := (List.append_nil _).symm
  ahead := by
    have hstable := Run.stable_runs t
    rw [h] at hstable
    show runs t = front ++ runs (Run.join after)
    rw [h, hstable.of_append_right]

theorem reaches_toCode (c : Cursor) :
    c.Reaches c.toCode ((runs c.rest).takeWhile fun r => !r.mode.isCode) := by
  fun_induction toCode c with
  | case1 c h =>
      rw [h, runs_nil]
      exact .refl c
  | case2 c x t h hcode =>
      rw [h, runs_cons, List.takeWhile_cons_of_neg (by rw [hcode]; exact Bool.false_ne_true)]
      exact .refl c
  | case3 c x t h hcode ih =>
      rw [h, runs_cons, List.takeWhile_cons_of_pos (by simpa using hcode)]
      exact (reaches_past h).trans ih

/-- The search for code ends in front of a character of code, or at the end of the text. -/
theorem runs_toCode {c : Cursor} {x : Char} {t : Text} (h : c.toCode.rest = x :: t) :
    runs c.toCode.rest = .code x :: runs t := by
  fun_induction toCode c with
  | case1 c hnil => exact absurd (hnil.symm.trans h) (by simp)
  | case2 c y u hcons hcode =>
      have happend := Step.first_append y u
      rw [← hcons, h] at happend
      obtain ⟨z, hrun⟩ := Run.exists_eq_code hcode
      rw [hrun] at happend
      obtain ⟨rfl, hrest⟩ := List.cons.inj happend
      rw [hcons, runs_cons, hrun]
      exact congrArg (fun v => Run.code z :: runs v) hrest
  | case3 c y u hcons hcode ih => exact ih h

theorem reaches_skipTrivia (c : Cursor) :
    c.Reaches c.skipTrivia ((runs c.rest).takeWhile Run.isTrivia) := by
  fun_induction skipTrivia c with
  | case1 c h =>
      rw [h, runs_nil]
      exact .refl c
  | case2 c x t h htrivia ih =>
      rw [h, runs_cons, List.takeWhile_cons_of_pos htrivia]
      exact (reaches_past h).trans ih
  | case3 c x t h htrivia =>
      rw [h, runs_cons, List.takeWhile_cons_of_neg htrivia]
      exact .refl c

/-- A jump over plain characters passes over each of them as a run. -/
theorem reaches_forward {c : Cursor} {s t : Text} (h : c.rest = s ++ t)
    (hs : ∀ x ∈ s, Text.isPlain x = true) : c.Reaches (c.forward s.length) (s.map .code) := by
  constructor
  · rw [forward_of_append h, Run.join_map_code]
  · rw [forward_of_append h, h, Text.runs_append_of_isPlain hs]

/-- The search for a closing bracket passes over what stands before it, and then over it. -/
theorem exists_reaches_enclosedFrom {depth : Nat} {afterEquals : Bool} {c d : Cursor}
    {p : List Run} (h : c.enclosedFrom depth afterEquals = some (p, d)) :
    ∃ x ∈ Run.closers, c.Reaches d (p ++ [.code x]) := by
  -- along the search, the last run is only known to be one; what it is, the search over runs says
  have hreaches (q : List Run) (hq : c.enclosedFrom depth afterEquals = some (q, d)) :
      ∃ r, c.Reaches d (q ++ [r]) := by
    clear h
    fun_induction enclosedFrom depth afterEquals c generalizing q with
    | case1 => exact absurd hq (by simp)
    | case2 _ _ c y u hcons s =>
        obtain ⟨rfl, rfl⟩ := Prod.mk.inj (Option.some.inj hq)
        exact ⟨s.run, reaches_past hcons⟩
    | case3 _ _ c y u hcons s n hs ih =>
        obtain ⟨⟨q', d'⟩, hq', hp⟩ := Option.map_eq_some_iff.mp hq
        obtain ⟨rfl, rfl⟩ := Prod.mk.inj hp
        obtain ⟨r, hr⟩ := ih q' hq'
        exact ⟨r, (reaches_past hcons).trans hr⟩
  obtain ⟨r, hr⟩ := hreaches p h
  have hruns := enclosedFrom_eq depth afterEquals c
  rw [h, Option.map_some] at hruns
  obtain ⟨x, hx, hsplit⟩ := Run.eq_of_enclosedFrom hruns.symm
  have hsame := hr.ahead.symm.trans hsplit
  rw [List.append_assoc] at hsame
  obtain rfl := (List.cons.inj (List.append_cancel_left hsame)).1
  exact ⟨x, hx, hr⟩

/-- A cursor is found again by its offset. -/
theorem place_offset (c : Cursor) : place c.text c.offset = ⟨c.passed, c.rest, .code⟩ := by
  have := forwardBytes_append c.passed.reverse [] c.rest
  rwa [Text.size_reverse, List.reverse_reverse, List.append_nil] at this

/-! ## Visits -/

section Visits

variable {α : Type} {look : Cursor → Option α × Next}

theorem visit_of_nil {c : Cursor} (h : c.toCode.rest = []) : visit look c = [] := by
  rw [visit]
  split
  · rfl
  · next h' =>
      rw [h] at h'
      exact absurd h' (by simp)

theorem visit_end (p : Text) : visit look ⟨p, [], .code⟩ = [] :=
  visit_of_nil (by rw [toCode])

theorem visit_of_cons {c : Cursor} {d : Char} {t : Text} (h : c.toCode.rest = d :: t) :
    visit look c =
      match (look c.toCode).2 with
      | .onward => (look c.toCode).1.toList ++ visit look ⟨d :: c.toCode.passed, t, .code⟩
      | .resume offset =>
        (look c.toCode).1.toList ++
          visit look ((⟨d :: c.toCode.passed, t, .code⟩ : Cursor).advanceTo offset)
      | .stop => (look c.toCode).1.toList := by
  rw [visit]
  split
  · next h' =>
      rw [h] at h'
      exact absurd h' (by simp)
  · next d' t' h' =>
      rw [h, List.cons.injEq] at h'
      obtain ⟨rfl, rfl⟩ := h'
      rfl

theorem visit_of_onward {c : Cursor} {x : Char} {t : Text} (h : c.toCode.rest = x :: t)
    {found : Option α} (hlook : look c.toCode = (found, .onward)) :
    visit look c = found.toList ++ visit look ⟨x :: c.toCode.passed, t, .code⟩ := by
  rw [visit_of_cons h, hlook]

/-- A visit that resumes at the offset of a cursor ahead goes on there as from the cursor. -/
theorem visit_of_resume {c d : Cursor} {rs : List Run} (h : c.toCode.Reaches d rs) (hne : rs ≠ [])
    {found : Option α} (hlook : look c.toCode = (found, .resume d.offset)) :
    visit look c = found.toList ++ visit look ⟨d.passed, d.rest, .code⟩ := by
  cases hrest : c.toCode.rest with
  | nil =>
      have := h.length_rest_lt hne
      rw [hrest] at this
      exact absurd this (Nat.not_lt_zero _)
  | cons x t =>
      -- the visit has passed the first run, and jumps over the others
      obtain ⟨r, rs, rfl⟩ := List.exists_cons_of_ne_nil hne
      have hruns := runs_toCode hrest
      obtain rfl : r = .code x := (List.cons.inj (h.ahead.symm.trans hruns)).1
      have hbehind : c.toCode.Reaches ⟨x :: c.toCode.passed, t, .code⟩ [.code x] := ⟨rfl, hruns⟩
      have hahead : Reaches ⟨x :: c.toCode.passed, t, .code⟩ d rs := hbehind.of_append h
      rw [visit_of_cons hrest, hlook]
      exact congrArg (found.toList ++ visit look ·) hahead.advanceTo_eq

/-- Visits begin at the next code character. -/
theorem visit_congr {c e : Cursor} (h : c.toCode = e.toCode) : visit look c = visit look e := by
  cases hrest : e.toCode.rest with
  | nil => rw [visit_of_nil (h ▸ hrest), visit_of_nil hrest]
  | cons d t => rw [visit_of_cons (h ▸ hrest), visit_of_cons hrest, h]

/-- A visit that finds nothing passes over the first run, if there is one at all: only code is
visited. -/
theorem visit_past {c : Cursor} {x : Char} {t : Text} (h : c.rest = x :: t)
    (hlook : (Step.first x t).run.mode.isCode = true → look c = (none, .onward)) :
    visit look c = visit look (c.past (Step.first x t)) := by
  by_cases hcode : (Step.first x t).run.mode.isCode = true
  · have hstay : c.toCode = c := (toCode_of_cons h).trans (if_pos hcode)
    have hfirst := Step.first_of_isCode hcode
    rw [visit_of_onward (by rw [hstay, h]) (hstay.symm ▸ hlook hcode), hstay, hfirst]
    rfl
  · exact visit_congr ((toCode_of_cons h).trans (if_neg hcode))

theorem visit_comment {r : Run} {t : Text} (hr : r.mode.isComment = true) (hleads : r.Leads t)
    (p : Text) : visit look ⟨p, r.text ++ t, .code⟩ =
      visit look ⟨r.text.reverse ++ p, t, .code⟩ := by
  refine visit_congr ?_
  rw [toCode_of_leads hleads, if_neg]
  cases r with
  | code c => exact absurd hr Bool.false_ne_true
  | comment kind x => exact Bool.false_ne_true
  | literal kind x => exact Bool.false_ne_true

theorem toCode_of_isPlain {c : Char} (hc : Text.isPlain c = true) (p t : Text) :
    toCode ⟨p, c :: t, .code⟩ = ⟨p, c :: t, .code⟩ :=
  (toCode_of_leads (Text.leads_of_isPlain hc t) p .code).trans (if_pos rfl)

theorem visit_onward {c : Char} {p t : Text} (hc : Text.isPlain c = true)
    (h : look ⟨p, c :: t, .code⟩ = (none, .onward)) :
    visit look ⟨p, c :: t, .code⟩ = visit look ⟨c :: p, t, .code⟩ := by
  have hcode := toCode_of_isPlain hc p t
  rw [visit_of_onward (congrArg rest hcode) (hcode.symm ▸ h), hcode]
  rfl

/-- Something is found, and the visits resume where it ends. -/
theorem visit_found {c : Char} {p s t : Text} {x : α} {stop : Nat} (hc : Text.isPlain c = true)
    (h : look ⟨p, c :: s ++ t, .code⟩ = (some x, .resume stop))
    (hstop : stop = Text.size p + Text.size (c :: s)) :
    visit look ⟨p, c :: s ++ t, .code⟩ = x :: visit look ⟨(c :: s).reverse ++ p, t, .code⟩ := by
  have hcode := toCode_of_isPlain hc p (s ++ t)
  have hadvance := advanceTo_append s (c :: p) t
  have hsize : Text.size (c :: p) + Text.size s = stop := by
    rw [hstop, Text.size_cons, Text.size_cons]
    omega
  rw [hsize] at hadvance
  rw [List.cons_append] at h ⊢
  rw [visit_of_cons (congrArg rest hcode), hcode, h]
  show x :: visit look (advanceTo stop ⟨c :: p, s ++ t, .code⟩) = _
  rw [hadvance, List.reverse_cons, List.append_assoc]
  rfl

end Visits

end Cursor

end ScriptSurvey
