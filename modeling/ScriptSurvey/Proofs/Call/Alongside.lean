import Mathlib.Data.List.Forall2
import ScriptSurvey.Proofs.Call.LookBehind
import ScriptSurvey.Proofs.Lexical.Stripped

/-!
# The calls of a text and of what is left of it

Two cursors stand **alongside** each other behind the same runs of a text, the one in the text and the
other in what is left of it without its comments. From there they see the same runs ahead, up to a space
for each comment, and they move alike: past a name, past white space and comments, and to the end of what
a bracket encloses. So a registered name that is called in the text is called in what is left of it, and
the other way round. Of a call remain its name and its place among the runs; its offsets move.
-/

namespace ScriptSurvey

open Run

/-! ## Places that remain -/

/-- Whether the place at byte `p` of a text is at byte `p'` of what is left of it. -/
def Remains (source : Text) (p p' : Nat) : Prop :=
  ∃ front after, runs source = front ++ after ∧ p = Text.size (join front) ∧
    p' = Text.size (join (front.map blankComment))

theorem Run.text_blankComment_ne_nil {r : Run} (h : r.text ≠ []) : r.blankComment.text ≠ [] := by
  cases r with
  | code c => exact h
  | comment kind t => exact List.cons_ne_nil _ _
  | literal kind t => exact h

/-- What lies between two places takes bytes in both texts, or in neither. -/
theorem Run.size_join_map_eq_zero_iff {t : Text} {rs : List Run} (h : ∀ r ∈ rs, r ∈ runs t) :
    Text.size (join rs) = 0 ↔ Text.size (join (rs.map blankComment)) = 0 := by
  cases rs with
  | nil => rfl
  | cons r rs =>
      have hne := text_ne_nil_of_mem_runs (h r List.mem_cons_self)
      have hpos := Text.size_pos hne
      have hpos' := Text.size_pos (text_blankComment_ne_nil hne)
      rw [List.map_cons, join_cons, join_cons, Text.size_append, Text.size_append]
      omega

namespace Remains

variable {source : Text} {p p' q q' : Nat}

/-- Places stay in their order. -/
theorem le_iff (hp : Remains source p p') (hq : Remains source q q') : p ≤ q ↔ p' ≤ q' := by
  obtain ⟨front, after, hruns, rfl, rfl⟩ := hp
  obtain ⟨front', after', hruns', rfl, rfl⟩ := hq
  -- one of the places is behind the other, and what lies between them decides
  rcases List.append_eq_append_iff.mp (hruns.symm.trans hruns') with ⟨s, rfl, -⟩ | ⟨s, rfl, -⟩
  · rw [List.map_append, join_append, join_append, Text.size_append, Text.size_append]
    omega
  · have hmem : ∀ r ∈ s, r ∈ runs source := fun r hr => by
      rw [hruns]
      simp [hr]
    have hzero := size_join_map_eq_zero_iff hmem
    rw [List.map_append, join_append, join_append, Text.size_append, Text.size_append]
    omega

theorem eq_iff (hp : Remains source p p') (hq : Remains source q q') : p = q ↔ p' = q' := by
  have := le_iff hp hq
  have := le_iff hq hp
  omega

theorem lt_iff (hp : Remains source p p') (hq : Remains source q q') : p < q ↔ p' < q' := by
  have := le_iff hq hp
  omega

end Remains

namespace Cursor

/-! ## Side by side -/

/-- Whether two cursors stand behind the same runs, the second in what is left of the text. -/
def Alongside (source : Text) (c c' : Cursor) : Prop :=
  ∃ front, (ofText source).Reaches c front ∧
    (ofText (stripComments source)).Reaches c' (front.map blankComment)

namespace Alongside

variable {source : Text} {c c' d d' : Cursor}

theorem trans (h : Alongside source c c') {rs : List Run} (hd : c.Reaches d rs)
    (hd' : c'.Reaches d' (rs.map blankComment)) : Alongside source d d' := by
  obtain ⟨front, hfront, hfront'⟩ := h
  refine ⟨front ++ rs, hfront.trans hd, ?_⟩
  rw [List.map_append]
  exact hfront'.trans hd'

theorem text_eq (h : Alongside source c c') :
    c.text = source ∧ c'.text = stripComments source := by
  obtain ⟨front, hfront, hfront'⟩ := h
  exact ⟨hfront.text_eq, hfront'.text_eq⟩

theorem remains (h : Alongside source c c') : Remains source c.offset c'.offset := by
  obtain ⟨front, hfront, hfront'⟩ := h
  refine ⟨front, runs c.rest, hfront.ahead, ?_, ?_⟩
  · rw [hfront.offset_eq, offset_ofText, Nat.zero_add]
  · rw [hfront'.offset_eq, offset_ofText, Nat.zero_add]

theorem runs_eq (h : Alongside source c c') : runs c'.rest = (runs c.rest).map blankComment := by
  obtain ⟨front, hfront, hfront'⟩ := h
  have hruns : runs (stripComments source) = front.map blankComment ++ runs c'.rest := hfront'.ahead
  rw [runs_stripComments, show runs source = front ++ runs c.rest from hfront.ahead,
    List.map_append] at hruns
  exact (List.append_cancel_left hruns).symm

theorem rest_eq (h : Alongside source c c') : c'.rest = stripComments c.rest := by
  rw [← join_runs c'.rest, h.runs_eq]
  rfl

/-! ## What the reader does -/

/-- Over white space and comments. -/
theorem skipTrivia (h : Alongside source c c') : Alongside source c.skipTrivia c'.skipTrivia := by
  refine h.trans c.reaches_skipTrivia ?_
  have := c'.reaches_skipTrivia
  rw [h.runs_eq, List.takeWhile_map] at this
  rwa [show isTrivia ∘ blankComment = isTrivia from funext isTrivia_blankComment] at this

/-- Over a name. -/
theorem forward (h : Alongside source c c') {name t : Text} (hrest : c.rest = name ++ t)
    (hname : ∀ x ∈ name, Text.isPlain x = true) :
    Alongside source (c.forward name.length) (c'.forward name.length) := by
  have hrest' : c'.rest = name ++ stripComments t := by
    rw [h.rest_eq, hrest, stripComments_append_of_isPlain hname]
  refine h.trans (reaches_forward hrest hname) ?_
  rw [List.map_map]
  exact reaches_forward hrest' hname

end Alongside

end Cursor

theorem Run.shift_blankComment (r : Run) (afterEquals : Bool) :
    r.blankComment.shift afterEquals = r.shift afterEquals := by
  cases r <;> rfl

theorem Run.isChar_blankComment {d : Char} (hd : d ≠ ' ') (r : Run) :
    r.blankComment.isChar d = r.isChar d := by
  cases r with
  | code c => rfl
  | comment kind t => simpa [blankComment, isChar] using hd.symm
  | literal kind t => rfl

/-- What a bracket encloses is what is left of it. -/
theorem Run.enclosedFrom_map_blankComment (depth : Nat) (afterEquals : Bool) (rs : List Run) :
    enclosedFrom depth afterEquals (rs.map blankComment) =
      (enclosedFrom depth afterEquals rs).map fun p =>
        (p.1.map blankComment, p.2.map blankComment) := by
  induction rs generalizing depth afterEquals with
  | nil => rfl
  | cons r rs ih =>
      rw [List.map_cons, enclosedFrom, enclosedFrom, shift_blankComment]
      cases (r.shift afterEquals).within depth with
      | none => rfl
      | some n =>
          simp only [isChar_blankComment (show '=' ≠ ' ' by decide), ih, Option.map_map]
          rfl

namespace CallSite

open Cursor

variable {source : Text} {c c' : Cursor}

/-! ## The end of a call -/

/-- Over a bracket, to behind the one that closes it. -/
theorem rel_bracketed? (h : Alongside source c c') {o : Char} {t : Text} (hrest : c.rest = o :: t)
    (ho : isOpeningBracket o = true) (hplain : Text.isPlain o = true) :
    Option.Rel (fun p p' => Alongside source p.2 p'.2) c.bracketed? c'.bracketed? := by
  have hrest' : c'.rest = o :: stripComments t := by
    rw [h.rest_eq, hrest, stripComments_cons_of_isPlain hplain]
  have hinner := enclosedFrom_eq 0 false (c.forward 1)
  have hinner' := enclosedFrom_eq 0 false (c'.forward 1)
  have hruns : runs (c'.forward 1).rest = (runs (c.forward 1).rest).map blankComment := by
    rw [forward, forward, hrest, hrest']
    exact runs_stripComments t
  rw [hruns, Run.enclosedFrom_map_blankComment, ← hinner, ← bracketed?, ← bracketed?] at hinner'
  cases hfound : c.bracketed? with
  | none =>
      rw [hfound] at hinner'
      rw [Option.map_eq_none_iff.mp hinner']
      exact .none
  | some p =>
      rw [hfound] at hinner'
      obtain ⟨p', hfound', hp'⟩ := Option.map_eq_some_iff.mp hinner'
      rw [hfound']
      obtain ⟨x, -, hreaches⟩ := exists_reaches_bracketed? hrest ho hfound
      obtain ⟨x', -, hreaches'⟩ := exists_reaches_bracketed? hrest' ho hfound'
      obtain ⟨hp, -⟩ := Prod.mk.inj hp'
      -- the closing brackets are one run of the text and what is left of it
      have hsame := h.runs_eq
      rw [hreaches.ahead, hreaches'.ahead, hp] at hsame
      simp only [List.cons_append, List.append_assoc, List.map_cons, List.map_append,
        List.cons.injEq, List.append_cancel_left_eq, List.nil_append] at hsame
      refine .some (h.trans hreaches ?_)
      rw [List.map_cons, List.map_append, ← hp, List.map_cons, ← hsame.2.1]
      exact hreaches'

theorem arguments?_of_cons {t : Text} (h : c.rest = '(' :: t) :
    arguments? c = c.bracketed?.map fun p =>
      ((Run.splitAtCommas p.1).map Element.ofRuns, p.2) := by
  rw [arguments?, h]
  rfl

theorem arguments?_of_head? (h : c.rest.head? ≠ some '(') : arguments? c = none := by
  unfold arguments?
  split
  · next t hc => exact absurd (by rw [hc]; rfl) h
  · rfl

theorem rel_arguments? (h : Alongside source c c') :
    Option.Rel (fun p p' => Alongside source p.2 p'.2) (arguments? c) (arguments? c') := by
  have hhead : c'.rest.head? = some '(' ↔ c.rest.head? = some '(' := by
    rw [h.rest_eq]
    exact head?_stripComments_iff (by decide) (by decide)
  by_cases hopens : c.rest.head? = some '('
  · obtain ⟨t, hrest⟩ := List.head?_eq_some_iff.mp hopens
    obtain ⟨t', hrest'⟩ := List.head?_eq_some_iff.mp (hhead.mpr hopens)
    rw [arguments?_of_cons hrest, arguments?_of_cons hrest', Option.map_eq_bind, Option.map_eq_bind]
    exact rel_bind (rel_bracketed? h hrest rfl (by decide)) fun _ _ _ _ hp => .some hp
  · rw [arguments?_of_head? hopens, arguments?_of_head? (mt hhead.mp hopens)]
    exact .none

theorem rel_typeArguments? (h : Alongside source c c') :
    Option.Rel (fun p p' => Alongside source p.2 p'.2) (typeArguments? c) (typeArguments? c') := by
  have hhead : c'.rest.head? = some '<' ↔ c.rest.head? = some '<' := by
    rw [h.rest_eq]
    exact head?_stripComments_iff (by decide) (by decide)
  by_cases hopens : c.rest.head? = some '<'
  · obtain ⟨t, hrest⟩ := List.head?_eq_some_iff.mp hopens
    obtain ⟨t', hrest'⟩ := List.head?_eq_some_iff.mp (hhead.mpr hopens)
    rw [typeArguments?_of_cons hrest, typeArguments?_of_cons hrest', Option.map_eq_bind,
      Option.map_eq_bind]
    exact rel_bind (rel_bracketed? h hrest rfl (by decide)) fun _ _ _ _ hp => .some hp.skipTrivia
  · rw [typeArguments?_of_head? hopens, typeArguments?_of_head? (mt hhead.mp hopens)]
    exact .some h

theorem at?_eq_bind (name : Text) (c : Cursor) :
    at? name c = (typeArguments? (c.forward name.length).skipTrivia).bind fun p =>
      (arguments? p.2).bind fun q => some ⟨name, ⟨c.offset, q.2.offset⟩, p.1, q.1⟩ := by
  rw [at?]
  cases typeArguments? (c.forward name.length).skipTrivia with
  | none => rfl
  | some p => exact Option.map_eq_bind

/-- A call and what is left of it: one of the same name, from and to the places that remain. -/
structure RemainsAs (source : Text) (site site' : CallSite) : Prop where
  callee : site'.callee = site.callee
  start : Remains source site.span.start site'.span.start
  stop : Remains source site.span.stop site'.span.stop

theorem rel_at? (h : Alongside source c c') {name t : Text} (hrest : c.rest = name ++ t)
    (hname : ∀ x ∈ name, Text.isPlain x = true) :
    Option.Rel (RemainsAs source) (at? name c) (at? name c') := by
  rw [at?_eq_bind, at?_eq_bind]
  refine rel_bind (rel_typeArguments? (h.forward hrest hname).skipTrivia) fun p p' _ _ hp => ?_
  exact rel_bind (rel_arguments? hp) fun q q' _ _ hq => .some ⟨rfl, h.remains, hq.remains⟩

/-! ## All calls -/

/-- The same dotted path stands in front of what is left of a text. -/
theorem dottedPath_stripComments (t : Text) :
    Text.dottedPath (stripComments t) = Text.dottedPath t := by
  have hplain {u : Text} : ∀ x ∈ Text.dottedPath u, Text.isPlain x = true ∧ x ≠ ' ' := fun x hx =>
    ⟨isPlain_of_mem_dottedPath hx,
      Text.ne_of_isPathChar (Text.isPathChar_of_mem_dottedPath hx) (by decide)⟩
  have hlongest {u v : Text} (h : Text.dottedPath u <+: v) :
      Text.dottedPath u <+: Text.dottedPath v := by
    by_cases hnil : Text.dottedPath u = []
    · rw [hnil]
      exact List.nil_prefix
    · exact Text.prefix_dottedPath (Text.isDottedPath_dottedPath hnil) h
  refine List.Sublist.antisymm (List.IsPrefix.sublist ?_) (List.IsPrefix.sublist ?_)
  · obtain ⟨v, hv⟩ := Text.dottedPath_prefix (stripComments t)
    obtain ⟨u, hu, -⟩ := exists_of_stripComments hplain hv.symm
    exact hlongest ⟨u, hu.symm⟩
  · obtain ⟨u, hu⟩ := Text.dottedPath_prefix t
    refine hlongest ⟨stripComments u, ?_⟩
    rw [← stripComments_append_of_isPlain fun x hx => (hplain x hx).1, hu]

/-- At cursors alongside, the same names are called or none is. -/
theorem rel_calledAt? (h : Alongside source c c') (cs : Callees) :
    Option.Rel (RemainsAs source) (calledAt? source cs c.offset)
      (calledAt? (stripComments source) cs c'.offset) := by
  obtain ⟨htext, htext'⟩ := h.text_eq
  rw [← htext', ← htext, calledAt?_offset, calledAt?_offset, htext, h.rest_eq,
    dottedPath_stripComments]
  split
  · obtain ⟨t, ht⟩ := Text.dottedPath_prefix c.rest
    exact rel_at? h ht.symm fun x hx => isPlain_of_mem_dottedPath hx
  · exact .none

/-- No name begins with a space. -/
theorem calledAt?_of_space {t : Text} (h : c.rest = ' ' :: t) (cs : Callees) :
    calledAt? c.text cs c.offset = none := by
  rw [calledAt?_offset, h, Text.dottedPath_eq_nil (by decide)]
  exact if_neg fun hname => hname.1 rfl

theorem alongside_of_append {front after : List Run} (h : runs source = front ++ after) :
    Alongside source ⟨(join front).reverse, join after, .code⟩
      ⟨(join (front.map blankComment)).reverse, join (after.map blankComment), .code⟩ := by
  refine ⟨front, reaches_of_runs_eq h, reaches_of_runs_eq ?_⟩
  rw [runs_stripComments, h, List.map_append]

/-- The calls among some runs, behind those in front of them: a character of code stays what it is, and a
space in place of a comment begins no name. -/
theorem forall₂_filterMap_calledAt? (cs : Callees) {front after : List Run}
    (h : runs source = front ++ after) :
    List.Forall₂ (RemainsAs source)
      ((Run.codeOffsets (Text.size (join front)) after).filterMap (calledAt? source cs))
      ((Run.codeOffsets (Text.size (join (front.map blankComment)))
        (after.map blankComment)).filterMap (calledAt? (stripComments source) cs)) := by
  induction after generalizing front with
  | nil => exact .nil
  | cons r after ih =>
      have halong := alongside_of_append h
      have hfront : runs source = (front ++ [r]) ++ after := by
        rw [h, List.append_assoc]
        rfl
      have hothers := ih hfront
      simp only [List.map_append, List.map_cons, List.map_nil, join_append, join_cons, join_nil,
        List.append_nil, Text.size_append] at hothers
      have hcalled := rel_calledAt? halong cs
      simp only [offset, Text.size_reverse] at hcalled
      cases r with
      | code x =>
          rw [List.map_cons, Run.codeOffsets, Run.codeOffsets]
          show List.Forall₂ _ (List.filterMap _ (_ :: _)) (List.filterMap _ (_ :: _))
          generalize hsite : calledAt? source cs (Text.size (join front)) = site at hcalled
          generalize hsite' : calledAt? (stripComments source) cs
            (Text.size (join (front.map blankComment))) = site' at hcalled
          cases hcalled with
          | none =>
              rw [List.filterMap_cons_none hsite, List.filterMap_cons_none hsite']
              exact hothers
          | some hremains =>
              rw [List.filterMap_cons_some hsite, List.filterMap_cons_some hsite']
              exact .cons hremains hothers
      | comment kind t =>
          -- the space is a place that the text did not have, and no call begins there
          have hnone : calledAt? (stripComments source) cs
              (Text.size (join (front.map blankComment))) = none := by
            have := calledAt?_of_space (c := ⟨(join (front.map blankComment)).reverse,
              join ((Run.comment kind t :: after).map blankComment), .code⟩) rfl cs
            rwa [halong.text_eq.2, offset, Text.size_reverse] at this
          rw [List.map_cons, Run.codeOffsets, Run.codeOffsets]
          show List.Forall₂ _ (List.filterMap _ _) (List.filterMap _ (_ :: _))
          rw [List.filterMap_cons_none hnone]
          exact hothers
      | literal kind t =>
          rw [List.map_cons, Run.codeOffsets, Run.codeOffsets]
          exact hothers

theorem forall₂_calls (source : Text) (cs : Callees) :
    List.Forall₂ (RemainsAs source) (calls source cs) (calls (stripComments source) cs) := by
  rw [calls, calls, codeOffsets_eq, codeOffsets_eq, runs_stripComments]
  exact forall₂_filterMap_calledAt? cs (show runs source = [] ++ runs source from rfl)

end CallSite

end ScriptSurvey
