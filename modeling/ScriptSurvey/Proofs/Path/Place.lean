import Mathlib.Data.List.Induction
import ScriptSurvey.Resolution.Resolve

/-!
# Where a path leads

A path leads to a **place**: it starts at the root or not, and goes through the segments that remain
when `.` and `..` are carried out. Every place is *settled*: it is some levels up, none from the root,
and then down through names. A name joined to a path leads one step further than the path.
-/

namespace ScriptSurvey.Path

/-! ## Segments -/

/-- The segment that goes up one level. -/
def up : Text := ['.', '.']

/-- Whether no character of the text is a separator. -/
def IsSegment (s : Text) : Prop :=
  ∀ c ∈ s, isSeparator c = false

/-- A segment that goes down one level: it is no empty one, not `.` and not `..`. -/
structure IsName (s : Text) : Prop where
  ne_nil : s ≠ []
  ne_dot : s ≠ ['.']
  ne_up : s ≠ up
  isSegment : IsSegment s

theorem IsSegment.slash_not_mem {s : Text} (h : IsSegment s) : '/' ∉ s := by
  intro hmem
  exact absurd (h '/' hmem) (by decide)

theorem isSegment_nil : IsSegment [] := fun _ hc => absurd hc List.not_mem_nil

theorem isSegment_dot : IsSegment ['.'] := by
  unfold IsSegment
  decide

theorem isSegment_up : IsSegment up := by
  unfold IsSegment
  decide

theorem unifySeparators_append (s t : Text) :
    unifySeparators (s ++ t) = unifySeparators s ++ unifySeparators t :=
  List.map_append

/-- Where there is no separator, there is none to unify. -/
theorem unifySeparators_segment {s : Text} (h : IsSegment s) : unifySeparators s = s := by
  unfold unifySeparators
  refine (List.map_congr_left fun c hc => ?_).trans (List.map_id s)
  have hne : c ≠ '\\' := by
    rintro rfl
    exact absurd (h _ hc) (by decide)
  rw [if_neg hne]
  rfl

theorem segments_append_slash (s t : Text) :
    segments (s ++ '/' :: t) = segments s ++ segments t :=
  List.splitOn_append_cons_self s t

theorem segments_segment {s : Text} (h : IsSegment s) : segments s = [s] :=
  List.splitOn_eq_singleton h.slash_not_mem

/-- The segments of a path hold no separator, once the separators are unified. -/
theorem isSegment_of_mem_segments {path s : Text} (h : s ∈ segments (unifySeparators path)) :
    IsSegment s := by
  induction path generalizing s with
  | nil =>
      rw [show segments (unifySeparators []) = [[]] from rfl, List.mem_singleton] at h
      rw [h]
      exact isSegment_nil
  | cons c path ih =>
      obtain ⟨front, back, hsplit⟩ :=
        List.exists_cons_of_ne_nil (List.splitOn_ne_nil '/' (unifySeparators path))
      have hfront : IsSegment front := ih (by rw [segments, hsplit]; exact List.mem_cons_self)
      have hback : ∀ x ∈ back, IsSegment x := fun x hx =>
        ih (by rw [segments, hsplit]; exact List.mem_cons_of_mem _ hx)
      -- one more character ends a segment in front or goes on with the first one
      have hcons : segments (unifySeparators (c :: path)) =
          if isSeparator c then [] :: front :: back else (c :: front) :: back := by
        have hunify : unifySeparators (c :: path) =
            (if c = '\\' then '/' else c) :: unifySeparators path := rfl
        rw [segments, hunify, List.splitOn_cons_eq_if_modifyHead, hsplit]
        by_cases hback : c = '\\'
        · simp [hback, isSeparator]
        · by_cases hslash : c = '/'
          · simp [hslash, isSeparator]
          · simp [hback, hslash, isSeparator]
      rw [hcons] at h
      split at h
      · rcases List.mem_cons.mp h with rfl | h
        · exact isSegment_nil
        · rcases List.mem_cons.mp h with rfl | h
          · exact hfront
          · exact hback s h
      · next hsep =>
          rcases List.mem_cons.mp h with rfl | h
          · -- the character goes on with the first segment
            intro d hd
            rcases List.mem_cons.mp hd with rfl | hd
            · exact Bool.not_eq_true _ ▸ hsep
            · exact hfront d hd
          · exact hback s h

/-! ## One more segment -/

theorem enter_stay {rooted : Bool} {stack : List Text} {s : Text} (h : s = [] ∨ s = ['.']) :
    enter rooted stack s = stack := by
  unfold enter
  rw [if_pos h]

theorem enter_name {rooted : Bool} {stack : List Text} {s : Text} (h : IsName s) :
    enter rooted stack s = s :: stack := by
  have hstay : ¬(s = [] ∨ s = ['.']) := by
    rintro (hs | hs)
    · exact h.ne_nil hs
    · exact h.ne_dot hs
  have hup : ¬s = ['.', '.'] := h.ne_up
  unfold enter
  rw [if_neg hstay, if_neg hup]

theorem enter_up_cons (rooted : Bool) (last : Text) (outer : List Text) :
    enter rooted (last :: outer) up =
      if last = up then (if rooted then last :: outer else up :: last :: outer) else outer := rfl

/-! ## Places -/

/-- Whether a path starts at the root, with a separator of either kind. -/
def startsAtRoot (path : Text) : Bool :=
  (unifySeparators path).head? == some '/'

/-- Where a path leads: from the root or not, and through which segments. -/
structure Place where
  rooted : Bool
  steps : List Text
deriving DecidableEq

/-- The place that a path leads to. -/
def place (path : Text) : Place :=
  ⟨startsAtRoot path, resolvedSegments (startsAtRoot path) (unifySeparators path)⟩

theorem rooted_place (path : Text) : (place path).rooted = startsAtRoot path := rfl

namespace Place

/-- The place, seen from which the segment leads further. -/
def enter (p : Place) (s : Text) : Place :=
  ⟨p.rooted, (Path.enter p.rooted p.steps.reverse s).reverse⟩

/-- The place with one more step. -/
def append (p : Place) (s : Text) : Place :=
  ⟨p.rooted, p.steps ++ [s]⟩

/-- The shortest path to a place. One that does not start at the root may have a marker. -/
def spell (marked : Bool) (p : Place) : Text :=
  if p.rooted then '/' :: List.intercalate ['/'] p.steps
  else if marked then
    if p.steps = [] then ['.'] else ['.', '/'] ++ List.intercalate ['/'] p.steps
  else List.intercalate ['/'] p.steps

/-- Whether a place can be reached no shorter way: it is as many levels up, which is none from the
root, and then down through names. -/
def IsSettled (p : Place) : Prop :=
  ∃ (k : Nat) (names : List Text), p.steps = List.replicate k up ++ names ∧
    (p.rooted = true → k = 0) ∧ ∀ s ∈ names, IsName s

theorem enter_of_isName {p : Place} {s : Text} (h : IsName s) : p.enter s = p.append s := by
  rw [enter, enter_name h, append, List.reverse_cons, List.reverse_reverse]

theorem enter_of_stay (p : Place) {s : Text} (h : s = [] ∨ s = ['.']) : p.enter s = p := by
  rw [enter, enter_stay h, List.reverse_reverse]

theorem enter_nil (p : Place) : p.enter [] = p := p.enter_of_stay (.inl rfl)

/-- Behind nothing but levels up, one more leads further up. -/
theorem enter_replicate_up (k : Nat) :
    enter ⟨false, List.replicate k up⟩ up = append ⟨false, List.replicate k up⟩ up := by
  rw [enter, List.reverse_replicate]
  cases k with
  | zero => rfl
  | succ k =>
      rw [List.replicate_succ, enter_up_cons, if_pos rfl, if_neg Bool.false_ne_true,
        List.reverse_cons, ← List.replicate_succ, List.reverse_replicate]
      rfl

/-- A level up leaves the last name. -/
theorem enter_up_append (p : Place) {s : Text} (h : IsName s) : (p.append s).enter up = p := by
  rw [enter, append, List.reverse_append, List.reverse_singleton, List.singleton_append, enter_up_cons,
    if_neg h.ne_up, List.reverse_reverse]

theorem IsSettled.append {p : Place} (h : p.IsSettled) {s : Text} (hs : IsName s) :
    (p.append s).IsSettled := by
  obtain ⟨k, names, hsteps, hroot, hnames⟩ := h
  refine ⟨k, names ++ [s], ?_, hroot, ?_⟩
  · rw [Place.append, hsteps, List.append_assoc]
  · intro x hx
    rcases List.mem_append.mp hx with hx | hx
    · exact hnames x hx
    · exact List.mem_singleton.mp hx ▸ hs

theorem IsSettled.isSegment {p : Place} (h : p.IsSettled) {s : Text} (hs : s ∈ p.steps) :
    IsSegment s ∧ s ≠ [] ∧ s ≠ ['.'] := by
  obtain ⟨k, names, hsteps, -, hnames⟩ := h
  rw [hsteps] at hs
  rcases List.mem_append.mp hs with hs | hs
  · rw [List.eq_of_mem_replicate hs]
    exact ⟨isSegment_up, by decide, by decide⟩
  · exact ⟨(hnames s hs).isSegment, (hnames s hs).ne_nil, (hnames s hs).ne_dot⟩

/-- A place that is settled has no steps, or its last step leads there from another. -/
theorem IsSettled.eq_nil_or_append {p : Place} (h : p.IsSettled) :
    p.steps = [] ∨ ∃ (q : Place) (s : Text), p = q.append s ∧ q.IsSettled := by
  obtain ⟨rooted, steps⟩ := p
  obtain ⟨k, names, rfl, hroot, hnames⟩ := h
  rcases List.eq_nil_or_concat names with rfl | ⟨front, last, rfl⟩
  · cases k with
    | zero => exact .inl rfl
    | succ k =>
        refine .inr ⟨⟨rooted, List.replicate k up⟩, up, ?_, k, [], by simp, ?_, by simp⟩
        · rw [List.append_nil, List.replicate_succ']
          rfl
        · intro hr
          exact absurd (hroot hr) (Nat.succ_ne_zero k)
  · refine .inr ⟨⟨rooted, List.replicate k up ++ front⟩, last, ?_, k, front, rfl, hroot, ?_⟩
    · rw [List.concat_eq_append, ← List.append_assoc]
      rfl
    · intro s hs
      exact hnames s (by simp [hs])

theorem steps_append_ne_nil (p : Place) (s : Text) : (p.append s).steps ≠ [] :=
  List.append_ne_nil_of_right_ne_nil _ (List.cons_ne_nil s [])

theorem append_inj {p q : Place} {s t : Text} (h : p.append s = q.append t) : p = q ∧ s = t := by
  obtain ⟨rooted, steps⟩ := p
  obtain ⟨rooted', steps'⟩ := q
  unfold append at h
  obtain ⟨hr, hs⟩ := mk.inj h
  obtain ⟨hsteps, hst⟩ := List.append_inj' hs rfl
  obtain rfl : rooted = rooted' := hr
  obtain rfl : steps = steps' := hsteps
  exact ⟨rfl, List.singleton_inj.mp hst⟩

/-- Without its last step, a place that is settled is settled. -/
theorem IsSettled.of_append {p : Place} {s : Text} (h : (p.append s).IsSettled) : p.IsSettled := by
  rcases h.eq_nil_or_append with hnil | ⟨q, t, hq, hsettled⟩
  · exact absurd hnil (steps_append_ne_nil p s)
  · rwa [(append_inj hq).1]

/-- Where one more segment leads from a place that is settled. -/
inductive Enters (p : Place) : Text → Place → Prop
  /-- It says nothing. -/
  | stay {s : Text} : s = [] ∨ s = ['.'] → Enters p s p
  /-- It is a name. -/
  | down {s : Text} : IsName s → Enters p s (p.append s)
  /-- It leaves the last name. -/
  | back {q : Place} {s : Text} : IsName s → p = q.append s → Enters p up q
  /-- It is a level up at the root, where there is none. -/
  | root : p.rooted = true → p.steps = [] → Enters p up p
  /-- It is one more level up, behind nothing but levels up. -/
  | above : p.rooted = false → (∀ s ∈ p.steps, s = up) → Enters p up (p.append up)

theorem IsSettled.enters_up {p : Place} (h : p.IsSettled) : p.Enters up (p.enter up) := by
  obtain ⟨rooted, steps⟩ := p
  obtain ⟨k, names, rfl, hroot, hnames⟩ := h
  rcases List.eq_nil_or_concat names with rfl | ⟨front, last, rfl⟩
  · -- there is no name to leave: one more level up, or none at the root
    rw [List.append_nil]
    cases rooted with
    | true =>
        obtain rfl := hroot rfl
        exact .root rfl rfl
    | false =>
        rw [enter_replicate_up]
        exact .above rfl fun s hs => List.eq_of_mem_replicate hs
  · have hlast : IsName last := hnames last (by simp)
    have happend : (⟨rooted, List.replicate k up ++ front.concat last⟩ : Place) =
        Place.append ⟨rooted, List.replicate k up ++ front⟩ last := by
      rw [Place.append, List.concat_eq_append, List.append_assoc]
    rw [happend, enter_up_append _ hlast]
    exact .back hlast rfl

/-- **One more segment** leads one of these ways. -/
theorem IsSettled.enters {p : Place} (h : p.IsSettled) {s : Text} (hs : IsSegment s) :
    p.Enters s (p.enter s) := by
  by_cases hstay : s = [] ∨ s = ['.']
  · rw [p.enter_of_stay hstay]
    exact .stay hstay
  · by_cases hup : s = up
    · rw [hup]
      exact h.enters_up
    · have hname : IsName s := ⟨fun hn => hstay (.inl hn), fun hd => hstay (.inr hd), hup, hs⟩
      rw [enter_of_isName hname]
      exact .down hname

/-- **Each segment leads to a place that is settled.** -/
theorem IsSettled.enter {p : Place} (h : p.IsSettled) {s : Text} (hs : IsSegment s) :
    (p.enter s).IsSettled := by
  have henters := h.enters hs
  generalize p.enter s = q at henters
  cases henters with
  | stay _ => exact h
  | down hname => exact h.append hname
  | back _ hp => exact (hp ▸ h).of_append
  | root _ _ => exact h
  | above hrooted hups =>
      refine ⟨p.steps.length + 1, [], ?_, fun hr => ?_, by simp⟩
      · rw [Place.append, List.append_nil, List.replicate_succ', List.append_cancel_right_eq]
        exact List.eq_replicate_of_mem hups
      · exact Bool.noConfusion (hrooted.symm.trans hr)

theorem IsSettled.foldl {p : Place} (h : p.IsSettled) {segs : List Text}
    (hsegs : ∀ s ∈ segs, IsSegment s) : (segs.foldl Place.enter p).IsSettled := by
  induction segs generalizing p with
  | nil => exact h
  | cons s segs ih =>
      exact ih (h.enter (hsegs s List.mem_cons_self)) fun x hx => hsegs x (List.mem_cons_of_mem s hx)

theorem isSettled_start (rooted : Bool) : (⟨rooted, []⟩ : Place).IsSettled :=
  ⟨0, [], rfl, fun _ => rfl, by simp⟩

/-- A step of a place that is settled is not carried out further. -/
theorem IsSettled.enter_eq_append {p : Place} {s : Text} (h : (p.append s).IsSettled) :
    p.enter s = p.append s := by
  obtain ⟨rooted, steps⟩ := p
  obtain ⟨k, names, hsteps, hroot, hnames⟩ := h
  rcases List.eq_nil_or_concat names with rfl | ⟨front, last, rfl⟩
  · -- the step is the last of the levels up, and there are none at the root
    rw [List.append_nil] at hsteps
    cases k with
    | zero => exact absurd hsteps (steps_append_ne_nil _ s)
    | succ k =>
        rw [List.replicate_succ'] at hsteps
        obtain ⟨hfront, hlast⟩ := List.append_inj' hsteps rfl
        obtain rfl : steps = List.replicate k up := hfront
        obtain rfl : s = up := List.singleton_inj.mp hlast
        obtain rfl : rooted = false := by
          cases rooted with
          | true => exact absurd (hroot rfl) (Nat.succ_ne_zero k)
          | false => rfl
        exact enter_replicate_up k
  · rw [List.concat_eq_append, ← List.append_assoc] at hsteps
    obtain rfl : s = last := List.singleton_inj.mp (List.append_inj' hsteps rfl).2
    exact enter_of_isName (hnames s (by simp))

/-- A settled place is where its own steps lead. -/
theorem IsSettled.foldl_enter {p : Place} (h : p.IsSettled) :
    p.steps.foldl Place.enter ⟨p.rooted, []⟩ = p := by
  obtain ⟨rooted, steps⟩ := p
  induction steps using List.reverseRecOn with
  | nil => rfl
  | append_singleton steps s ih =>
      have happend : (Place.append ⟨rooted, steps⟩ s).IsSettled := h
      have hfront : steps.foldl Place.enter ⟨rooted, []⟩ = ⟨rooted, steps⟩ := ih happend.of_append
      show (steps ++ [s]).foldl Place.enter ⟨rooted, []⟩ = Place.append ⟨rooted, steps⟩ s
      rw [List.foldl_append, hfront]
      exact happend.enter_eq_append

end Place

/-- The segments of a path lead to its place one after another. -/
theorem place_eq_foldl (path : Text) :
    place path = (segments (unifySeparators path)).foldl Place.enter ⟨startsAtRoot path, []⟩ := by
  have hfold : ∀ (segs : List Text) (rooted : Bool) (stack : List Text),
      segs.foldl Place.enter ⟨rooted, stack.reverse⟩ =
        ⟨rooted, (segs.foldl (enter rooted) stack).reverse⟩ := by
    intro segs
    induction segs with
    | nil => intro rooted stack; rfl
    | cons s segs ih =>
        intro rooted stack
        rw [List.foldl_cons, List.foldl_cons, Place.enter, List.reverse_reverse, ih]
  exact (hfold _ _ []).symm

/-- **Every path leads to a settled place.** -/
theorem isSettled_place (path : Text) : (place path).IsSettled := by
  rw [place_eq_foldl]
  exact (Place.isSettled_start _).foldl fun s hs => isSegment_of_mem_segments hs

/-! ## Joining a path -/

/-- The place that a path leads to, as seen from another place. -/
def Place.along (p : Place) (path : Text) : Place :=
  (segments (unifySeparators path)).foldl Place.enter p

theorem Place.along_segment (p : Place) {s : Text} (hs : IsSegment s) : p.along s = p.enter s := by
  rw [Place.along, unifySeparators_segment hs, segments_segment hs]
  rfl

theorem unifySeparators_append_separator (x t : Text) {c : Char} (hc : isSeparator c = true) :
    unifySeparators (x ++ c :: t) = unifySeparators x ++ '/' :: unifySeparators t := by
  have hslash : (if c = '\\' then '/' else c) = '/' := by
    simp only [isSeparator, Bool.or_eq_true, beq_iff_eq] at hc
    rcases hc with rfl | rfl <;> rfl
  rw [unifySeparators_append]
  show _ ++ (if c = '\\' then '/' else c) :: unifySeparators t = _
  rw [hslash]

/-- A path behind a separator leads on from there. -/
theorem place_append_separator (x t : Text) {c : Char} (hc : isSeparator c = true) :
    place (x ++ c :: t) = (place (x ++ [c])).along t := by
  have hroot : startsAtRoot (x ++ c :: t) = startsAtRoot (x ++ [c]) := by
    cases x <;> rfl
  rw [place_eq_foldl, place_eq_foldl, hroot, unifySeparators_append_separator x t hc,
    unifySeparators_append_separator x [] hc, segments_append_slash, segments_append_slash,
    show segments (unifySeparators []) = [[]] from rfl, List.foldl_append, List.foldl_append]
  exact congrArg (Place.along · t) (Place.enter_nil _).symm

/-- A separator at the end leads nowhere else, unless it is all there is. -/
theorem place_concat_separator {x : Text} {c : Char} (hc : isSeparator c = true) (hx : x ≠ []) :
    place (x ++ [c]) = place x := by
  have hroot : startsAtRoot (x ++ [c]) = startsAtRoot x := by
    obtain ⟨d, x, rfl⟩ := List.exists_cons_of_ne_nil hx
    rfl
  rw [place_eq_foldl, place_eq_foldl, hroot, unifySeparators_append_separator x [] hc,
    segments_append_slash, show segments (unifySeparators []) = [[]] from rfl, List.foldl_append]
  exact Place.enter_nil _

theorem isRooted_of_isSegment {s : Text} (h : IsSegment s) : isRooted s = false := by
  unfold isRooted
  split
  · exact absurd (h '/' List.mem_cons_self) (by decide)
  · next drive c t _ =>
      have hc := h c (by simp)
      rw [hc, Bool.and_false]
  · rfl

theorem exists_separator {x : Text} (h : endsInSeparator x = true) :
    ∃ y c, x = y ++ [c] ∧ isSeparator c = true := by
  unfold endsInSeparator at h
  split at h
  · next c hc =>
      obtain ⟨y, rfl⟩ := List.getLast?_eq_some_iff.mp hc
      exact ⟨y, c, rfl, h⟩
  · exact absurd h Bool.false_ne_true

/-- **A path that is joined to a directory** leads on from there. -/
theorem place_combine {x t : Text} (hx : x ≠ []) (ht : isRooted t = false) :
    place (combine x t) = (place x).along t := by
  have hnil : x.isEmpty = false := List.isEmpty_eq_false_iff.mpr hx
  rw [combine, ht, hnil, Bool.or_self, if_neg Bool.false_ne_true, withSeparator]
  cases hend : endsInSeparator x with
  | false =>
      rw [if_neg Bool.false_ne_true, List.append_assoc]
      exact (place_append_separator x t rfl).trans
        (congrArg (Place.along · t) (place_concat_separator rfl hx))
  | true =>
      obtain ⟨y, c, rfl, hc⟩ := exists_separator hend
      rw [if_pos rfl, List.append_assoc]
      exact place_append_separator y t hc

/-- **A name in a directory** leads one step further than the directory. -/
theorem place_within (x : Text) {s : Text} (hs : IsSegment s) :
    place (Target.within x s) = (place x).enter s := by
  unfold Target.within
  by_cases hx : x = []
  · subst hx
    have hroot : startsAtRoot s = false := by
      cases s with
      | nil => rfl
      | cons c s =>
          rw [startsAtRoot, unifySeparators_segment hs, List.head?_cons, beq_eq_false_iff_ne]
          intro hc
          exact absurd (hs c List.mem_cons_self) (by rw [Option.some.inj hc]; decide)
    rw [List.isEmpty_nil, if_pos rfl, place_eq_foldl, hroot]
    exact Place.along_segment _ hs
  · rw [List.isEmpty_eq_false_iff.mpr hx, if_neg Bool.false_ne_true,
      place_combine hx (isRooted_of_isSegment hs), Place.along_segment _ hs]

theorem place_withoutSeparator (x : Text) : place (withoutSeparator x) = place x := by
  unfold withoutSeparator
  split
  · next h =>
      rw [Bool.and_eq_true, decide_eq_true_eq] at h
      obtain ⟨y, c, rfl, hc⟩ := exists_separator h.2
      have hy : y ≠ [] := by
        rintro rfl
        simp at h
      rw [List.dropLast_concat, place_concat_separator hc hy]
  · rfl

end ScriptSurvey.Path
