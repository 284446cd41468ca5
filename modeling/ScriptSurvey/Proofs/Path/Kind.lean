import ScriptSurvey.Path.Specifier
import ScriptSurvey.Proofs.Path.Spell

/-!
# Relative paths and paths from a root

A specifier is relative by its first segment, `.`, `..` or the empty one in front of `/`. A path starts
at a root when it starts with `/`, or with a drive and something behind it.

In normal form a path that starts with `/` is still both, and one that starts with `..` is still
relative. Two kinds of paths can change. A marker is left out in front of a name that begins with two
dots, as if that were a level up, so the specifier is relative no longer. A drive is a name like any
other, so levels up can leave it, and with nothing below it the separator behind it is lost.
-/

namespace ScriptSurvey.Path

theorem segments_append (t : Text) {s : Text} (hs : IsSegment s) :
    segments (s ++ '/' :: t) = s :: segments t := by
  rw [segments_append_slash, segments_segment hs]
  rfl

/-- A specifier is relative by its first segment. -/
theorem isRelative_iff {t s : Text} {rest : List Text} (h : segments t = s :: rest) :
    isRelative t = true ↔ s = ['.'] ∨ s = up ∨ s = [] ∧ rest ≠ [] := by
  constructor
  · intro hrel
    simp only [isRelative, Bool.or_eq_true, beq_iff_eq, List.isPrefixOf_iff_prefix] at hrel
    obtain (((rfl | rfl) | ⟨u, rfl⟩) | ⟨u, rfl⟩) | ⟨u, rfl⟩ := hrel
    · exact .inl (List.cons.inj ((segments_segment isSegment_dot).symm.trans h)).1.symm
    · exact .inr (.inl (List.cons.inj ((segments_segment isSegment_up).symm.trans h)).1.symm)
    · exact .inl (List.cons.inj ((segments_append u isSegment_dot).symm.trans h)).1.symm
    · exact .inr (.inl (List.cons.inj ((segments_append u isSegment_up).symm.trans h)).1.symm)
    · obtain ⟨hs, hrest⟩ := List.cons.inj ((segments_append u isSegment_nil).symm.trans h)
      exact .inr (.inr ⟨hs.symm, hrest ▸ List.splitOn_ne_nil '/' u⟩)
  · intro hs
    -- the text is its segments with separators between them
    have hjoin : t = List.intercalate ['/'] (s :: rest) := by
      rw [← h]
      exact (List.intercalate_splitOn '/').symm
    cases rest with
    | nil =>
        rw [List.intercalate_singleton] at hjoin
        obtain rfl | rfl | ⟨-, hne⟩ := hs
        · rw [hjoin]; rfl
        · rw [hjoin]; rfl
        · exact absurd rfl hne
    | cons s' rest =>
        rw [List.intercalate_cons_cons] at hjoin
        obtain rfl | rfl | ⟨rfl, -⟩ := hs
        · rw [hjoin]; rfl
        · rw [hjoin]; rfl
        · rw [hjoin]; rfl

theorem isRooted_iff {t : Text} : isRooted t = true ↔ t.head? = some '/' ∨
    ∃ (drive c : Char) (u : Text), t = drive :: ':' :: c :: u ∧ drive.isAlpha = true ∧
      isSeparator c = true := by
  unfold isRooted
  split
  · simp
  · next drive c u hslash =>
      rw [Bool.and_eq_true, List.head?_cons, Option.some.injEq]
      constructor
      · exact fun h => .inr ⟨drive, c, u, rfl, h⟩
      · rintro (hhead | ⟨drive', c', u', h, hdrive⟩)
        · exact absurd hhead hslash
        · obtain ⟨rfl, htail⟩ := List.cons.inj h
          obtain ⟨rfl, -⟩ := List.cons.inj (List.cons.inj htail).2
          exact hdrive
  · next hslash hdrive =>
      refine iff_of_false Bool.false_ne_true ?_
      rintro (hhead | ⟨drive, c, u, rfl, -⟩)
      · obtain ⟨u, rfl⟩ := List.head?_eq_some_iff.mp hhead
        exact hslash u rfl
      · exact hdrive drive c u rfl

theorem isSegment_drive {drive : Char} (h : drive.isAlpha = true) : IsSegment [drive, ':'] := by
  intro c hc
  rcases List.mem_cons.mp hc with rfl | hc
  · rw [isSeparator, Bool.or_eq_false_iff, beq_eq_false_iff_ne, beq_eq_false_iff_ne]
    constructor
    · rintro rfl
      exact absurd h (by decide)
    · rintro rfl
      exact absurd h (by decide)
  · rw [List.mem_singleton.mp hc]
    decide

namespace Place

variable {p q : Place} {s : Text}

/-! ## Spellings -/

/-- A spelling is relative from the root, with a marker, or with a level up in front. -/
theorem IsSettled.isRelative_spell (h : p.IsSettled) (marked : Bool) :
    isRelative (p.spell marked) = true ↔
      p.rooted = true ∨ marked = true ∨ p.steps.head? = some up := by
  unfold spell
  cases hrooted : p.rooted with
  | true => exact iff_of_true rfl (.inl rfl)
  | false =>
      rw [if_neg Bool.false_ne_true]
      cases marked with
      | true =>
          rw [if_pos rfl]
          refine iff_of_true ?_ (.inr (.inl rfl))
          split
          · rfl
          · rfl
      | false =>
          rw [if_neg Bool.false_ne_true]
          cases hsteps : p.steps with
          | nil => simp [isRelative]
          | cons s rest =>
              -- a step is neither empty nor `.`, so only a level up in front shows
              have hs := h.isSegment (s := s) (by rw [hsteps]; exact List.mem_cons_self)
              have hsegments := segments_intercalate (fun s hs => (h.isSegment hs).1)
                (hsteps ▸ List.cons_ne_nil s rest)
              rw [hsteps] at hsegments
              rw [isRelative_iff hsegments]
              simp [hs.2.1, hs.2.2]

/-- Whether the first step of a place is a drive, and not the last one. -/
def IsOnDrive (p : Place) : Prop :=
  ∃ (drive : Char) (s : Text) (rest : List Text), drive.isAlpha = true ∧
    p.steps = [drive, ':'] :: s :: rest

/-- A text of steps is rooted when the first of them is a drive, and not the last one. -/
theorem IsSettled.isRooted_intercalate (h : p.IsSettled) :
    isRooted (List.intercalate ['/'] p.steps) = true ↔ p.IsOnDrive := by
  have hunify := unifySeparators_intercalate fun s hs => (h.isSegment hs).1
  constructor
  · intro hrooted
    rcases isRooted_iff.mp hrooted with hhead | ⟨drive, c, t, ht, hdrive, hc⟩
    · exact absurd hhead h.head_intercalate
    · -- the separators of steps are unified
      have hslash : c = '/' := by
        simp only [isSeparator, Bool.or_eq_true, beq_iff_eq] at hc
        refine hc.resolve_right fun hback => ?_
        rw [ht, hback] at hunify
        exact absurd (List.cons.inj (List.cons.inj (List.cons.inj hunify).2).2).1 (by decide)
      have hne : p.steps ≠ [] := by
        rintro hnil
        rw [hnil] at ht
        exact absurd ht (by simp)
      have hsegments := segments_intercalate (fun s hs => (h.isSegment hs).1) hne
      rw [ht, hslash, show drive :: ':' :: '/' :: t = [drive, ':'] ++ '/' :: t from rfl,
        segments_append t (isSegment_drive hdrive)] at hsegments
      obtain ⟨s, rest, hrest⟩ := List.exists_cons_of_ne_nil (List.splitOn_ne_nil '/' t)
      exact ⟨drive, s, rest, hdrive, by rw [← hsegments, segments, hrest]⟩
  · rintro ⟨drive, s, rest, hdrive, hsteps⟩
    rw [hsteps, List.intercalate_cons_cons]
    exact isRooted_iff.mpr (.inr ⟨drive, '/', _, rfl, hdrive, rfl⟩)

/-- A spelling is rooted from the root, or on a drive without a marker. -/
theorem IsSettled.isRooted_spell (h : p.IsSettled) (marked : Bool) :
    isRooted (p.spell marked) = true ↔ p.rooted = true ∨ marked = false ∧ p.IsOnDrive := by
  unfold spell
  cases p.rooted with
  | true => exact iff_of_true rfl (.inl rfl)
  | false =>
      rw [if_neg Bool.false_ne_true]
      cases marked with
      | true =>
          rw [if_pos rfl]
          refine iff_of_false ?_ (by simp)
          split
          · decide
          · exact Bool.false_ne_true
      | false =>
          rw [if_neg Bool.false_ne_true, h.isRooted_intercalate]
          simp

/-- A text of steps begins with the first one. -/
theorem prefix_intercalate (s : Text) (rest : List Text) :
    s <+: List.intercalate ['/'] (s :: rest) := by
  cases rest with
  | nil => exact ⟨[], by rw [List.intercalate_singleton, List.append_nil]⟩
  | cons t rest =>
      rw [List.intercalate_cons_cons, List.append_assoc]
      exact List.prefix_append s _

/-- Whether the first step of a place begins like a level up, and is none. -/
def LooksUp (p : Place) : Prop :=
  ∃ (c : Char) (name : Text) (rest : List Text), p.steps = (up ++ c :: name) :: rest

/-- Two dots in front are a level up, or the first two of a name. -/
theorem IsSettled.isPrefixOf_up_iff (h : p.IsSettled) :
    List.isPrefixOf up (List.intercalate ['/'] p.steps) = true ↔
      p.steps.head? = some up ∨ p.LooksUp := by
  rw [List.isPrefixOf_iff_prefix]
  cases hsteps : p.steps with
  | nil =>
      refine iff_of_false (fun hprefix => ?_) ?_
      · exact absurd (List.prefix_nil.mp hprefix) (List.cons_ne_nil _ _)
      · rintro (hhead | ⟨c, name, rest, hlooks⟩)
        · exact absurd hhead (by simp)
        · exact absurd (hsteps.symm.trans hlooks) (List.cons_ne_nil _ _).symm
  | cons s rest =>
      obtain ⟨-, hnil, hdot⟩ := h.isSegment (s := s) (by rw [hsteps]; exact List.mem_cons_self)
      obtain ⟨u, hjoin⟩ := prefix_intercalate s rest
      rw [← hjoin, List.head?_cons, Option.some.injEq]
      constructor
      · intro hprefix
        -- the first step has one character, two that are dots, or more
        match s with
        | [] => exact absurd rfl hnil
        | [c] =>
            obtain ⟨rfl, hrest⟩ := List.cons_prefix_cons.mp hprefix
            exact absurd rfl hdot
        | c :: d :: name =>
            obtain ⟨rfl, hrest⟩ := List.cons_prefix_cons.mp hprefix
            obtain ⟨rfl, -⟩ := List.cons_prefix_cons.mp hrest
            cases name with
            | nil => exact .inl rfl
            | cons c name => exact .inr ⟨c, name, rest, hsteps⟩
      · rintro (rfl | ⟨c, name, rest', hlooks⟩)
        · exact List.prefix_append up u
        · obtain ⟨rfl, -⟩ := List.cons.inj (hsteps.symm.trans hlooks)
          rw [List.append_assoc]
          exact List.prefix_append up _

/-! ## A level up in front -/

/-- A level up in front stays there. -/
theorem Enters.head_up (h : p.Enters s q) (hp : p.steps.head? = some up) :
    q.steps.head? = some up := by
  obtain ⟨rest, hsteps⟩ := List.head?_eq_some_iff.mp hp
  cases h with
  | stay _ => exact hp
  | down _ => rw [append, hsteps, List.cons_append, List.head?_cons]
  | back hname hback =>
      have hfront : q.steps ++ [_] = up :: rest := (congrArg steps hback).symm.trans hsteps
      cases hq : q.steps with
      | nil =>
          rw [hq, List.nil_append] at hfront
          exact absurd (List.cons.inj hfront).1 hname.ne_up
      | cons t steps =>
          rw [hq, List.cons_append] at hfront
          rw [(List.cons.inj hfront).1, List.head?_cons]
  | root _ hnil => exact absurd (hsteps.symm.trans hnil) (List.cons_ne_nil _ _)
  | above _ _ => rw [append, hsteps, List.cons_append, List.head?_cons]

theorem IsSettled.head_foldl_up (h : p.IsSettled) (hp : p.steps.head? = some up)
    {segs : List Text} (hsegs : ∀ s ∈ segs, IsSegment s) :
    (segs.foldl Place.enter p).steps.head? = some up := by
  induction segs generalizing p with
  | nil => exact hp
  | cons s segs ih =>
      have hs := hsegs s List.mem_cons_self
      exact ih (h.enter hs) ((h.enters hs).head_up hp) fun x hx => hsegs x (List.mem_cons_of_mem s hx)

end Place

/-! ## Normal forms -/

/-- A relative specifier keeps its marker, or has a level up in front, if what is left of it does not
only look like one. -/
theorem keepsMarker_of_isRelative {path : Text} (h : isRelative path = true)
    (hroot : startsAtRoot path = false) (hlooks : ¬(place path).LooksUp) :
    keepsMarker path = true ∨ (place path).steps.head? = some up := by
  simp only [isRelative, Bool.or_eq_true, beq_iff_eq, List.isPrefixOf_iff_prefix] at h
  obtain (((rfl | rfl) | ⟨u, rfl⟩) | ⟨u, rfl⟩) | ⟨u, rfl⟩ := h
  · exact .inl rfl
  · exact .inr rfl
  · by_cases hsteps : (place (['.', '/'] ++ u)).steps = []
    · rw [keepsMarker_of_nil hsteps]
      exact .inl rfl
    · rw [keepsMarker_of_ne_nil hsteps]
      cases hdots : List.isPrefixOf up
          (List.intercalate ['/'] (place (['.', '/'] ++ u)).steps) with
      | true => exact .inr (((isSettled_place _).isPrefixOf_up_iff.mp hdots).resolve_right hlooks)
      | false => exact .inl rfl
  · refine .inr ?_
    have hplace : place (['.', '.', '/'] ++ u) = (place ['.', '.', '/']).along u :=
      place_append_separator up u rfl
    rw [hplace]
    exact (isSettled_place _).head_foldl_up rfl fun s hs => isSegment_of_mem_segments hs
  · exact absurd hroot (by simp [startsAtRoot, unifySeparators])

/-- A path on a drive has no marker in normal form, if it leads anywhere. -/
theorem keepsMarker_of_isRooted {path : Text} (h : isRooted path = true)
    (hroot : startsAtRoot path = false) (hsteps : (place path).steps ≠ []) :
    keepsMarker path = false := by
  rcases isRooted_iff.mp h with hhead | ⟨drive, c, u, rfl, hdrive, -⟩
  · obtain ⟨u, rfl⟩ := List.head?_eq_some_iff.mp hhead
    exact absurd hroot (by simp [startsAtRoot, unifySeparators])
  · have hmarked : isMarked (unifySeparators (drive :: ':' :: c :: u)) = false := by
      simp [isMarked, unifySeparators, List.isPrefixOf]
    rw [keepsMarker_of_ne_nil hsteps, hmarked, Bool.false_and]

/-- **Which paths keep their kind** in normal form. A relative specifier stays one, unless the first
name that is left of it begins with two dots; a path from a root stays one, if it starts with `/` or
its drive is left with something below it. -/
theorem normalize_keeps_kind_iff (path : Text) :
    (isRelative path = true → (isRelative (normalize path) = true ↔
      startsAtRoot path = true ∨ ¬(place path).LooksUp)) ∧
    (isRooted path = true → (isRooted (normalize path) = true ↔
      startsAtRoot path = true ∨ (place path).IsOnDrive)) := by
  have hsettled := isSettled_place path
  rw [normalize_eq_spell, hsettled.isRelative_spell, hsettled.isRooted_spell, rooted_place]
  cases hroot : startsAtRoot path with
  | true => simp
  | false =>
      simp only [Bool.false_eq_true, false_or]
      refine ⟨fun h => ⟨fun hkeeps hlooks => ?_, keepsMarker_of_isRelative h hroot⟩,
        fun h => ⟨And.right, fun hdrive => ⟨?_, hdrive⟩⟩⟩
      · rcases hkeeps with hkeeps | hup
        · have hdots := hsettled.isPrefixOf_up_iff.mpr (.inr hlooks)
          rw [isPrefixOf_up_of_keepsMarker hkeeps] at hdots
          exact Bool.false_ne_true hdots
        · -- a level up is no longer than its two dots
          obtain ⟨c, name, rest, hsteps⟩ := hlooks
          rw [hsteps, List.head?_cons, Option.some.injEq] at hup
          exact absurd (congrArg List.length hup) (by simp [up])
      · obtain ⟨drive, s, rest, -, hsteps⟩ := hdrive
        exact keepsMarker_of_isRooted h hroot (hsteps ▸ List.cons_ne_nil _ _)

/-- A name with one dot in front looks like no level up, and a level up on a drive need not leave it. -/
theorem normalize_keeps_kind_hidden :
    isRelative "./a/../.b".toList = true ∧ isRelative (normalize "./a/../.b".toList) = true ∧
      isRooted "C:\\a\\..\\b".toList = true ∧
      isRooted (normalize "C:\\a\\..\\b".toList) = true := by
  have hrelative : isRelative "./a/../.b".toList = true := by decide
  have hrooted : isRooted "C:\\a\\..\\b".toList = true := by decide
  refine ⟨hrelative, ((normalize_keeps_kind_iff _).1 hrelative).mpr (.inr ?_), hrooted,
    ((normalize_keeps_kind_iff _).2 hrooted).mpr (.inr ?_)⟩
  · rintro ⟨c, name, rest, hsteps⟩
    have hplace : (place "./a/../.b".toList).steps = [".b".toList] := by decide +kernel
    rw [hplace] at hsteps
    exact absurd (List.cons.inj (List.cons.inj (List.cons.inj hsteps).1).2).1 (by decide)
  · exact ⟨'C', ['b'], [], by decide, by decide +kernel⟩

/-- With two dots in front of the name the marker is lost, and the drive is lost to a level up. -/
theorem normalize_loses_kind :
    isRelative "./..a".toList = true ∧ normalize "./..a".toList = "..a".toList ∧
      isRelative "..a".toList = false ∧
      isRooted "C:/..".toList = true ∧ normalize "C:/..".toList = ".".toList ∧
      isRooted ".".toList = false := by
  decide +kernel

end ScriptSurvey.Path
