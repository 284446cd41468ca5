import ScriptSurvey.Proofs.Path.Kind

/-!
# The specifier that leads from a directory to a target

The specifier drops the steps that directory and target have in common, goes up once for each step that
is left of the directory, and down through what is left of the target. So it spells a place of its own,
the **way** from one to the other, which does not start at the root and always shows that it is relative.

Joined to the directory, a way leads to the target: each level up leaves one of the names that the
directory has to itself. A directory that is levels up itself has no names to leave; with the target
not as many levels up, no specifier leads there, and the statements here leave that case out.
-/

namespace ScriptSurvey.Path

/-! ## What two lists have in common -/

theorem exists_dropCommon (as bs : List Text) :
    ∃ common, as = common ++ (dropCommon as bs).1 ∧ bs = common ++ (dropCommon as bs).2 := by
  induction as, bs using dropCommon.induct with
  | case1 as b bs ih =>
      obtain ⟨common, has, hbs⟩ := ih
      rw [dropCommon, if_pos rfl]
      exact ⟨b :: common, congrArg (b :: ·) has, congrArg (b :: ·) hbs⟩
  | case2 a as b bs hne =>
      rw [dropCommon, if_neg hne]
      exact ⟨[], rfl, rfl⟩
  | case3 as bs hcons =>
      rw [dropCommon.eq_2 _ _ hcons]
      exact ⟨[], rfl, rfl⟩

theorem dropCommon_self (as : List Text) : dropCommon as as = ([], []) := by
  induction as with
  | nil => rfl
  | cons a as ih => rw [dropCommon, if_pos rfl, ih]

/-- Nothing is left of two lists when they are one. -/
theorem dropCommon_eq_nil_iff {as bs : List Text} :
    dropCommon as bs = ([], []) ↔ as = bs := by
  constructor
  · intro h
    obtain ⟨common, has, hbs⟩ := exists_dropCommon as bs
    rw [h, List.append_nil] at has hbs
    rw [has, hbs]
  · rintro rfl
    exact dropCommon_self as

/-- The named segments of a path are the steps to its place. -/
theorem namedSegments_eq (path : Text) : namedSegments path = (place path).steps := by
  rw [namedSegments, normalize_eq_spell, (isSettled_place path).filter_segments]

namespace Place

variable {p q : Place}

/-! ## Runs of steps -/

theorem IsSettled.of_front {rooted : Bool} {front back : List Text}
    (h : IsSettled ⟨rooted, front ++ back⟩) : IsSettled ⟨rooted, front⟩ := by
  induction back generalizing front with
  | nil => rwa [List.append_nil] at h
  | cons s back ih =>
      rw [List.append_cons] at h
      exact IsSettled.of_append (ih h)

/-- The end of settled steps is settled, with as many levels up in front as there may be. -/
theorem IsSettled.replicate_up {rooted : Bool} {front back : List Text}
    (h : IsSettled ⟨rooted, front ++ back⟩) (n : Nat) :
    IsSettled ⟨false, List.replicate n up ++ back⟩ := by
  obtain ⟨k, names, hsteps, -, hnames⟩ := h
  have hback : back =
      List.replicate (k - front.length) up ++ names.drop (front.length - k) := by
    have hdrop := congrArg (List.drop front.length) hsteps
    rwa [List.drop_left, List.drop_append, List.drop_replicate, List.length_replicate] at hdrop
  refine ⟨n + (k - front.length), names.drop (front.length - k), ?_, fun h => Bool.noConfusion h,
    fun s hs => hnames s (List.mem_of_mem_drop hs)⟩
  rw [hback, ← List.append_assoc, List.replicate_append_replicate]

/-- Steps without a level up are settled wherever they start. -/
theorem IsSettled.of_up_not_mem (h : p.IsSettled) (hup : up ∉ p.steps) (rooted : Bool) :
    IsSettled ⟨rooted, p.steps⟩ := by
  obtain ⟨k, names, hsteps, -, hnames⟩ := h
  cases k with
  | zero => exact ⟨0, names, hsteps, fun _ => rfl, hnames⟩
  | succ k =>
      rw [hsteps, List.replicate_succ, List.cons_append] at hup
      exact absurd List.mem_cons_self hup

/-- Down through steps that are settled behind a place. -/
theorem foldl_enter_append {rooted : Bool} {front back : List Text}
    (h : IsSettled ⟨rooted, front ++ back⟩) :
    back.foldl Place.enter ⟨rooted, front⟩ = ⟨rooted, front ++ back⟩ := by
  have hfold := h.foldl_enter
  rwa [List.foldl_append, h.of_front.foldl_enter] at hfold

/-- As many levels up as there are names leave all of them. -/
theorem foldl_enter_up {rooted : Bool} {front names : List Text} (h : ∀ s ∈ names, IsName s) :
    (names.map fun _ => up).foldl Place.enter ⟨rooted, front ++ names⟩ = ⟨rooted, front⟩ := by
  rw [List.map_const']
  induction names generalizing front with
  | nil => rw [List.append_nil]; rfl
  | cons s names ih =>
      -- the innermost name is the first to be left
      rw [List.length_cons, List.replicate_succ', List.foldl_append, List.append_cons,
        ih fun x hx => h x (List.mem_cons_of_mem s hx)]
      exact enter_up_append ⟨rooted, front⟩ (h s List.mem_cons_self)

/-! ## The way -/

/-- The way from one place to another: up from what the first has to itself, and down through what is
left of the other. -/
def wayTo (p q : Place) : Place :=
  ⟨false, (dropCommon p.steps q.steps).1.map (fun _ => up) ++ (dropCommon p.steps q.steps).2⟩

theorem IsSettled.wayTo (hq : q.IsSettled) (p : Place) : (p.wayTo q).IsSettled := by
  obtain ⟨rooted, steps⟩ := q
  obtain ⟨common, -, hsteps⟩ := exists_dropCommon p.steps steps
  rw [hsteps] at hq
  rw [Place.wayTo, List.map_const']
  exact hq.replicate_up _

/-- A way without steps leads from a place to itself. -/
theorem steps_wayTo_eq_nil_iff : (p.wayTo q).steps = [] ↔ p.steps = q.steps := by
  rw [wayTo, List.append_eq_nil_iff, List.map_eq_nil_iff]
  exact Prod.ext_iff.symm.trans dropCommon_eq_nil_iff

/-- **A way leads there**, if the place that it starts from has no levels up to itself. -/
theorem IsSettled.foldl_enter_wayTo (hp : p.IsSettled) (hq : IsSettled ⟨p.rooted, q.steps⟩)
    (hup : up ∉ (dropCommon p.steps q.steps).1) :
    (p.wayTo q).steps.foldl Place.enter p = ⟨p.rooted, q.steps⟩ := by
  obtain ⟨common, hsteps, htarget⟩ := exists_dropCommon p.steps q.steps
  have hnames : ∀ s ∈ (dropCommon p.steps q.steps).1, IsName s := by
    intro s hs
    obtain ⟨hsegment, hnil, hdot⟩ :=
      hp.isSegment (s := s) (by rw [hsteps]; exact List.mem_append_right common hs)
    exact ⟨hnil, hdot, fun heq => hup (heq ▸ hs), hsegment⟩
  have hstart : p = ⟨p.rooted, common ++ (dropCommon p.steps q.steps).1⟩ := by rw [← hsteps]
  rw [htarget] at hq
  calc (p.wayTo q).steps.foldl Place.enter p
      = (dropCommon p.steps q.steps).2.foldl Place.enter
          (((dropCommon p.steps q.steps).1.map fun _ => up).foldl Place.enter p) :=
        List.foldl_append
    _ = (dropCommon p.steps q.steps).2.foldl Place.enter ⟨p.rooted, common⟩ := by
        rw [← foldl_enter_up hnames, ← hstart]
    _ = ⟨p.rooted, q.steps⟩ := by
        rw [foldl_enter_append hq, ← htarget]

/-- Where no level up stands in front, a marker does. -/
theorem IsSettled.withMarker_spell (h : p.IsSettled) (hrooted : p.rooted = false)
    (hsteps : p.steps ≠ []) :
    withMarker (p.spell false) = p.spell (p.steps.head? != some up) := by
  have hrelative := h.isRelative_spell false
  rw [hrooted] at hrelative
  by_cases hup : p.steps.head? = some up
  · rw [withMarker, if_pos (hrelative.mpr (.inr (.inr hup))), hup, bne_self_eq_false]
  · have hnot : ¬isRelative (p.spell false) = true := fun hrel => by
      simpa [hup] using hrelative.mp hrel
    rw [withMarker, if_neg hnot, bne_iff_ne.mpr hup]
    simp only [spell, hrooted, hsteps, Bool.false_eq_true, if_false, if_true]

end Place

/-! ## Its specifier -/

/-- **The specifier spells the way**, with a marker where no level up stands in front. -/
theorem relativeFrom_eq_spell (start target : Text) :
    relativeFrom start target = ((place start).wayTo (place target)).spell
      (((place start).wayTo (place target)).steps.head? != some up) := by
  have hsettled := (isSettled_place target).wayTo (place start)
  have hnil := intercalate_eq_nil fun s hs => (hsettled.isSegment hs).2.1
  unfold relativeFrom
  rw [namedSegments_eq, namedSegments_eq]
  change (if (List.intercalate ['/'] ((place start).wayTo (place target)).steps).isEmpty = true
    then ['.'] else withMarker (((place start).wayTo (place target)).spell false)) = _
  split
  · next hempty =>
      rw [Place.spell, hnil.mp (List.isEmpty_iff.mp hempty)]
      rfl
  · next hempty =>
      exact hsettled.withMarker_spell rfl fun hsteps => hempty (List.isEmpty_iff.mpr (hnil.mpr hsteps))

/-- **The specifier is relative**: it has a marker or a level up in front. -/
theorem isRelative_relativeFrom (start target : Text) : isRelative (relativeFrom start target) = true := by
  have hsettled := (isSettled_place target).wayTo (place start)
  rw [relativeFrom_eq_spell, hsettled.isRelative_spell]
  by_cases hup : ((place start).wayTo (place target)).steps.head? = some up
  · exact .inr (.inr hup)
  · exact .inr (.inl (bne_iff_ne.mpr hup))

/-- A specifier is `.` for the directory itself, or what has the same steps. -/
theorem relativeFrom_eq_dot_iff {start target : Text} :
    relativeFrom start target = ['.'] ↔ namedSegments start = namedSegments target := by
  have hsettled := (isSettled_place target).wayTo (place start)
  rw [namedSegments_eq, namedSegments_eq, ← Place.steps_wayTo_eq_nil_iff, relativeFrom_eq_spell]
  constructor
  · intro hdot
    have hplace := hsettled.place_spell (((place start).wayTo (place target)).steps.head? != some up)
    rw [hdot] at hplace
    exact (congrArg Place.steps hplace).symm
  · intro hsteps
    rw [Place.spell, hsteps]
    rfl

/-- A specifier with a level up in front, or with a marker, is joined to any directory. -/
theorem isRooted_relativeFrom (start target : Text) : isRooted (relativeFrom start target) = false := by
  have hsettled := (isSettled_place target).wayTo (place start)
  rw [relativeFrom_eq_spell, ← Bool.not_eq_true, hsettled.isRooted_spell]
  rintro (hroot | ⟨hmarked, drive, s, rest, -, hsteps⟩)
  · exact Bool.noConfusion hroot
  · rw [bne_eq_false_iff_eq, hsteps, List.head?_cons, Option.some.injEq] at hmarked
    exact absurd (List.cons.inj (List.cons.inj hmarked).2).1 (by decide)

/-- **Joined to the directory, the specifier leads to the target**, if the steps that the directory has
to itself are names. -/
theorem place_combine_relativeFrom {start target : Text}
    (htarget : Place.IsSettled ⟨startsAtRoot start, (place target).steps⟩)
    (hup : up ∉ (dropCommon (place start).steps (place target).steps).1) :
    place (combine start (relativeFrom start target)) =
      ⟨startsAtRoot start, (place target).steps⟩ := by
  have hsettled := (isSettled_place target).wayTo (place start)
  have hway := (isSettled_place start).foldl_enter_wayTo htarget hup
  by_cases hstart : start = []
  · -- to no directory nothing is joined
    subst hstart
    have hcombine : combine [] (relativeFrom [] target) = relativeFrom [] target := by
      rw [combine, List.isEmpty_nil, Bool.or_true, if_pos rfl]
    rw [hcombine, relativeFrom_eq_spell, hsettled.place_spell]
    rfl
  · rw [place_combine hstart (isRooted_relativeFrom start target), relativeFrom_eq_spell,
      hsettled.along_spell]
    exact hway

/-- From the root there is no level up. -/
theorem up_not_mem_of_startsAtRoot {path : Text} (h : startsAtRoot path = true) :
    up ∉ (place path).steps := by
  obtain ⟨k, names, hsteps, hroot, hnames⟩ := isSettled_place path
  rw [hsteps, hroot h, List.replicate_zero, List.nil_append]
  exact fun hup => (hnames up hup).ne_up rfl

theorem place_combine_relativeFrom_of_up_not_mem {start target : Text}
    (hstart : up ∉ (place start).steps) (htarget : up ∉ (place target).steps) :
    place (combine start (relativeFrom start target)) =
      ⟨startsAtRoot start, (place target).steps⟩ := by
  refine place_combine_relativeFrom ((isSettled_place target).of_up_not_mem htarget _)
    fun hup => hstart ?_
  obtain ⟨common, hsteps, -⟩ := exists_dropCommon (place start).steps (place target).steps
  exact hsteps ▸ List.mem_append_right common hup

/-- Two paths that start at the root lead to one place when they have the same steps. -/
theorem place_combine_relativeFrom_of_root {start target : Text} (hstart : startsAtRoot start = true)
    (htarget : startsAtRoot target = true) :
    place (combine start (relativeFrom start target)) = place target := by
  rw [place_combine_relativeFrom_of_up_not_mem (up_not_mem_of_startsAtRoot hstart)
    (up_not_mem_of_startsAtRoot htarget), hstart, ← htarget]
  rfl

/-- From the root, a normal form spells the place and has no marker. -/
theorem normalize_eq_of_place_eq {path path' : Text} (h : place path = place path')
    (hroot : startsAtRoot path' = true) : normalize path = normalize path' := by
  rw [normalize_eq_spell, normalize_eq_spell, h, Place.spell, Place.spell, rooted_place, hroot]
  rfl

/-- The specifier depends on no more than the places of directory and target. -/
theorem relativeFrom_congr {start target target' : Text}
    (h : (place target).steps = (place target').steps) :
    relativeFrom start target = relativeFrom start target' := by
  rw [relativeFrom_eq_spell, relativeFrom_eq_spell, Place.wayTo, Place.wayTo, h]

/-- **A specifier can be made anew for another directory**, if neither directory nor target climbs above
where it starts, be that the root, a drive or nowhere in particular. -/
theorem relativeFrom_normalize_combine {start target : Text} (other : Text)
    (hstart : up ∉ namedSegments start) (htarget : up ∉ namedSegments target) :
    relativeFrom other (normalize (combine start (relativeFrom start target))) =
      relativeFrom other target := by
  rw [namedSegments_eq] at hstart htarget
  refine relativeFrom_congr ?_
  rw [place_normalize, place_combine_relativeFrom_of_up_not_mem hstart htarget]

/-- **Going to a target by its specifier.** From a directory that starts with a separator to a target that
does, the specifier joined to the directory leads to the target. It is always relative, and `.` for what has
the same steps; and it can be made anew for another directory, also where paths start at a drive or nowhere,
as long as no level up is left over in them. -/
theorem relativeFrom_inverts_combine :
    (∀ start target : Text, startsAtRoot start = true → startsAtRoot target = true →
      normalize (combine start (relativeFrom start target)) = normalize target) ∧
    (∀ start target : Text, isRelative (relativeFrom start target) = true ∧
      isRooted (relativeFrom start target) = false ∧
      (relativeFrom start target = ['.'] ↔ namedSegments start = namedSegments target)) ∧
    (∀ start other target : Text, startsAtRoot start = true → startsAtRoot target = true →
      relativeFrom other (normalize (combine start (relativeFrom start target))) =
        relativeFrom other target) ∧
    ∀ start other target : Text, up ∉ namedSegments start → up ∉ namedSegments target →
      relativeFrom other (normalize (combine start (relativeFrom start target))) =
        relativeFrom other target := by
  refine ⟨fun start target hstart htarget => ?_, fun start target => ?_,
    fun start other target hstart htarget => ?_,
    fun _ other _ hstart htarget => relativeFrom_normalize_combine other hstart htarget⟩
  · exact normalize_eq_of_place_eq (place_combine_relativeFrom_of_root hstart htarget) htarget
  · exact ⟨isRelative_relativeFrom start target, isRooted_relativeFrom start target,
      relativeFrom_eq_dot_iff⟩
  · refine relativeFrom_normalize_combine other ?_ ?_
    · exact namedSegments_eq start ▸ up_not_mem_of_startsAtRoot hstart
    · exact namedSegments_eq target ▸ up_not_mem_of_startsAtRoot htarget

/-- Two names are left, and the way goes down to another one; the same on a drive. -/
theorem relativeFrom_inverts_combine_respelled :
    startsAtRoot "\\src//a/./b".toList = true ∧ startsAtRoot "/src/../src/c".toList = true ∧
      relativeFrom "\\src//a/./b".toList "/src/../src/c".toList = "../../c".toList ∧
      normalize (combine "\\src//a/./b".toList
        (relativeFrom "\\src//a/./b".toList "/src/../src/c".toList)) = "/src/c".toList ∧
      relativeFrom "/x".toList (normalize (combine "\\src//a/./b".toList
        (relativeFrom "\\src//a/./b".toList "/src/../src/c".toList))) = "../src/c".toList ∧
      up ∉ namedSegments "C:/a/b".toList ∧ up ∉ namedSegments "C:\\a\\..\\c".toList ∧
      relativeFrom "C:/".toList (normalize (combine "C:/a/b".toList
        (relativeFrom "C:/a/b".toList "C:\\a\\..\\c".toList))) = "./c".toList := by
  have hstart : startsAtRoot "\\src//a/./b".toList = true := by decide
  have htarget : startsAtRoot "/src/../src/c".toList = true := by decide
  have hdriveStart : up ∉ namedSegments "C:/a/b".toList := by decide +kernel
  have hdriveTarget : up ∉ namedSegments "C:\\a\\..\\c".toList := by decide +kernel
  obtain ⟨hjoined, -, hagain, hdrive⟩ := relativeFrom_inverts_combine
  exact ⟨hstart, htarget, by decide +kernel,
    (hjoined _ _ hstart htarget).trans (by decide +kernel),
    (hagain _ _ _ hstart htarget).trans (by decide +kernel), hdriveStart, hdriveTarget,
    (hdrive _ _ _ hdriveStart hdriveTarget).trans (by decide +kernel)⟩

end ScriptSurvey.Path
