import ScriptSurvey.Proofs.Plan.Modules
import ScriptSurvey.Proofs.Survey.Files

/-!
# One file, one module

In the plan of a survey a module goes by the path of its file. Two records whose paths lead to the
same file share one module, whichever importers and routes they come from, as long as the two paths
agree about the marker `./` in front. A path has that marker when the path of its importer has it, or
when the importer lies in no directory, so two importers can disagree; then the file has two modules.
-/

namespace ScriptSurvey

open ScriptSurvey.Path

/-! ## Records with one path -/

/-- What two records share in a plan. -/
structure Plan.Shares (r₁ r₂ : ImportRecord) (p : Plan) : Prop where
  /-- Their modules go by one path. -/
  path : r₁.module = r₂.module
  /-- The plan has one module of that path, with one entry in the table if it has names. -/
  module : ∃ m, p.modules.filter (·.module == r₁.module) = [m] ∧
    (p.tableEntries.filter (·.1 == r₁.module)).length = (if m.hasBindings then 1 else 0) ∧
    (r₁.runtimeBindings ≠ [] ∨ r₂.runtimeBindings ≠ [] → m.hasBindings = true)
  /-- A binding of both has one local name. -/
  names : ∀ b ∈ r₁.runtimeBindings, b ∈ r₂.runtimeBindings →
    ∃ n, p.localName? r₁.module b = some n ∧ p.localName? r₂.module b = some n

section

variable (rules : NamingRules) {records : List ImportRecord} {r₁ r₂ : ImportRecord}

/-- **Two records of one path share its module.** -/
theorem shares_consolidate (h₁ : r₁ ∈ records) (h₂ : r₂ ∈ records) (hnamed₁ : r₁.IsNamed)
    (hnamed₂ : r₂.IsNamed) (hkept : r₁.IsKept) (hpath : r₁.module = r₂.module) :
    (consolidate rules records).Shares r₁ r₂ := by
  refine ⟨hpath, ?_, ?_⟩
  · obtain ⟨m, hm, hmodule⟩ := exists_module_of_isKept rules h₁ hkept
    refine ⟨m, ?_, ?_, ?_⟩
    · rw [← hmodule]
      exact filter_module_eq (nodup_modules_consolidate rules) hm
    · rw [← hmodule]
      exact length_tableEntries (nodup_modules_consolidate rules) hm
    · rintro (hbindings | hbindings)
      · exact hasBindings_of_runtimeBindings rules h₁ hnamed₁ hbindings hm hmodule
      · exact hasBindings_of_runtimeBindings rules h₂ hnamed₂ hbindings hm (hmodule.trans hpath)
  · intro b hb _
    obtain ⟨⟨n, hn⟩, -⟩ := exists_localName?_consolidate rules h₁ hb (hnamed₁.runtime hb)
    exact ⟨n, hn, hpath ▸ hn⟩

end

/-! ## Paths of one file -/

namespace Survey

variable {settings : Settings} {paths : List Text} {sources : List SourceFile}

/-- **The file of a record** goes by a spelling of its place, which has steps. -/
theorem exists_spell_of_resolved {f : FileSurvey}
    (hf : f ∈ (runWith settings (FileTree.ofFiles paths).lister sources).files) {r : ImportRecord}
    (hr : r ∈ f.imports.records) {path : Text} (hpath : r.resolved? = some path) :
    ∃ (p : Place) (marked : Bool), path = p.spell marked ∧ p.IsSettled ∧ p.steps ≠ [] := by
  have hattached := isAttachedIn_of_mem_files (FileTree.ofFiles paths).isKeyed_lister hf hr
  have hfound := found_eq_some.mp (hattached.found_eq hpath)
  rw [resolveFrom] at hfound
  obtain ⟨marked, hspell⟩ := exists_normalize (combine (directory (unifySeparators f.path)) r.module)
  rw [hspell] at hfound
  obtain ⟨p, hp, hsteps, file, -, hfile⟩ := exists_spell_of_resolveWith (isSettled_place _) hfound
  exact ⟨p, marked, hp, hfile ▸ isSettled_place file, hsteps⟩

/-- **Two paths of one file are the same** exactly when they agree about the marker. -/
theorem eq_iff_isMarked_eq {f₁ f₂ : FileSurvey}
    (hf₁ : f₁ ∈ (runWith settings (FileTree.ofFiles paths).lister sources).files)
    (hf₂ : f₂ ∈ (runWith settings (FileTree.ofFiles paths).lister sources).files)
    {r₁ r₂ : ImportRecord} (hr₁ : r₁ ∈ f₁.imports.records) (hr₂ : r₂ ∈ f₂.imports.records)
    {path₁ path₂ : Text} (hpath₁ : r₁.resolved? = some path₁) (hpath₂ : r₂.resolved? = some path₂)
    (hfile : Listings.key path₁ = Listings.key path₂) :
    path₁ = path₂ ↔ isMarked path₁ = isMarked path₂ := by
  refine ⟨fun h => by rw [h], fun hmarked => ?_⟩
  obtain ⟨p₁, marked₁, rfl, hp₁, hsteps₁⟩ := exists_spell_of_resolved hf₁ hr₁ hpath₁
  obtain ⟨p₂, marked₂, rfl, hp₂, hsteps₂⟩ := exists_spell_of_resolved hf₂ hr₂ hpath₂
  have hplace := key_eq_key.mp hfile
  rw [hp₁.place_spell, hp₂.place_spell] at hplace
  subst hplace
  rw [isMarked_spell hp₁ hsteps₁, isMarked_spell hp₁ hsteps₁] at hmarked
  cases hrooted : p₁.rooted with
  | true =>
      unfold Place.spell
      rw [hrooted, if_pos rfl, if_pos rfl]
  | false =>
      rw [hrooted, Bool.not_false, Bool.true_and, Bool.true_and] at hmarked
      rw [hmarked]

/-- The record under its file's path is among those of the plan. -/
theorem mem_located {f : FileSurvey}
    (hf : f ∈ (runWith settings (FileTree.ofFiles paths).lister sources).files) {r : ImportRecord}
    (hr : r ∈ f.imports.records) :
    r.located ∈ (runWith settings (FileTree.ofFiles paths).lister sources).files.flatMap fun f =>
      f.imports.records.map ImportRecord.located :=
  List.mem_flatMap.mpr ⟨f, hf, List.mem_map_of_mem hr⟩

theorem module_located {r : ImportRecord} {path : Text} (h : r.resolved? = some path) :
    r.located.module = path := by
  unfold ImportRecord.located
  rw [h]
  rfl

/-- **Two records of one file** in a survey share its module when their paths agree about the marker;
when they do not, the file has two modules. -/
theorem shares_of_same_file {f₁ f₂ : FileSurvey}
    (hf₁ : f₁ ∈ (runWith settings (FileTree.ofFiles paths).lister sources).files)
    (hf₂ : f₂ ∈ (runWith settings (FileTree.ofFiles paths).lister sources).files)
    {r₁ r₂ : ImportRecord} (hr₁ : r₁ ∈ f₁.imports.records) (hr₂ : r₂ ∈ f₂.imports.records)
    (hkept₁ : r₁.runtimeBindings ≠ [] ∨ r₁.sideEffect = true)
    (hkept₂ : r₂.runtimeBindings ≠ [] ∨ r₂.sideEffect = true)
    {path₁ path₂ : Text} (hpath₁ : r₁.resolved? = some path₁) (hpath₂ : r₂.resolved? = some path₂)
    (hfile : Listings.key path₁ = Listings.key path₂) :
    (isMarked path₁ = isMarked path₂ →
      (runWith settings (FileTree.ofFiles paths).lister sources).plan.Shares r₁.located r₂.located) ∧
    (isMarked path₁ ≠ isMarked path₂ →
      path₁ ≠ path₂ ∧ ∀ path ∈ [path₁, path₂],
        ∃ m ∈ (runWith settings (FileTree.ofFiles paths).lister sources).plan.modules,
          m.module = path) := by
  have hkeyed := (FileTree.ofFiles paths).isKeyed_lister
  have hnamed₁ : r₁.located.IsNamed := (isAttachedIn_of_mem_files hkeyed hf₁ hr₁).named
  have hnamed₂ : r₂.located.IsNamed := (isAttachedIn_of_mem_files hkeyed hf₂ hr₂).named
  -- paths of one file in normal form differ in no more than the marker
  have hiff := eq_iff_isMarked_eq hf₁ hf₂ hr₁ hr₂ hpath₁ hpath₂ hfile
  rw [plan_runWith]
  constructor
  · intro hmarked
    refine shares_consolidate _ (mem_located hf₁ hr₁) (mem_located hf₂ hr₂) hnamed₁ hnamed₂
      (hnamed₁.isKept hkept₁) ?_
    rw [module_located hpath₁, module_located hpath₂]
    exact hiff.mpr hmarked
  · intro hmarked
    refine ⟨fun h => hmarked (hiff.mp h), ?_⟩
    intro path hpath
    rcases List.mem_pair.mp hpath with rfl | rfl
    · rw [← module_located hpath₁]
      exact exists_module_of_isKept _ (mem_located hf₁ hr₁) (hnamed₁.isKept hkept₁)
    · rw [← module_located hpath₂]
      exact exists_module_of_isKept _ (mem_located hf₂ hr₂) (hnamed₂.isKept hkept₂)

/-- A file that two importers reach from different directories, neither by a path with a marker. -/
theorem shares_of_two_directories :
    ∃ survey, survey = runWith Settings.standard (FileTree.ofFiles ["src/util.ts".toList]).lister
        [⟨"src/a.ts".toList, "import x from './util'".toList⟩,
          ⟨"src/in/b.ts".toList, "import x from '../util'".toList⟩] ∧
      ∃ f₁ ∈ survey.files, ∃ f₂ ∈ survey.files, ∃ r₁ ∈ f₁.imports.records,
        ∃ r₂ ∈ f₂.imports.records, f₁.path ≠ f₂.path ∧ survey.plan.Shares r₁.located r₂.located := by
  refine ⟨_, rfl, ?_⟩
  have hrecords : ∃ survey, survey = runWith Settings.standard
        (FileTree.ofFiles ["src/util.ts".toList]).lister
        [⟨"src/a.ts".toList, "import x from './util'".toList⟩,
          ⟨"src/in/b.ts".toList, "import x from '../util'".toList⟩] ∧
      ∃ f₁ ∈ survey.files, ∃ f₂ ∈ survey.files, ∃ r₁ ∈ f₁.imports.records,
        ∃ r₂ ∈ f₂.imports.records, f₁.path ≠ f₂.path ∧
          (r₁.runtimeBindings ≠ [] ∨ r₁.sideEffect = true) ∧
          (r₂.runtimeBindings ≠ [] ∨ r₂.sideEffect = true) ∧
          r₁.resolved? = some "src/util.ts".toList ∧ r₂.resolved? = some "src/util.ts".toList := by
    refine ⟨_, rfl, ?_⟩
    decide +kernel
  obtain ⟨_, rfl, f₁, hf₁, f₂, hf₂, r₁, hr₁, r₂, hr₂, hne, hkept₁, hkept₂, hpath₁, hpath₂⟩ := hrecords
  exact ⟨f₁, hf₁, f₂, hf₂, r₁, hr₁, r₂, hr₂, hne,
    (shares_of_same_file hf₁ hf₂ hr₁ hr₂ hkept₁ hkept₂ hpath₁ hpath₂ rfl).1 rfl⟩

/-- A file that one importer reaches by a path with a marker, and another by a path without one, has
two modules with an entry each, and a binding of both has two names. -/
theorem two_modules_of_one_file :
    ∃ survey, survey = runWith Settings.standard (FileTree.ofFiles ["util.ts".toList]).lister
        [⟨"main.ts".toList, "import x from './util'".toList⟩,
          ⟨"src/b.ts".toList, "import x from '../util'".toList⟩] ∧
      (survey.files.map fun f => f.imports.records.map fun r => (r.resolved?, r.runtimeBindings)) =
        [[(some "./util.ts".toList, [⟨"x".toList, .default, none, false⟩])],
          [(some "util.ts".toList, [⟨"x".toList, .default, none, false⟩])]] ∧
      Listings.key "./util.ts".toList = Listings.key "util.ts".toList ∧
      (survey.plan.modules.filter fun m =>
        Listings.key m.module == Listings.key "util.ts".toList).length = 2 ∧
      (survey.plan.tableEntries.filter fun e =>
        Listings.key e.1 == Listings.key "util.ts".toList).length = 2 ∧
      survey.plan.localName? "./util.ts".toList ⟨"x".toList, .default, none, false⟩ ≠
        survey.plan.localName? "util.ts".toList ⟨"x".toList, .default, none, false⟩ := by
  refine ⟨_, rfl, ?_, ?_, ?_, ?_, ?_⟩ <;> decide +kernel

end Survey

end ScriptSurvey
