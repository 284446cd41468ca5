import ScriptSurvey.Proofs.Plan.Modules
import ScriptSurvey.Proofs.Resolution.Settled
import ScriptSurvey.Proofs.Survey.Files

/-!
# Every relative import is accounted for

A survey looks for each path that a relative import means, once, and tells what came of it. The path
of a record is where its file stands in the outcome, and the file is where its module stands in the
plan. So an import is nowhere lost and nowhere counted twice, whatever the lister answers and however
many files share a module or a path (`Accounts`).
-/

namespace ScriptSurvey

/-! ## Paths by declaration -/

namespace SourceFile

variable (settings : Settings) (f : SourceFile)

/-- The import declarations of a source. -/
def declarations : List Declaration :=
  if Path.hasExtension settings.styleExtensions f.path then styleDeclarations f.text
  else scriptDeclarations f.text

/-- Whether a module that a source imports is a package or a network location. -/
def isExternal (module : Text) : Bool :=
  if Path.hasExtension settings.styleExtensions f.path then Path.isNetwork module
  else !Path.isRelative module

/-- The path that a module means in a source, if it is relative and the path of the source is
known. -/
def meant? (module : Text) : Option Text :=
  if f.isExternal settings module || f.path.isEmpty then none
  else some (Path.resolveFrom f.path module)

/-- The paths that the relative imports of a source mean, declaration by declaration. -/
def meant : List Text :=
  (f.declarations settings).filterMap fun d => f.meant? settings d.module

end SourceFile

@[simp] theorem ImportRecord.isRelative_attach (path : Text) (r : ImportRecord) :
    (r.attach path).isRelative = r.isRelative := by
  unfold attach
  split <;> rfl

@[simp] theorem ImportRecord.absolute?_attach (path : Text) (r : ImportRecord) :
    (r.attach path).absolute? = r.absolute? := by
  unfold attach
  split <;> rfl

namespace FileSurvey

/-- The records of a source are those of its declarations. -/
theorem exists_records_ofSource (settings : Settings) (source : SourceFile) :
    ∃ grammar, (ofSource settings source).imports.records =
      ((source.declarations settings).map (·.module)).eraseDups.map
        (FileImports.recordOf source.path grammar (source.isExternal settings)
          (source.declarations settings)) := by
  unfold ofSource readImports SourceFile.declarations SourceFile.isExternal
  split
  · exact ⟨.style, congrArg FileImports.records
      (FileImports.records_foldl_add source.path .style Path.isNetwork _)⟩
  · exact ⟨.script, congrArg FileImports.records
      (FileImports.records_foldl_add source.path .script (fun m => !Path.isRelative m) _)⟩

/-- **The paths of a file's records** are those of its declarations, in the same order, once they
stand without repetitions. -/
theorem eraseDups_specifiers (settings : Settings) (source : SourceFile) :
    (ofSource settings source).specifiers.eraseDups = (source.meant settings).eraseDups := by
  obtain ⟨grammar, hrecords⟩ := exists_records_ofSource settings source
  have hspecifiers : (ofSource settings source).specifiers =
      ((source.declarations settings).map (·.module)).eraseDups.filterMap
        (source.meant? settings) := by
    unfold specifiers FileImports.relative
    rw [hrecords, List.filterMap_filter, List.filterMap_map]
    refine List.filterMap_congr fun module _ => ?_
    -- an external module means no path
    unfold SourceFile.meant?
    cases hexternal : source.isExternal settings module <;>
      simp [FileImports.recordOf, ImportRecord.addAll, FileImports.start, ImportRecord.empty,
        ImportRecord.isRelative, hexternal]
  rw [hspecifiers, eraseDups_filterMap_eraseDups, List.filterMap_map]
  rfl

/-- Attaching files leaves the paths as they are. -/
theorem specifiers_attach (resolution : Resolution) (f : FileSurvey) :
    (f.attach resolution).specifiers = f.specifiers := by
  unfold specifiers FileImports.relative attach
  rw [List.filterMap_filter, List.filterMap_filter, List.filterMap_map]
  refine List.filterMap_congr fun r _ => ?_
  rw [Function.comp_apply]
  split
  · rw [ImportRecord.isRelative_attach, ImportRecord.absolute?_attach]
  · rfl

theorem mem_specifiers_iff {f : FileSurvey} {s : Text} :
    s ∈ f.specifiers ↔ ∃ r ∈ f.imports.relative, r.absolute? = some s :=
  List.mem_filterMap

end FileSurvey

/-! ## The survey -/

namespace Survey

/-- What a survey of some sources tells of their imports. -/
structure Accounts (settings : Settings) (sources : List SourceFile) (v : Survey) : Prop where
  /-- The files are the sources. -/
  files : v.files.map (·.path) = sources.map (·.path)
  /-- No path is found twice, none is missed twice, and none is both found and missed. -/
  once : (v.resolution.foundSpecifiers ++ v.resolution.missingSpecifiers).Nodup
  /-- The paths that are found or missed are those of the relative records. -/
  all : ∀ s, s ∈ v.resolution.foundSpecifiers ∨ s ∈ v.resolution.missingSpecifiers ↔
    ∃ f ∈ v.files, ∃ r ∈ f.imports.relative, r.absolute? = some s
  /-- They are also those of the declarations. -/
  declared : ∀ s, s ∈ v.resolution.foundSpecifiers ∨ s ∈ v.resolution.missingSpecifiers ↔
    ∃ source ∈ sources, s ∈ source.meant settings
  /-- The paths that are found stand in the order in which they first come up. -/
  found : v.resolution.foundSpecifiers.Sublist (sources.flatMap (·.meant settings)).eraseDups
  /-- So do those that are missed. -/
  missing : v.resolution.missingSpecifiers.Sublist (sources.flatMap (·.meant settings)).eraseDups
  /-- A path that is missed has no file. -/
  unresolved : ∀ s ∈ v.resolution.missingSpecifiers, v.resolution.get? s = none
  /-- A relative record has the file of its path, if it has a path and that has a file. -/
  relative : ∀ f ∈ v.files, ∀ r ∈ f.imports.relative,
    r.resolved? = r.absolute?.bind fun s => v.resolution.get? s
  /-- An external record has neither. -/
  external : ∀ f ∈ v.files, ∀ r ∈ f.imports.external, r.absolute? = none ∧ r.resolved? = none
  /-- The modules of the plan are those of the records that bind a name or stand for their effects,
  each by its file, else by its path, else as it is written. -/
  modules : ∀ path, (∃ m ∈ v.plan.modules, m.module = path) ↔
    ∃ f ∈ v.files, ∃ r ∈ f.imports.records, (r.runtimeBindings ≠ [] ∨ r.sideEffect = true) ∧
      path = (r.resolved?.or r.absolute?).getD r.module
  /-- The bindings of a record are those of that module. -/
  names : ∀ f ∈ v.files, ∀ r ∈ f.imports.records, ∀ b ∈ r.runtimeBindings,
    ∃ n, v.plan.localName? ((r.resolved?.or r.absolute?).getD r.module) b = some n

section

variable {settings : Settings} {sources : List SourceFile} {resolution : Resolution}

/-- The paths that are looked for are those of the relative records of all files. -/
theorem mem_specifiers_complete {s : Text} :
    s ∈ (sources.map (FileSurvey.ofSource settings)).flatMap (·.specifiers) ↔
      ∃ f ∈ (complete settings (sources.map (FileSurvey.ofSource settings)) resolution).files,
        ∃ r ∈ f.imports.relative, r.absolute? = some s := by
  rw [List.mem_flatMap]
  constructor
  · rintro ⟨f, hf, hs⟩
    rw [← FileSurvey.specifiers_attach resolution] at hs
    exact ⟨_, List.mem_map_of_mem hf, FileSurvey.mem_specifiers_iff.mp hs⟩
  · rintro ⟨f, hf, hs⟩
    obtain ⟨f, hmem, rfl⟩ := List.mem_map.mp hf
    rw [← FileSurvey.mem_specifiers_iff, FileSurvey.specifiers_attach] at hs
    exact ⟨f, hmem, hs⟩

/-- They are those of the declarations of all sources, in the same order. -/
theorem eraseDups_specifiers_sources (settings : Settings) (sources : List SourceFile) :
    ((sources.map (FileSurvey.ofSource settings)).flatMap (·.specifiers)).eraseDups =
      (sources.flatMap (·.meant settings)).eraseDups := by
  rw [List.flatMap_map]
  exact eraseDups_flatMap_congr fun source _ => FileSurvey.eraseDups_specifiers settings source

section

variable {f : FileSurvey} {r : ImportRecord}
  (hf : f ∈ (complete settings (sources.map (FileSurvey.ofSource settings)) resolution).files)

include hf

/-- The records of a survey have what the resolution has for their paths. -/
theorem isAttachedIn_complete (hr : r ∈ f.imports.records) :
    r.IsAttachedIn (fun s => resolution.get? s) f.path := by
  obtain ⟨_, hmem, rfl⟩ := List.mem_map.mp hf
  obtain ⟨source, -, rfl⟩ := List.mem_map.mp hmem
  exact FileSurvey.isAttachedIn_attach (fun _ _ => rfl) hr

theorem eq_none_of_external (hr : r ∈ f.imports.external) :
    r.absolute? = none ∧ r.resolved? = none := by
  obtain ⟨hr, hexternal⟩ := List.mem_filter.mp hr
  have hattached := isAttachedIn_complete hf hr
  have habsolute : r.absolute? = none := by
    rw [hattached.absolute?, hexternal, Bool.true_or, if_pos rfl]
  exact ⟨habsolute, by rw [hattached.resolved?, habsolute, Option.bind_none]⟩

theorem isKept_located_iff (hr : r ∈ f.imports.records) :
    r.located.IsKept ↔ r.runtimeBindings ≠ [] ∨ r.sideEffect = true := by
  have hnamed : r.located.IsNamed := (isAttachedIn_complete hf hr).named
  refine ⟨?_, hnamed.isKept⟩
  rintro (heffect | ⟨b, hb, -⟩)
  · exact .inr heffect
  · exact .inl (List.ne_nil_of_mem hb)

/-- The record is among those that the plan is made of. -/
theorem mem_located_complete (hr : r ∈ f.imports.records) :
    r.located ∈ (complete settings (sources.map (FileSurvey.ofSource settings))
      resolution).files.flatMap fun f => f.imports.records.map ImportRecord.located :=
  List.mem_flatMap.mpr ⟨f, hf, List.mem_map_of_mem hr⟩

end

/-- **The modules of the plan** are the located modules of the records that are kept. -/
theorem mem_modules_complete {path : Text} :
    (∃ m ∈ (complete settings (sources.map (FileSurvey.ofSource settings)) resolution).plan.modules,
        m.module = path) ↔
      ∃ f ∈ (complete settings (sources.map (FileSurvey.ofSource settings)) resolution).files,
        ∃ r ∈ f.imports.records, (r.runtimeBindings ≠ [] ∨ r.sideEffect = true) ∧
          path = r.located.module := by
  refine (mem_modules_consolidate _).trans ?_
  constructor
  · rintro ⟨_, hmem, rfl, hkept⟩
    obtain ⟨f, hf, hlocated⟩ := List.mem_flatMap.mp hmem
    obtain ⟨r, hr, rfl⟩ := List.mem_map.mp hlocated
    exact ⟨f, hf, r, hr, (isKept_located_iff hf hr).mp hkept, rfl⟩
  · rintro ⟨f, hf, r, hr, hkept, rfl⟩
    exact ⟨r.located, mem_located_complete hf hr, rfl, (isKept_located_iff hf hr).mpr hkept⟩

/-- **A survey accounts for all imports** once its paths are settled. -/
theorem accounts_complete
    (h : resolution.Settles
      ((sources.map (FileSurvey.ofSource settings)).flatMap (·.specifiers)).eraseDups) :
    Accounts settings sources
      (complete settings (sources.map (FileSurvey.ofSource settings)) resolution) := by
  have honce : (resolution.foundSpecifiers ++ resolution.missingSpecifiers).Nodup :=
    h.each.nodup_iff.mpr (nodup_eraseDups _)
  have hmem (s : Text) : s ∈ resolution.foundSpecifiers ∨ s ∈ resolution.missingSpecifiers ↔
      s ∈ (sources.map (FileSurvey.ofSource settings)).flatMap (·.specifiers) := by
    rw [← List.mem_append, h.each.mem_iff, List.mem_eraseDups]
  -- what was asked for in the batch is what the files of the sources declare
  rw [eraseDups_specifiers_sources] at h
  refine
    { files := ?_
      once := honce
      all := fun s => (hmem s).trans mem_specifiers_complete
      declared := fun s => (hmem s).trans ?_
      found := h.found
      missing := h.missing
      unresolved := fun s hs => Resolution.get?_eq_none fun hfound =>
        (List.nodup_append.mp honce).2.2 s hfound s hs rfl
      relative := fun f hf r hr =>
        (isAttachedIn_complete hf (List.mem_of_mem_filter hr)).resolved?
      external := fun f hf r hr => eq_none_of_external hf hr
      modules := fun path => mem_modules_complete
      names := fun f hf r hr b hb => ?_ }
  · change ((sources.map _).map _).map _ = _
    rw [List.map_map, List.map_map]
    rfl
  · rw [← List.mem_eraseDups, eraseDups_specifiers_sources, List.mem_eraseDups,
      List.mem_flatMap]
  · have hblank := (isAttachedIn_complete hf hr).named b (List.mem_of_mem_filter hb)
    exact (exists_localName?_consolidate (namingRules settings) (mem_located_complete hf hr) hb
      hblank).1

end

/-- **Every relative import is accounted for exactly once**, whatever the lister answers. -/
theorem accounts_run {σ : Type} (settings : Settings) (lister : Lister (StateM σ))
    (sources : List SourceFile) (s : σ) :
    Accounts settings sources ((run settings lister sources).run s).1 :=
  accounts_complete (settles_resolveMany (probeOrder settings) lister _ s)

end Survey

end ScriptSurvey
