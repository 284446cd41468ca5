import ScriptSurvey.Proofs.Import.Records
import ScriptSurvey.Proofs.Resolution.Found
import ScriptSurvey.Survey

/-!
# The files of a survey

Each file of a survey is one of the sources, and each of its records is one that was read in that
source, with what its path resolves to. So what holds of a single specifier holds of the records of
a survey, whatever other files and imports there are.
-/

namespace ScriptSurvey

/-- What holds of a record of a survey, given the file that it comes from and what paths resolve
to. -/
structure ImportRecord.IsAttachedIn (found : Text → Option Text) (importer : Text)
    (r : ImportRecord) : Prop where
  /-- A module that is not external is looked for from the file, if that is known. -/
  absolute? : r.absolute? =
    if r.isExternal || importer.isEmpty then none else some (Path.resolveFrom importer r.module)
  /-- The file of the module is what its path resolves to. -/
  resolved? : r.resolved? = r.absolute?.bind found
  /-- No name is blank. -/
  named : ∀ b ∈ r.bindings, b.isBlank = false

/-- Where a module was found, it is the file that its path resolves to. -/
theorem ImportRecord.IsAttachedIn.found_eq {found : Text → Option Text} {importer path : Text}
    {r : ImportRecord} (h : r.IsAttachedIn found importer) (hr : r.resolved? = some path) :
    found (Path.resolveFrom importer r.module) = some path := by
  have hpath := h.resolved?
  rw [hr, h.absolute?] at hpath
  split at hpath
  · exact absurd hpath (by simp)
  · exact hpath.symm

namespace FileSurvey

variable {settings : Settings} {source : SourceFile} {resolution : Resolution}
  {found : Text → Option Text}

/-- A file without an extra look: its records are those of the text. -/
theorem isReadIn_ofSource {r : ImportRecord} (h : r ∈ (ofSource settings source).imports.records) :
    r.IsReadIn source.path :=
  isReadIn_of_mem_readImports h

/-- A record's path is among the specifiers of its file. -/
theorem mem_specifiers {f : FileSurvey} {r : ImportRecord} {importer s : Text}
    (hr : r ∈ f.imports.records) (hread : r.IsReadIn importer) (hs : r.absolute? = some s) :
    r.isExternal = false ∧ s ∈ f.specifiers := by
  have hexternal : r.isExternal = false := by
    have habsolute := hread.absolute?
    rw [hs] at habsolute
    split at habsolute
    · exact absurd habsolute (by simp)
    · next h =>
        rw [Bool.or_eq_true, not_or, Bool.not_eq_true] at h
        exact h.1
  refine ⟨hexternal, List.mem_filterMap.mpr ⟨r, List.mem_filter.mpr ⟨hr, ?_⟩, hs⟩⟩
  rw [ImportRecord.isRelative, hexternal]
  rfl

/-- **Attaching files** to the records of a source attaches what their paths resolve to. -/
theorem isAttachedIn_attach
    (hget : ∀ s ∈ (ofSource settings source).specifiers, resolution.get? s = found s)
    {r : ImportRecord} (h : r ∈ ((ofSource settings source).attach resolution).imports.records) :
    r.IsAttachedIn found source.path := by
  obtain ⟨r, hr, rfl⟩ := List.mem_map.mp h
  have hread := isReadIn_ofSource hr
  cases habsolute : r.absolute? with
  | none =>
      -- nothing is looked for
      simp only [Option.bind_none]
      refine ⟨hread.absolute?, ?_, hread.named⟩
      rw [hread.resolved?, habsolute]
      rfl
  | some s =>
      obtain ⟨hexternal, hmem⟩ := mem_specifiers hr hread habsolute
      simp only [Option.bind_some, hget s hmem]
      cases hfound : found s with
      | none =>
          refine ⟨hread.absolute?, ?_, hread.named⟩
          rw [hread.resolved?, habsolute]
          exact hfound.symm
      | some path =>
          have hrelative : r.isRelative = true := by
            rw [ImportRecord.isRelative, hexternal]
            rfl
          simp only [ImportRecord.attach, hrelative, if_true]
          refine ⟨hread.absolute?, ?_, hread.named⟩
          simp only [habsolute, Option.bind_some, hfound]

end FileSurvey

namespace Survey

variable {settings : Settings} {lister : Lister Id} {sources : List SourceFile}

/-- The survey of sources, with modules looked for by a lister that answers at once. -/
def runWith (settings : Settings) (lister : Lister Id) (sources : List SourceFile) : Survey :=
  Id.run (run settings lister sources)

/-- What a path resolves to, by the entries of directories. -/
def found (settings : Settings) (lister : Lister Id) (s : Text) : Option Text :=
  (resolveWith (probeOrder settings) lister.look s).toOption

theorem found_eq_some {s path : Text} :
    found settings lister s = some path ↔
      resolveWith (probeOrder settings) lister.look s = .ok path := by
  unfold found
  cases resolveWith (probeOrder settings) lister.look s with
  | ok p => simp [Except.toOption]
  | error u => simp [Except.toOption]

/-- **The records of a survey** come from its sources, each with what its path resolves to. -/
theorem isAttachedIn_of_mem_files (hlister : lister.IsKeyed) {f : FileSurvey}
    (hf : f ∈ (runWith settings lister sources).files) {r : ImportRecord}
    (hr : r ∈ f.imports.records) : r.IsAttachedIn (found settings lister) f.path := by
  obtain ⟨f, hmem, rfl⟩ := List.mem_map.mp hf
  obtain ⟨source, hsource, rfl⟩ := List.mem_map.mp hmem
  refine FileSurvey.isAttachedIn_attach ?_ hr
  intro s hs
  have hall : s ∈ ((sources.map (FileSurvey.ofSource settings)).flatMap (·.specifiers)).eraseDups :=
    List.mem_eraseDups.mpr (List.mem_flatMap.mpr ⟨_, hmem, hs⟩)
  rw [resolveMany_eq _ hlister, Resolution.get?_addAll, if_pos hall]
  rfl

/-- The plan of a survey is made of the records of its files, under the names that do not depend on
the importer. -/
theorem plan_runWith :
    (runWith settings lister sources).plan =
      consolidate (namingRules settings)
        ((runWith settings lister sources).files.flatMap fun f =>
          f.imports.records.map ImportRecord.located) := rfl

end Survey

end ScriptSurvey
