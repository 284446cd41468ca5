import ScriptSurvey.Proofs.Import.Statements
import ScriptSurvey.Proofs.Plan.Modules
import ScriptSurvey.Proofs.Survey.Files

/-!
# The name of the table

A provider binds names in two ways: its import statements bind the local names of the plan, and below
them it declares its table. No local name is given twice, and none is given that is reserved, but the
pool that gives them does not know the name of the table. So the table has a name of its own in all
projects exactly when that name is reserved: if it is not, a file that imports an export of that name
brings it in.
-/

namespace ScriptSurvey

open ScriptImport

/-! ## Names of letters and digits -/

namespace Text

/-- Whether a character may stand in a plain name. -/
def isNameChar (c : Char) : Bool :=
  isAlphanumeric c || c == '_' || c == '$'

theorem isNameChar_of_isPlainName {t : Text} (h : isPlainName t = true) :
    ∀ c ∈ t, isNameChar c = true := by
  cases t with
  | nil => exact fun c hc => absurd hc List.not_mem_nil
  | cons d t =>
      rw [isPlainName, Bool.and_eq_true, List.all_eq_true] at h
      obtain ⟨hd, ht⟩ := h
      intro c hc
      rcases List.mem_cons.mp hc with rfl | hc
      · simp only [Bool.or_eq_true] at hd
        rw [isNameChar, isAlphanumeric]
        rcases hd with (hd | hd) | hd <;> simp [hd]
      · exact ht c hc

/-- What is no letter, digit, `_` or `$` does not stand in a plain name. -/
theorem ne_of_isNameChar {c d : Char} (hc : isNameChar c = true) (hd : isNameChar d = false) :
    c ≠ d := by
  rintro rfl
  exact absurd hc (by rw [hd]; exact Bool.false_ne_true)

theorem isBlank_of_isNameChar {c : Char} (hc : isNameChar c = true) : isBlank c = false := by
  cases hb : isBlank c with
  | false => rfl
  | true =>
      have hnone : isNameChar c = false :=
        of_isBlank (P := fun c => isNameChar c = false) (by decide +kernel) hb
      exact absurd hc (by rw [hnone]; exact Bool.false_ne_true)

theorem isPlain_of_isNameChar {c : Char} (hc : isNameChar c = true) : isPlain c = true :=
  isPlain_of_class (by decide +kernel) (fun kind => by cases kind <;> decide +kernel) hc

end Text

namespace ScriptImport

variable {name : Text}

/-- A plain name is an entry in one piece. -/
theorem uncommented_plainName {P : Char → Prop} (h : Text.isPlainName name = true)
    (hP : ∀ c, Text.isNameChar c = true → P c) : name.Uncommented P :=
  .of_forall fun c hc =>
    have hchar := Text.isNameChar_of_isPlainName h c hc
    ⟨Text.isPlain_of_isNameChar hchar, hP c hchar⟩

/-- A plain name alone imports the export of that name. -/
theorem readEntry_plainName (h : Text.isPlainName name = true) :
    readEntry false name = some ⟨name, .named, none, false⟩ := by
  have hchar := Text.isNameChar_of_isPlainName h
  have hblank : ∀ c ∈ name, Text.isBlank c = false :=
    fun c hc => Text.isBlank_of_isNameChar (hchar c hc)
  obtain ⟨c, u, rfl⟩ : ∃ c u, name = c :: u := by
    cases name with
    | nil => exact absurd h Bool.false_ne_true
    | cons c u => exact ⟨c, u, rfl⟩
  have hc := hchar c List.mem_cons_self
  have hquote : startsQuoted (c :: u) = false := by
    simp only [startsQuoted, Bool.or_eq_false_iff, beq_eq_false_iff_ne]
    exact ⟨Text.ne_of_isNameChar hc (by decide +kernel), Text.ne_of_isNameChar hc (by decide +kernel)⟩
  have hwords : entryWords (c :: u) = some [c :: u] := by
    rw [entryWords_eq_words hquote (fun d hd => hblank d (List.mem_of_mem_head? hd))
      fun d hd => hblank d (List.mem_of_mem_getLast? hd),
      Text.words_of_forall hblank (List.cons_ne_nil c u)]
  rw [readEntry_eq, hwords, Option.bind_some, wordsBinding, if_neg (by simp), entryBinding, hquote]
  rfl

end ScriptImport

/-! ## A file that imports a name -/

/-- The statement that imports an export of a package. -/
def importStatement (name : Text) : Text :=
  "import ".toList ++ inBraces [name] ++ " from ".toList ++ (quoteSingle "m".toList ++ [';'])

/-- The binding of that statement. -/
def Binding.ofExport (name : Text) : Binding := ⟨name, .named, none, false⟩

variable {name : Text}

theorem isStatement_importStatement (h : Text.isPlainName name = true) :
    IsStatement (importStatement name) ⟨"m".toList, [.ofExport name], ⟨0, 0⟩, true⟩ := by
  have hbraces : inBraces [name] = braced ([' '] ++ (Text.commaJoin [name] ++ [' '])) := by
    simp [inBraces, braced]
  have hspace : Text.Uncommented (isPassed · = true) [' '] := .code (by decide) (by decide) .nil
  have hpassed : name.Uncommented (isPassed · = true) := uncommented_plainName h fun c hc => by
    have hne {d : Char} (hd : Text.isNameChar d = false) : c ≠ d := Text.ne_of_isNameChar hc hd
    simp only [isPassed, Bool.and_eq_true, bne_iff_ne]
    exact ⟨⟨⟨⟨⟨hne (by decide +kernel), hne (by decide +kernel)⟩, hne (by decide +kernel)⟩,
      hne (by decide +kernel)⟩, hne (by decide +kernel)⟩, hne (by decide +kernel)⟩
  have hblock : Text.Uncommented (isPassed · = true)
      ([' '] ++ (Text.commaJoin [name] ++ [' '])) := by
    rw [Text.commaJoin, List.intercalate_singleton]
    exact hspace.append (hpassed.append hspace)
  have hcomma : ∀ e ∈ [name], e.Uncommented (· ≠ ',') := by
    intro e he
    rw [List.mem_singleton.mp he]
    exact uncommented_plainName h fun c hc => Text.ne_of_isNameChar hc (by decide +kernel)
  -- a name without a comma is one entry of the block
  have hread : readBlock false ([' '] ++ (Text.commaJoin [name] ++ [' '])) = [.ofExport name] := by
    rw [readBlock_commaJoin false hcomma Text.isBlanks_space Text.isBlanks_space,
      List.filterMap_cons, readEntry_plainName h]
    rfl
  have hclause := isClause_braced hblock
  rw [hread, ← hbraces] at hclause
  exact isStatement_clause hclause (QuotedPath.quotes ⟨.single, "m".toList, rfl, by decide⟩)

/-- The file has one record, with that binding. -/
theorem exists_record_importStatement (h : Text.isPlainName name = true) (importer : Text) :
    ∃ r, (readScriptImports importer (importStatement name)).records = [r] ∧
      r.bindings = [.ofExport name] := by
  have hcontent := content_readScriptImports (.cons (isStatement_importStatement h) .nil) importer
  rw [List.intercalate_singleton] at hcontent
  obtain ⟨r, hr, hbindings⟩ := List.map_eq_singleton_iff.mp hcontent
  exact ⟨r, hr, congrArg ImportRecord.bindings hbindings⟩

/-! ## Names that are given and not given -/

section

variable (rules : NamingRules)

open Consolidation in
/-- **A reserved name is not given.** -/
theorem not_mem_localNames_of_reserved (records : List ImportRecord)
    (h : name ∈ rules.reserved) :
    name ∉ (consolidate rules records).localNames ∧
      name ∉ (consolidate rules records).slotNames := by
  have hsound := sound_foldl rules records
  have hnone : name ∉ (consolidate rules records).localNames :=
    fun hmem => hsound.unreserved name hmem h
  refine ⟨hnone, fun hmem => hnone ?_⟩
  rw [Plan.slotNames, consolidate, locatedSlots_settle] at hmem
  exact hsound.slots.mem_iff.mp hmem

open Consolidation in
/-- The binding that comes first is given the name that it has, if that is not reserved. -/
theorem mem_localNames_of_first {r : ImportRecord} {b : Binding} (hr : r.runtimeBindings = [b])
    (hblank : b.isBlank = false) (hfree : b.localName ∉ rules.reserved) :
    b.localName ∈ (consolidate rules [r]).localNames := by
  have hadd : addRecord rules.suffixMaxLength (start rules) r =
      if r.sideEffect then addSideEffect r.module
        (addBinding rules.suffixMaxLength r.module (start rules) b)
      else addBinding rules.suffixMaxLength r.module (start rules) b := by
    rw [addRecord, hr]
    rfl
  rcases addBinding_cases rules.suffixMaxLength r.module (start rules) b with
    ⟨hleft, -⟩ | ⟨-, -, n, pool, -, hgives, hgive⟩
  · rcases hleft with hb | ⟨n, hn⟩
    · exact absurd (hblank.symm.trans hb) Bool.false_ne_true
    · exact absurd hn (by simp [start, Plan.empty, Plan.localName?])
  · have hname : n = b.localName := by
      refine hgives.kept fun hmem => hfree ?_
      rwa [start, NamePool.mem_taken_ofReserved] at hmem
    have hnames : (consolidate rules [r]).names = [(b.key r.module, n)] := by
      rw [consolidate, List.foldl_cons, List.foldl_nil, hadd, hgive]
      split <;> rfl
    rw [Plan.localNames, hnames, hname]
    exact List.mem_singleton.mpr rfl

end

namespace Survey

variable {settings : Settings}

/-- Which file a module turns out to be makes no difference to the bindings of its record. -/
theorem bindings_attach (resolution : Resolution) (f : FileSurvey) :
    ((f.attach resolution).imports.records.map ImportRecord.located).map (·.bindings) =
      f.imports.records.map (·.bindings) := by
  rw [FileSurvey.attach, List.map_map, List.map_map]
  refine List.map_congr_left fun r _ => ?_
  simp only [Function.comp_apply, ImportRecord.located]
  split
  · unfold ImportRecord.attach
    split <;> rfl
  · rfl

/-- The plan of one file that imports a name has that name, unless it is reserved. -/
theorem mem_localNames_importStatement (lister : Lister Id) (hname : Text.isPlainName name = true)
    (hfree : name ∉ settings.reservedNames) :
    name ∈ (runWith settings lister [⟨"a".toList, importStatement name⟩]).plan.localNames := by
  -- the plan is made of one record, which has that one binding
  obtain ⟨r, hr, hbindings⟩ := exists_record_importStatement hname "a".toList
  have hread : (FileSurvey.ofSource settings ⟨"a".toList, importStatement name⟩).imports.records =
      [r] := by
    have hscript : Path.hasExtension settings.styleExtensions "a".toList = false := rfl
    rw [FileSurvey.ofSource, readImports, hscript, if_neg Bool.false_ne_true, hr]
  obtain ⟨x, hx, hxb⟩ : ∃ x, ((runWith settings lister
      [⟨"a".toList, importStatement name⟩]).files.flatMap fun f =>
        f.imports.records.map ImportRecord.located) = [x] ∧ x.bindings = [.ofExport name] := by
    have hfiles : (runWith settings lister [⟨"a".toList, importStatement name⟩]).files =
        [(FileSurvey.ofSource settings ⟨"a".toList, importStatement name⟩).attach
          (runWith settings lister [⟨"a".toList, importStatement name⟩]).resolution] := rfl
    have hattach := bindings_attach
      (runWith settings lister [⟨"a".toList, importStatement name⟩]).resolution
      (FileSurvey.ofSource settings ⟨"a".toList, importStatement name⟩)
    rw [hread, List.map_singleton, hbindings] at hattach
    rw [hfiles, List.flatMap_singleton]
    exact List.map_eq_singleton_iff.mp hattach
  have hruntime : x.runtimeBindings = [.ofExport name] := by
    rw [ImportRecord.runtimeBindings, hxb]
    rfl
  have hblank : (Binding.ofExport name).isBlank = false := by
    obtain ⟨c, u, rfl⟩ : ∃ c u, name = c :: u := by
      cases name with
      | nil => exact absurd hname Bool.false_ne_true
      | cons c u => exact ⟨c, u, rfl⟩
    have hc := Text.isNameChar_of_isPlainName hname c List.mem_cons_self
    rw [Binding.isBlank, Binding.ofExport, Text.isAllBlank_cons (Text.isBlank_of_isNameChar hc)]
    rfl
  rw [plan_runWith, hx]
  exact mem_localNames_of_first (namingRules settings) hruntime hblank hfree

/-- Settings in which nothing is wrong have a plain name for the table. -/
theorem isPlainName_of_valid (h : settings.flaw? = none) :
    Text.isPlainName settings.providerExportName = true := by
  unfold Settings.flaw? at h
  split at h
  · exact absurd h (Option.some_ne_none _)
  · split at h
    · exact absurd h (Option.some_ne_none _)
    · split at h
      · exact absurd h (Option.some_ne_none _)
      · next hname => simpa using hname

/-- Whether the table of a provider has a name that no import statement binds. -/
structure ExportsApart (name : Text) (s : Survey) : Prop where
  /-- The provider declares the table under this name, below the statements of the plan. -/
  provider : s.provider = s.plan.provider name
  localNames : name ∉ s.plan.localNames
  bound : name ∉ s.plan.slotNames

/-- **The table has a name of its own** in every project exactly when that name is reserved. -/
theorem exportsApart_iff_reserved (hvalid : settings.flaw? = none) (lister : Lister Id) :
    (∀ sources, (runWith settings lister sources).ExportsApart settings.providerExportName) ↔
      settings.providerExportName ∈ settings.reservedNames := by
  constructor
  · intro hall
    refine Classical.byContradiction fun hfree => ?_
    exact (hall _).localNames
      (mem_localNames_importStatement lister (isPlainName_of_valid hvalid) hfree)
  · intro hreserved sources
    obtain ⟨hlocal, hslots⟩ :=
      not_mem_localNames_of_reserved (namingRules settings) _ hreserved
    exact ⟨rfl, hlocal, hslots⟩

/-- The name `modules`, reserved. -/
theorem exportsApart_reserved :
    let settings := { Settings.standard with reservedNames := ["modules".toList] }
    settings.flaw? = none ∧
      ∀ sources, (runWith settings (FileTree.ofFiles []).lister sources).ExportsApart
        "modules".toList := by
  intro settings
  have hvalid : settings.flaw? = none := by decide +kernel
  exact ⟨hvalid, (exportsApart_iff_reserved hvalid _).mpr List.mem_cons_self⟩

/-- With the standard settings a default import called `modules` keeps its name, and the provider
declares that name again. -/
theorem exported_name_imported :
    ∃ survey, survey = runWith Settings.standard (FileTree.ofFiles []).lister
        [⟨"a.ts".toList, "import modules from 'm'".toList⟩] ∧
      Settings.standard.flaw? = none ∧ Settings.standard.providerExportName = "modules".toList ∧
      "modules".toList ∈ survey.plan.localNames ∧
      survey.provider =
        "import modules from 'm';\n\nexport const modules = \x7b\n  'm': \x7b default: modules \x7d,\n\x7d;\n".toList := by
  refine ⟨_, rfl, ?_, ?_, ?_, ?_⟩ <;> decide +kernel

end Survey

end ScriptSurvey
