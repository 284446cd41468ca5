import ScriptSurvey.Proofs.Import.Records
import ScriptSurvey.Proofs.Plan.ReadBack

/-!
# Paths on their way through a plan

A path is taken from a script as it stands between its quotes, is kept by the plan, is written between
single quotes with escapes, and is read again as it stands. Nothing on this way undoes an escape, so
an escape in the script is escaped once more. A path comes back the same exactly when there is no
quote and no backslash in it.
-/

namespace ScriptSurvey

namespace Text

/-- Whether nothing in a text is escaped or an escape. -/
def IsUnescaped (t : Text) : Prop :=
  ∀ c ∈ t, c ≠ '\'' ∧ c ≠ '\\'

/-- A string that is read back from its contents is the same exactly when nothing in it is
escaped. -/
theorem readQuoted?_quoteSingle_iff {t path rest : Text} (h : readQuoted? t = some (path, rest))
    (more : Text) :
    readQuoted? (quoteSingle path ++ more) = some (path, more) ↔ path.IsUnescaped := by
  rw [(quotes_quoteSingle path).read, Option.some.injEq, Prod.mk.injEq, and_iff_left rfl,
    escaped_eq_self_iff]
  exact isCleanPath_iff_of_readQuoted? h

end Text

/-- **Paths that come back.** A path that a script can have is read back from the quotes that it is
written in exactly when nothing in it is escaped. So when the records of a script, whose names can be
read, are made into a plan and its statements are read again, every module of the plan is found, and
each under its path exactly when nothing in that is escaped. -/
theorem path_read_back_iff (rules : NamingRules) (importer again t : Text) :
    (∀ u path rest : Text, readQuoted? u = some (path, rest) → ∀ more,
      (readQuoted? (quoteSingle path ++ more) = some (path, more) ↔ path.IsUnescaped)) ∧
    ((∀ r ∈ (readScriptImports importer t).records, ∀ b ∈ r.runtimeBindings, b.IsReadable) →
      (∀ r ∈ (readScriptImports importer t).records,
        r.runtimeBindings ≠ [] ∨ r.sideEffect = true →
        ∃ m ∈ (consolidate rules (readScriptImports importer t).records).modules,
          m.module = r.module) ∧
      List.Forall₂ (fun (m : ModulePlan) (r : ImportRecord) =>
          r.module = m.module ↔ m.module.IsUnescaped)
        (consolidate rules (readScriptImports importer t).records).modules
        (readScriptImports again (List.intercalate ['\n']
          (consolidate rules (readScriptImports importer t).records).statements)).records) := by
  refine ⟨fun u path rest h => Text.readQuoted?_quoteSingle_iff h, fun h => ?_⟩
  constructor
  · intro r hr hsaid
    have hnamed : r.IsNamed := (isReadIn_of_mem_readScriptImports hr).named
    exact (mem_modules_consolidate rules).mpr ⟨r, hr, rfl, hnamed.isKept hsaid⟩
  · -- every path of the plan is that of a record, so it was read from quotes
    have hread : ∀ m ∈ (consolidate rules (readScriptImports importer t).records).modules,
        ∃ u rest, readQuoted? u = some (m.module, rest) := by
      intro m hm
      obtain ⟨r, hr, hmodule, -⟩ := (mem_modules_consolidate rules).mp ⟨m, hm, rfl⟩
      rw [hmodule]
      exact exists_readQuoted?_of_mem_records hr
    have hpaths := congrArg (List.map ImportRecord.module)
      (content_statements (isReadable_consolidate rules h) (nodup_modules_consolidate rules) again)
    rw [List.map_map, List.map_map, List.map_map] at hpaths
    have hescaped := List.forall₂_eq_eq_eq.symm ▸ hpaths.symm
    rw [List.forall₂_map_left_iff, List.forall₂_map_right_iff] at hescaped
    refine List.Forall₂.imp ?_ ((List.forall₂_and_left _ _).mpr ⟨hread, hescaped⟩)
    rintro m r ⟨⟨u, rest, hu⟩, hr⟩
    have hmodule : r.module = m.module.escaped := hr.symm
    rw [hmodule, Text.escaped_eq_self_iff]
    exact Text.isCleanPath_iff_of_readQuoted? hu

/-- Of two paths that are imported, one for its default export and one for its effects, the one with an
apostrophe does not come back. -/
theorem path_read_back_apostrophe :
    ∃ t, t = "import x from '@a/b'; import \"it's\"".toList ∧
      (∀ r ∈ (readScriptImports [] t).records, ∀ b ∈ r.runtimeBindings, b.IsReadable) ∧
      (readScriptImports [] t).records.map (·.module) = ["@a/b".toList, "it's".toList] ∧
      List.Forall₂ (fun (m : ModulePlan) (r : ImportRecord) =>
          r.module = m.module ↔ m.module.IsUnescaped)
        (consolidate .standard (readScriptImports [] t).records).modules
        (readScriptImports [] (List.intercalate ['\n']
          (consolidate .standard (readScriptImports [] t).records).statements)).records := by
  refine ⟨_, rfl, ?_⟩
  have hreadable : ∀ r ∈ (readScriptImports [] "import x from '@a/b'; import \"it's\"".toList).records,
      ∀ b ∈ r.runtimeBindings, b.IsReadable := by
    have hall : ∀ r ∈ (readScriptImports [] "import x from '@a/b'; import \"it's\"".toList).records,
        ∀ b ∈ r.runtimeBindings, (Text.isIdentifier b.localName = true ∧
          b.localName ≠ ScriptImport.keyword) ∧ b.kind ≠ .named := by
      decide +kernel
    intro r hr b hb
    exact ⟨(hall r hr b hb).1, fun hkind => absurd hkind (hall r hr b hb).2⟩
  exact ⟨hreadable, by decide +kernel, ((path_read_back_iff .standard [] [] _).2 hreadable).2⟩

/-- A path with an escaped apostrophe is escaped again, and so it is another path when it is read
again. -/
theorem path_escaped_again :
    ∃ records, records = (readScriptImports [] "import x from 'it\\'s'".toList).records ∧
      records.map (·.module) = ["it\\'s".toList] ∧
      readQuoted? "'it\\'s'".toList = some ("it\\'s".toList, []) ∧
      readQuoted? (quoteSingle "it\\'s".toList) = some ("it\\\\\\'s".toList, []) ∧
      (consolidate .standard records).statements = ["import x from 'it\\\\\\'s';".toList] ∧
      (readScriptImports [] (List.intercalate ['\n']
        (consolidate .standard records).statements)).records.map (·.module) =
          ["it\\\\\\'s".toList] ∧
      "it\\\\\\'s".toList ≠ "it\\'s".toList := by
  refine ⟨_, rfl, ?_⟩
  refine ⟨?_, ?_, ?_, ?_, ?_, ?_⟩ <;> decide +kernel

end ScriptSurvey
