import ScriptSurvey.Import.Record
import ScriptSurvey.Proofs.List.FirstSeen

/-!
# One record for each module

The declarations of a file are added one after another. The first of a module starts a record, and
each further one goes to that record, so there is a record for each module in the order in which the
modules first came up, and it holds what all declarations of the module say, in their order.
-/

namespace ScriptSurvey

/-- The record with what the declarations say, in their order. -/
def ImportRecord.addAll (ds : List Declaration) (r : ImportRecord) : ImportRecord :=
  { r with
    bindings := r.bindings ++ ds.flatMap (·.bindings)
    spans := r.spans ++ ds.map (·.span)
    sideEffect := r.sideEffect || ds.any (!·.hasClause) }

theorem ImportRecord.addAll_nil (r : ImportRecord) : r.addAll [] = r := by
  simp [addAll]

theorem ImportRecord.addAll_concat (ds : List Declaration) (d : Declaration) (r : ImportRecord) :
    r.addAll (ds ++ [d]) = (r.addAll ds).add d := by
  simp [addAll, add, List.append_assoc, Bool.or_assoc]

namespace FileImports

variable (importer : Text) (grammar : Grammar) (isExternal : Text → Bool)

/-- What the declarations say of a module, in one record. -/
def recordOf (ds : List Declaration) (module : Text) : ImportRecord :=
  (start importer grammar (isExternal module) module).addAll (ds.filter (·.module == module))

theorem module_recordOf (ds : List Declaration) (module : Text) :
    (recordOf importer grammar isExternal ds module).module = module := rfl

theorem mem_bindings_recordOf {ds : List Declaration} {module : Text} {b : Binding} :
    b ∈ (recordOf importer grammar isExternal ds module).bindings ↔
      ∃ d ∈ ds, d.module = module ∧ b ∈ d.bindings := by
  simp [recordOf, ImportRecord.addAll, start, ImportRecord.empty, and_assoc]

theorem sideEffect_recordOf_iff {ds : List Declaration} {module : Text} :
    (recordOf importer grammar isExternal ds module).sideEffect = true ↔
      ∃ d ∈ ds, d.module = module ∧ d.hasClause = false := by
  simp [recordOf, ImportRecord.addAll, start, ImportRecord.empty]

/-- One more declaration changes the record of its module only. -/
theorem recordOf_concat (ds : List Declaration) (d : Declaration) (module : Text) :
    recordOf importer grammar isExternal (ds ++ [d]) module =
      if module = d.module then (recordOf importer grammar isExternal ds module).add d
      else recordOf importer grammar isExternal ds module := by
  rw [recordOf, List.filter_append]
  split
  · next h =>
      rw [List.filter_cons_of_pos (by rw [h]; exact beq_self_eq_true _), List.filter_nil,
        ImportRecord.addAll_concat]
      rfl
  · next h =>
      rw [List.filter_cons_of_neg (by rw [beq_iff_eq]; exact fun he => h he.symm), List.filter_nil,
        List.append_nil]
      rfl

/-- **The records of all declarations**: one for each module, in the order of the first
declarations. -/
theorem records_foldl_add (ds : List Declaration) :
    ds.foldl (fun f d => f.add grammar (isExternal d.module) d) (empty importer) =
      ⟨importer, (ds.map (·.module)).eraseDups.map (recordOf importer grammar isExternal ds)⟩ := by
  induction ds using List.reverseRecOn with
  | nil => rfl
  | append_singleton ds d ih =>
      -- the record of the module is there exactly if one of the declarations in front has the module
      have hany : ((ds.map (·.module)).eraseDups.map (recordOf importer grammar isExternal ds)).any
          (·.module == d.module) = true ↔ d.module ∈ ds.map (·.module) := by
        rw [List.any_map, List.any_eq_true, ← List.mem_eraseDups]
        constructor
        · rintro ⟨m, hm, he⟩
          rw [Function.comp_apply, module_recordOf, beq_iff_eq] at he
          exact he ▸ hm
        · intro hm
          exact ⟨d.module, hm, by rw [Function.comp_apply, module_recordOf, beq_self_eq_true]⟩
      rw [List.foldl_append, ih, List.foldl_cons, List.foldl_nil, List.map_append,
        List.map_singleton,
        eraseDups_concat, add]
      by_cases hmem : d.module ∈ ds.map (·.module)
      · rw [if_pos (hany.mpr hmem), if_pos hmem, List.map_map]
        congr 1
        refine List.map_congr_left fun m _ => ?_
        rw [recordOf_concat, Function.comp_apply, module_recordOf]
      · rw [if_neg (fun h => hmem (hany.mp h)), if_neg hmem, List.map_append, List.map_singleton]
        congr 2
        · refine List.map_congr_left fun m hm => ?_
          have hne : m ≠ d.module := by
            rintro rfl
            exact hmem (List.mem_eraseDups.mp hm)
          rw [recordOf_concat, if_neg hne]
        · -- nothing was said of the module before
          have hnone : ds.filter (·.module == d.module) = [] := by
            refine List.filter_eq_nil_iff.mpr fun e he hm => hmem ?_
            exact List.mem_map.mpr ⟨e, he, beq_iff_eq.mp hm⟩
          rw [recordOf_concat, if_pos rfl, recordOf, hnone, ImportRecord.addAll_nil]

end FileImports

end ScriptSurvey
