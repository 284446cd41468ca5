import ScriptSurvey.Proofs.Import.Records
import ScriptSurvey.Proofs.Plan.Lookup
import ScriptSurvey.Proofs.Plan.Modules
import ScriptSurvey.Proofs.Plan.Quote
import ScriptSurvey.Survey

/-!
# Modules without names

A module can be imported for its effects alone, by a declaration without a clause, or for names that
are there for the type checker only. The plan has one statement without names for it in the first case
and none in the second, whatever else is said of the module, as long as nothing imports a name that
exists when the program runs. A clause without entries is a clause: it brings in no name and no effects.

The statements of a module are told by their text. A quoted path stands at the end of each of them,
behind a space, and no other path can end there: a quote inside of a path has a backslash in front.
-/

namespace ScriptSurvey

/-! ## The path at the end of a statement -/

namespace Text

/-- In front of every quote in an escaped text stands a backslash. -/
theorem getLast?_of_escaped {t a b : Text} (h : escaped t = a ++ '\'' :: b) :
    a.getLast? = some '\\' := by
  -- a character is escaped to two or stands for itself, and no quote does
  induction t generalizing a with
  | nil => exact absurd (List.append_eq_nil_iff.mp h.symm).2 (List.cons_ne_nil _ _)
  | cons c t ih =>
      have hpair {d : Char} (h : '\\' :: d :: escaped t = a ++ '\'' :: b) :
          a.getLast? = some '\\' := by
        match a with
        | [] => exact absurd (List.cons.inj h).1 (by decide)
        | [x] =>
            obtain ⟨rfl, -⟩ := List.cons.inj h
            rfl
        | x :: y :: a =>
            have hlast := ih (List.cons.inj (List.cons.inj h).2).2
            rw [List.getLast?_cons, List.getLast?_cons, hlast]
            rfl
      rw [escaped_cons] at h
      rcases escape_cases c with ⟨-, he⟩ | ⟨-, he⟩ | ⟨⟨hquote, -, -⟩, he⟩
      · rw [he] at h
        exact hpair h
      · rw [he] at h
        exact hpair h
      · rw [he, List.singleton_append] at h
        cases a with
        | nil => exact absurd (List.cons.inj h).1 hquote
        | cons x a =>
            have hlast := ih (List.cons.inj h).2
            rw [List.getLast?_cons, hlast]
            rfl

/-- **A text ends in one quoted path at most**, with a space in front. -/
theorem eq_of_append_quoteSingle {v w s t : Text}
    (h : v ++ ' ' :: quoteSingle s = w ++ ' ' :: quoteSingle t) : s = t := by
  -- the quote in front of the shorter path would stand behind a space inside of the longer one
  have hinside {u a s t : Text} (hsplit : '\'' :: escaped s = a ++ '\'' :: escaped t)
      (hlast : (u ++ a).getLast? = some ' ') : s = t := by
    cases a with
    | nil => exact escaped_injective (List.cons.inj hsplit).2
    | cons x a =>
        have hback := getLast?_of_escaped (List.cons.inj hsplit).2
        rw [List.getLast?_append, List.getLast?_cons, hback, Option.getD_some, Option.some_or,
          Option.some.injEq] at hlast
        exact absurd hlast (by decide)
  have hquote (p u : Text) :
      p ++ ' ' :: quoteSingle u = p ++ [' '] ++ '\'' :: escaped u ++ ['\''] := by
    show p ++ ' ' :: '\'' :: (escaped u ++ ['\'']) = _
    simp only [List.append_assoc, List.cons_append, List.nil_append]
  rw [hquote, hquote] at h
  rcases List.append_eq_append_iff.mp (List.append_cancel_right h) with
    ⟨a, hw, hsplit⟩ | ⟨a, hv, hsplit⟩
  · exact hinside hsplit (u := v ++ [' ']) (by rw [← hw, List.getLast?_concat])
  · exact (hinside hsplit (u := w ++ [' ']) (by rw [← hv, List.getLast?_concat])).symm

end Text

/-! ## The statements of a module -/

/-- The statement that imports a module for its effects. -/
def effectStatement (module : Text) : Text :=
  "import ".toList ++ (quoteSingle module ++ [';'])

/-- Whether a statement imports from a module: the path at its end is that of the module. -/
def importsFrom (module s : Text) : Bool :=
  (' ' :: (quoteSingle module ++ [';'])).isSuffixOf s

/-- The statements of a plan that import from a module. -/
def Plan.statementsFrom (module : Text) (p : Plan) : List Text :=
  p.statements.filter (importsFrom module)

namespace ModulePlan

variable {m : ModulePlan}

/-- With names, a statement has some of them in front of the path. -/
theorem exists_names_of_mem_statements (h : m.hasBindings = true) {s : Text}
    (hs : s ∈ m.statements) :
    ∃ names, s = "import ".toList ++
      (names ++ (" from ".toList ++ (quoteSingle m.module ++ [';']))) := by
  simp only [statements, h, if_true] at hs
  rcases List.mem_append.mp hs with hs | hs
  · split at hs
    · exact absurd hs List.not_mem_nil
    · simp only [List.mem_singleton, List.append_assoc] at hs
      exact ⟨_, hs⟩
  · obtain ⟨n, -, rfl⟩ := List.mem_map.mp hs
    have hstar : "import * as ".toList = "import ".toList ++ "* as ".toList := by decide
    refine ⟨"* as ".toList ++ n, ?_⟩
    simp only [hstar, List.append_assoc]

/-- Without names, a module has the statement of its effects or none. -/
theorem statements_of_not_hasBindings (h : m.hasBindings = false) :
    m.statements = if m.sideEffect then [effectStatement m.module] else [] := by
  rw [statements, h]
  rfl

/-- A statement ends in the path of its module. -/
theorem exists_append_of_mem_statements {s : Text} (hs : s ∈ m.statements) :
    ∃ w, s = w ++ ' ' :: (quoteSingle m.module ++ [';']) := by
  cases h : m.hasBindings with
  | true =>
      obtain ⟨names, rfl⟩ := exists_names_of_mem_statements h hs
      have hfrom : " from ".toList = " from".toList ++ [' '] := by decide
      refine ⟨"import ".toList ++ (names ++ " from".toList), ?_⟩
      simp only [hfrom, List.append_assoc, List.singleton_append]
  | false =>
      rw [statements_of_not_hasBindings h] at hs
      split at hs
      · exact ⟨"import".toList, List.mem_singleton.mp hs⟩
      · exact absurd hs List.not_mem_nil

theorem importsFrom_of_mem_statements {module s : Text} (h : s ∈ m.statements) :
    importsFrom module s = (m.module == module) := by
  obtain ⟨w, rfl⟩ := exists_append_of_mem_statements h
  rw [importsFrom, Bool.eq_iff_iff, List.isSuffixOf_iff_suffix, beq_iff_eq]
  constructor
  · rintro ⟨v, hv⟩
    rw [← List.cons_append, ← List.append_assoc, ← List.cons_append, ← List.append_assoc] at hv
    exact (Text.eq_of_append_quoteSingle (List.append_cancel_right hv)).symm
  · rintro rfl
    exact List.suffix_append _ _

/-- With names, a module has statements, and none of them is that of its effects. -/
theorem statements_of_hasBindings (h : m.hasBindings = true) :
    m.statements ≠ [] ∧ effectStatement m.module ∉ m.statements := by
  constructor
  · simp only [statements, h, if_true]
    unfold hasBindings at h
    unfold clause
    cases hd : m.default? <;> cases hn : m.named <;> cases hs : m.namespaces <;> simp_all
  · intro hmem
    obtain ⟨names, hsame⟩ := exists_names_of_mem_statements h hmem
    -- the word in front of the path makes a statement with names longer
    have hlength := congrArg List.length (List.append_cancel_left hsame)
    have hfrom : " from ".toList.length = 6 := rfl
    simp only [List.length_append] at hlength
    omega

end ModulePlan

/-- **The statements from a module** are those of the module with its path. -/
theorem Plan.statementsFrom_eq (module : Text) (p : Plan) :
    p.statementsFrom module =
      (p.modules.filter (·.module == module)).flatMap ModulePlan.statements := by
  rw [statementsFrom, statements]
  induction p.modules with
  | nil => rfl
  | cons m ms ih =>
      rw [List.flatMap_cons, List.filter_append, ih, List.filter_cons]
      have hsame : ∀ s ∈ m.statements, importsFrom module s = (m.module == module) :=
        fun s hs => ModulePlan.importsFrom_of_mem_statements hs
      split
      · next hm =>
          rw [List.flatMap_cons, List.filter_eq_self.mpr fun s hs => (hsame s hs).trans hm]
      · next hm =>
          rw [List.filter_eq_nil_iff.mpr fun s hs => by rw [hsame s hs]; exact hm, List.nil_append]

/-! ## The statements of a module, by its records -/

section

variable (rules : NamingRules) {records : List ImportRecord}

/-- **What a plan has for a module without names.** Its one statement is that of its effects when no
record imports a name that exists when the program runs and one is there for the effects, and there is
none when no record does either. -/
theorem statementsFrom_consolidate (hnamed : ∀ r ∈ records, r.IsNamed) (module : Text) :
    ((consolidate rules records).statementsFrom module = [effectStatement module] ↔
      (¬∃ r ∈ records, r.module = module ∧ r.runtimeBindings ≠ []) ∧
        ∃ r ∈ records, r.module = module ∧ r.sideEffect = true) ∧
    ((consolidate rules records).statementsFrom module = [] ↔
      (¬∃ r ∈ records, r.module = module ∧ r.runtimeBindings ≠ []) ∧
        ¬∃ r ∈ records, r.module = module ∧ r.sideEffect = true) := by
  rw [Plan.statementsFrom_eq]
  by_cases hmodule : ∃ m ∈ (consolidate rules records).modules, m.module = module
  · obtain ⟨m, hm, rfl⟩ := hmodule
    rw [filter_module_eq (nodup_modules_consolidate rules) hm, List.flatMap_singleton]
    cases hnames : m.hasBindings with
    | true =>
        have hsome := exists_runtimeBindings_of_hasBindings rules hm hnames
        obtain ⟨hstatements, heffect⟩ := ModulePlan.statements_of_hasBindings hnames
        refine ⟨iff_of_false (fun he => heffect ?_) fun h => h.1 hsome,
          iff_of_false hstatements fun h => h.1 hsome⟩
        rw [he]
        exact List.mem_singleton_self _
    | false =>
        have hnone : ¬∃ r ∈ records, r.module = m.module ∧ r.runtimeBindings ≠ [] := by
          rintro ⟨r, hr, hmodule, hbindings⟩
          have hnames' :=
            hasBindings_of_runtimeBindings rules hr (hnamed r hr) hbindings hm hmodule.symm
          exact Bool.false_ne_true (hnames.symm.trans hnames')
        -- the record that brings in the module is there for its effects
        obtain ⟨r, hr, hmodule, hkept⟩ := (mem_modules_consolidate rules).mp ⟨m, hm, rfl⟩
        have heffect : r.sideEffect = true := by
          refine hkept.resolve_right ?_
          rintro ⟨b, hb, -⟩
          exact hnone ⟨r, hr, hmodule.symm, List.ne_nil_of_mem hb⟩
        have hsideEffect : m.sideEffect = true :=
          (kept_consolidate rules m hm).resolve_left (by rw [hnames]; exact Bool.false_ne_true)
        rw [ModulePlan.statements_of_not_hasBindings hnames, if_pos hsideEffect]
        exact ⟨iff_of_true rfl ⟨hnone, r, hr, hmodule.symm, heffect⟩,
          iff_of_false (List.cons_ne_nil _ _) fun h => h.2 ⟨r, hr, hmodule.symm, heffect⟩⟩
  · have hleft : ∀ r ∈ records, r.module = module →
        ¬(r.runtimeBindings ≠ [] ∨ r.sideEffect = true) := by
      intro r hr hr' hkept
      obtain ⟨m, hm, hm'⟩ := exists_module_of_isKept rules hr ((hnamed r hr).isKept hkept)
      exact hmodule ⟨m, hm, hm'.trans hr'⟩
    have hnone : ¬∃ r ∈ records, r.module = module ∧ r.runtimeBindings ≠ [] :=
      fun ⟨r, hr, hr', hbindings⟩ => hleft r hr hr' (.inl hbindings)
    have hnoEffect : ¬∃ r ∈ records, r.module = module ∧ r.sideEffect = true :=
      fun ⟨r, hr, hr', heffect⟩ => hleft r hr hr' (.inr heffect)
    have hfilter : (consolidate rules records).modules.filter (·.module == module) = [] :=
      List.filter_eq_nil_iff.mpr fun m hm he => hmodule ⟨m, hm, beq_iff_eq.mp he⟩
    rw [hfilter, List.flatMap_nil]
    exact ⟨iff_of_false (List.cons_ne_nil _ _).symm fun h => hnoEffect h.2,
      iff_of_true rfl ⟨hnone, hnoEffect⟩⟩

end

/-! ## The records of scripts, by their declarations -/

/-- The import declarations of some scripts. -/
def scriptsDeclarations (sources : List SourceFile) : List Declaration :=
  sources.flatMap fun f => scriptDeclarations f.text

/-- The import records of some scripts, each a file of its own. -/
def scriptsRecords (sources : List SourceFile) : List ImportRecord :=
  sources.flatMap fun f => (readScriptImports f.path f.text).records

section

variable {sources : List SourceFile}

theorem isNamed_of_mem_scriptsRecords {r : ImportRecord} (h : r ∈ scriptsRecords sources) :
    r.IsNamed := by
  obtain ⟨f, -, hr⟩ := List.mem_flatMap.mp h
  exact (isReadIn_of_mem_readScriptImports hr).named

/-- A record is that of some declarations, all those of its module in one script. -/
theorem mem_scriptsRecords_iff {r : ImportRecord} :
    r ∈ scriptsRecords sources ↔
      ∃ f ∈ sources, ∃ d ∈ scriptDeclarations f.text,
        FileImports.recordOf f.path .script (fun m => !Path.isRelative m)
          (scriptDeclarations f.text) d.module = r := by
  unfold scriptsRecords readScriptImports
  simp only [FileImports.records_foldl_add _ .script fun m => !Path.isRelative m, List.mem_flatMap,
    List.mem_map, List.mem_eraseDups, exists_exists_and_eq_and]

/-- A property that a record has if one of its declarations has it. -/
theorem exists_scriptsRecords_iff {P : ImportRecord → Prop} {Q : Declaration → Prop}
    (hrecord : ∀ importer ds module,
      P (FileImports.recordOf importer .script (fun m => !Path.isRelative m) ds module) ↔
        ∃ d ∈ ds, d.module = module ∧ Q d) (module : Text) :
    (∃ r ∈ scriptsRecords sources, r.module = module ∧ P r) ↔
      ∃ d ∈ scriptsDeclarations sources, d.module = module ∧ Q d := by
  constructor
  · rintro ⟨r, hr, hmodule, hP⟩
    obtain ⟨f, hf, d, -, rfl⟩ := mem_scriptsRecords_iff.mp hr
    obtain ⟨d', hd', hmodule', hQ⟩ := (hrecord _ _ _).mp hP
    exact ⟨d', List.mem_flatMap.mpr ⟨f, hf, hd'⟩, hmodule'.trans hmodule, hQ⟩
  · rintro ⟨d, hd, rfl, hQ⟩
    obtain ⟨f, hf, hd⟩ := List.mem_flatMap.mp hd
    exact ⟨_, mem_scriptsRecords_iff.mpr ⟨f, hf, d, hd, rfl⟩, rfl,
      (hrecord _ _ _).mpr ⟨d, hd, rfl, hQ⟩⟩

/-- A script imports a name from a module when one of its declarations does. -/
theorem exists_runtimeBindings_iff (module : Text) :
    (∃ r ∈ scriptsRecords sources, r.module = module ∧ r.runtimeBindings ≠ []) ↔
      ∃ d ∈ scriptsDeclarations sources, d.module = module ∧ ∃ b ∈ d.bindings, b.typeOnly = false := by
  refine exists_scriptsRecords_iff (fun importer ds module => ?_) module
  rw [ne_eq, List.eq_nil_iff_forall_not_mem, not_forall_not]
  simp only [ImportRecord.mem_runtimeBindings, FileImports.mem_bindings_recordOf]
  constructor
  · rintro ⟨b, ⟨d, hd, hmodule, hb⟩, hruns⟩
    exact ⟨d, hd, hmodule, b, hb, hruns⟩
  · rintro ⟨d, hd, hmodule, b, hb, hruns⟩
    exact ⟨b, ⟨d, hd, hmodule, hb⟩, hruns⟩

/-- A script imports a module for its effects when one of its declarations has no clause. -/
theorem exists_sideEffect_iff (module : Text) :
    (∃ r ∈ scriptsRecords sources, r.module = module ∧ r.sideEffect = true) ↔
      ∃ d ∈ scriptsDeclarations sources, d.module = module ∧ d.hasClause = false := by
  exact exists_scriptsRecords_iff
    (fun importer _ _ => FileImports.sideEffect_recordOf_iff importer .script _) module

end

/-- **A module without names**, in the plan of any scripts. It has the one statement of its effects
exactly when no declaration of it brings in a name that exists when the program runs and some
declaration of it has no clause. It has no statement exactly when each declaration of it has a clause
and brings in such names nowhere. -/
theorem statementsFrom_scripts (rules : NamingRules) (sources : List SourceFile) (module : Text) :
    ((consolidate rules (scriptsRecords sources)).statementsFrom module = [effectStatement module] ↔
      (∀ d ∈ scriptsDeclarations sources, d.module = module → ∀ b ∈ d.bindings, b.typeOnly = true) ∧
        ∃ d ∈ scriptsDeclarations sources, d.module = module ∧ d.hasClause = false) ∧
    ((consolidate rules (scriptsRecords sources)).statementsFrom module = [] ↔
      (∀ d ∈ scriptsDeclarations sources, d.module = module → ∀ b ∈ d.bindings, b.typeOnly = true) ∧
        ∀ d ∈ scriptsDeclarations sources, d.module = module → d.hasClause = true) := by
  have hnamed : ∀ r ∈ scriptsRecords sources, r.IsNamed := fun _ => isNamed_of_mem_scriptsRecords
  have hstatements := statementsFrom_consolidate rules hnamed module
  rw [exists_runtimeBindings_iff, exists_sideEffect_iff] at hstatements
  simpa only [not_exists, not_and, Bool.not_eq_false] using hstatements

/-- A clause without entries is no import for effects. -/
theorem statements_of_empty_clause :
    ∃ sources module, sources = [⟨"a.ts".toList, "import \x7b\x7d from 'm'".toList⟩] ∧
      module = "m".toList ∧
      (∃ d ∈ scriptsDeclarations sources, d.module = module) ∧
      (∀ r ∈ scriptsRecords sources, r.module = module → r.bindings = []) ∧
      (consolidate .standard (scriptsRecords sources)).statements = [] := by
  refine ⟨_, _, rfl, rfl, ?_, ?_, ?_⟩ <;> decide +kernel

end ScriptSurvey
