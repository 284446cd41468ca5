import ScriptSurvey.Import.Reader
import ScriptSurvey.Plan.Consolidate
import ScriptSurvey.Proofs.Import.Merge
import ScriptSurvey.Proofs.Lexical.Visits
import ScriptSurvey.Proofs.Text.Identifier

/-!
# What a file can say

Whatever stands in a file, the names that its declarations bring in are never blank: each is an
identifier, a word or a quoted string. The records that are made of the declarations all look for
their modules from the same file.
-/

namespace ScriptSurvey

/-! ## Words -/

namespace Text

theorem forall_of_mem_splitOnP {p : Char → Bool} {t w : Text} (hw : w ∈ t.splitOnP p) :
    ∀ c ∈ w, p c = false := by
  induction t generalizing w with
  | nil =>
      rw [List.splitOnP_nil, List.mem_singleton] at hw
      rw [hw]
      exact fun c hc => absurd hc List.not_mem_nil
  | cons d t ih =>
      obtain ⟨front, back, hsplit⟩ := List.exists_cons_of_ne_nil (List.splitOnP_ne_nil p t)
      rw [hsplit] at ih
      rw [List.splitOnP_cons_eq_if_modifyHead, hsplit] at hw
      split at hw
      · rcases List.mem_cons.mp hw with rfl | hw
        · exact fun c hc => absurd hc List.not_mem_nil
        · exact ih hw
      · next hd =>
          rcases List.mem_cons.mp hw with rfl | hw
          · -- the character goes on with the first piece
            intro c hc
            rcases List.mem_cons.mp hc with rfl | hc
            · exact Bool.not_eq_true _ ▸ hd
            · exact ih List.mem_cons_self c hc
          · exact ih (List.mem_cons_of_mem _ hw)

/-- A text that begins with no blank does not hold blanks only. -/
theorem isAllBlank_cons {c : Char} (h : isBlank c = false) (t : Text) :
    isAllBlank (c :: t) = false := by
  rw [isAllBlank, List.all_cons, h]
  rfl

theorem isAllBlank_of_mem_words {t w : Text} (hw : w ∈ words t) : isAllBlank w = false := by
  rw [words, List.mem_filter] at hw
  obtain ⟨hw, hne⟩ := hw
  cases w with
  | nil => exact absurd hne (by decide)
  | cons c w => exact isAllBlank_cons (forall_of_mem_splitOnP hw c List.mem_cons_self) w

theorem isAllBlank_of_isIdentifier {t : Text} (h : isIdentifier t = true) : isAllBlank t = false := by
  obtain ⟨c, u, rfl⟩ := List.exists_cons_of_ne_nil (ne_nil_of_isIdentifier h)
  exact isAllBlank_cons
    (isBlank_of_isIdentifierPart (isIdentifierPart_of_mem h List.mem_cons_self)) u

theorem isAllBlank_of_takeIdentifier? {t name rest : Text}
    (h : takeIdentifier? t = some (name, rest)) : isAllBlank name = false := by
  simp only [takeIdentifier?] at h
  split at h
  · next hname =>
      obtain ⟨rfl, -⟩ := Prod.mk.inj (Option.some.inj h)
      exact isAllBlank_of_isIdentifier hname
  · exact absurd h (by simp)

end Text

/-! ## Names that are read -/

namespace ScriptImport

/-- Whether no binding of the list has a blank name. -/
def AllNamed (bs : List Binding) : Prop :=
  ∀ b ∈ bs, b.isBlank = false

theorem allNamed_singleton {name : Text} (kind : BindingKind) (typeOnly : Bool)
    (h : Text.isAllBlank name = false) : AllNamed [⟨name, kind, none, typeOnly⟩] := by
  intro b hb
  rw [List.mem_singleton.mp hb, Binding.isBlank, h]
  rfl

/-- No word of an entry is blank. -/
theorem isAllBlank_of_mem_entryWords {entry : Text} {ws : List Text}
    (h : entryWords entry = some ws) : ∀ w ∈ ws, Text.isAllBlank w = false := by
  have hwords {t : Text} : ∀ w ∈ Text.words t, Text.isAllBlank w = false :=
    fun w hw => Text.isAllBlank_of_mem_words hw
  simp only [entryWords] at h
  split at h
  · intro w hw
    rw [← Option.some.inj h] at hw
    exact absurd hw List.not_mem_nil
  · next c t htrim =>
      split at h
      · next hquoted =>
          obtain ⟨p, -, rfl⟩ := Option.map_eq_some_iff.mp h
          intro w hw
          rcases List.mem_cons.mp hw with rfl | hw
          · -- a quoted name begins with its quote
            refine Text.isAllBlank_cons ?_ _
            rw [htrim, startsQuoted, Bool.or_eq_true, beq_iff_eq, beq_iff_eq] at hquoted
            rcases hquoted with rfl | rfl <;> decide
          · exact hwords w hw
      · rw [← Option.some.inj h]
        exact hwords

theorem isBlank_of_entryBinding {typeOnly : Bool} {ws : List Text} {b : Binding}
    (hws : ∀ w ∈ ws, Text.isAllBlank w = false) (h : entryBinding typeOnly ws = some b) :
    b.isBlank = false := by
  unfold entryBinding at h
  split at h
  · next name =>
      split at h
      · exact absurd h (by simp)
      · rw [← Option.some.inj h, Binding.isBlank, hws name (by simp)]
        rfl
  · next name keyword localName =>
      have hname := hws name (by simp)
      have hlocal := hws localName (by simp)
      split at h
      · split at h
        · rw [← Option.some.inj h, Binding.isBlank, hlocal]
          rfl
        · rw [← Option.some.inj h, Binding.isBlank, hname, Bool.false_or]
          exact hlocal
      · exact absurd h (by simp)
  · exact absurd h (by simp)

theorem isBlank_of_readEntry {typeOnly : Bool} {entry : Text} {b : Binding}
    (h : readEntry typeOnly entry = some b) : b.isBlank = false := by
  unfold readEntry at h
  split at h
  · exact absurd h (by simp)
  · next ws hws =>
      have hall := isAllBlank_of_mem_entryWords hws
      split at h
      · exact isBlank_of_entryBinding (fun w hw => hall w (List.mem_of_mem_tail hw)) h
      · exact isBlank_of_entryBinding hall h

theorem allNamed_readItem {typeOnly : Bool} {t rest : Text} {bs : List Binding}
    (h : readItem typeOnly t = some (bs, rest)) : AllNamed bs := by
  unfold readItem at h
  split at h
  · obtain ⟨p, -, hp⟩ := Option.map_eq_some_iff.mp h
    obtain ⟨rfl, -⟩ := Prod.mk.inj hp
    intro b hb
    obtain ⟨entry, -, hentry⟩ := List.mem_filterMap.mp hb
    exact isBlank_of_readEntry hentry
  · obtain ⟨p, hname, hp⟩ := Option.map_eq_some_iff.mp h
    obtain ⟨rfl, -⟩ := Prod.mk.inj hp
    obtain ⟨after, -, hname⟩ := Option.bind_eq_some_iff.mp hname
    exact allNamed_singleton _ _ (Text.isAllBlank_of_takeIdentifier? hname)
  · obtain ⟨p, hname, hp⟩ := Option.map_eq_some_iff.mp h
    obtain ⟨rfl, -⟩ := Prod.mk.inj hp
    exact allNamed_singleton _ _ (Text.isAllBlank_of_takeIdentifier? hname)

theorem allNamed_readItems {typeOnly : Bool} {t : Text} {bs : List Binding}
    (h : readItems typeOnly t = some bs) : AllNamed bs := by
  -- by the length of the text, which every item makes shorter
  induction hn : t.length using Nat.strongRecOn generalizing t bs with
  | ind n ih =>
      subst hn
      rw [readItems] at h
      split at h
      · exact absurd h (by simp)
      · next front rest hitem =>
          have hfront := allNamed_readItem hitem
          split at h
          · exact Option.some.inj h ▸ hfront
          · next c more htrim =>
              split at h
              · obtain ⟨back, hback, rfl⟩ := Option.map_eq_some_iff.mp h
                have h1 := length_readItem hitem
                have h2 := (List.dropWhile_sublist Text.isBlank (l := rest)).length_le
                have h3 := (List.dropWhile_sublist Text.isBlank (l := more)).length_le
                have hlt : (Text.trimStart more).length < t.length := by
                  simp only [Text.trimStart] at htrim ⊢
                  rw [htrim, List.length_cons] at h2
                  omega
                intro b hb
                rcases List.mem_append.mp hb with hb | hb
                · exact hfront b hb
                · exact ih _ hlt hback rfl b hb
              · exact absurd h (by simp)

theorem allNamed_readClause {clause : Text} {bs : List Binding}
    (h : readClause clause = some bs) : AllNamed bs := by
  simp only [readClause] at h
  split at h
  · exact allNamed_readItems h
  · exact allNamed_readItems h

theorem allNamed_declarationAt? {c : Cursor} {d : Declaration} (h : declarationAt? c = some d) :
    AllNamed d.bindings := by
  simp only [declarationAt?] at h
  split at h
  · exact absurd h (by simp)
  · split at h
    · obtain ⟨p, -, rfl⟩ := Option.map_eq_some_iff.mp h
      exact fun b hb => absurd hb List.not_mem_nil
    · split at h
      · exact absurd h (by simp)
      · obtain ⟨⟨clause, quote⟩, -, h⟩ := Option.bind_eq_some_iff.mp h
        obtain ⟨p, -, h⟩ := Option.bind_eq_some_iff.mp h
        obtain ⟨bindings, hbindings, rfl⟩ := Option.map_eq_some_iff.mp h
        exact allNamed_readClause hbindings

/-- The module of a declaration is read from quotes. -/
theorem exists_readQuoted?_of_declarationAt? {c : Cursor} {d : Declaration}
    (h : declarationAt? c = some d) : ∃ u rest, readQuoted? u = some (d.module, rest) := by
  simp only [declarationAt?] at h
  split at h
  · exact absurd h (by simp)
  · split at h
    · obtain ⟨p, hp, rfl⟩ := Option.map_eq_some_iff.mp h
      exact ⟨_, p.2, hp⟩
    · split at h
      · exact absurd h (by simp)
      · obtain ⟨⟨clause, quote⟩, -, h⟩ := Option.bind_eq_some_iff.mp h
        obtain ⟨p, hp, h⟩ := Option.bind_eq_some_iff.mp h
        obtain ⟨bindings, -, rfl⟩ := Option.map_eq_some_iff.mp h
        exact ⟨_, p.2, hp⟩

/-- A declaration of a script stands at some place of it. -/
theorem exists_declarationAt?_of_mem {t : Text} {d : Declaration}
    (h : d ∈ scriptDeclarations t) : ∃ c, declarationAt? c = some d := by
  obtain ⟨c, -, hc⟩ := Cursor.exists_of_mem_visit h
  unfold look at hc
  split at hc
  · split at hc
    · next d' hd => exact ⟨c, hd.trans hc⟩
    · exact absurd hc (by simp)
  · exact absurd hc (by simp)

/-- **No declaration of a script brings in a blank name.** -/
theorem allNamed_of_mem_scriptDeclarations {t : Text} {d : Declaration}
    (h : d ∈ scriptDeclarations t) : AllNamed d.bindings := by
  obtain ⟨c, hc⟩ := exists_declarationAt?_of_mem h
  exact allNamed_declarationAt? hc

end ScriptImport

/-- The module of every record of a script is read from quotes. -/
theorem exists_readQuoted?_of_mem_records {importer t : Text} {r : ImportRecord}
    (h : r ∈ (readScriptImports importer t).records) :
    ∃ u rest, readQuoted? u = some (r.module, rest) := by
  rw [readScriptImports,
    FileImports.records_foldl_add importer .script fun m => !Path.isRelative m] at h
  obtain ⟨module, hmodule, rfl⟩ := List.mem_map.mp h
  obtain ⟨d, hd, rfl⟩ := List.mem_map.mp (List.mem_eraseDups.mp hmodule)
  obtain ⟨c, hc⟩ := ScriptImport.exists_declarationAt?_of_mem hd
  exact ScriptImport.exists_readQuoted?_of_declarationAt? hc

/-- The rules of a style sheet bring in no names. -/
theorem bindings_of_mem_styleDeclarations {t : Text} {d : Declaration}
    (h : d ∈ styleDeclarations t) : d.bindings = [] := by
  obtain ⟨c, -, hc⟩ := Cursor.exists_of_mem_visit h
  unfold StyleImport.look at hc
  split at hc
  · split at hc
    · next d' hd =>
        rw [← Option.some.inj hc]
        obtain ⟨p, -, hp⟩ := Option.bind_eq_some_iff.mp hd
        split at hp
        · exact absurd hp (by simp)
        · rw [← Option.some.inj hp]
    · exact absurd hc (by simp)
  · exact absurd hc (by simp)

/-! ## Records -/

/-- What holds of a record that was read in a file. -/
structure ImportRecord.IsReadIn (importer : Text) (r : ImportRecord) : Prop where
  /-- A module that is not external is looked for from the file, if that is known. -/
  absolute? : r.absolute? =
    if r.isExternal || importer.isEmpty then none else some (Path.resolveFrom importer r.module)
  /-- Nothing is known of the module's file. -/
  resolved? : r.resolved? = none
  /-- No name is blank. -/
  named : ∀ b ∈ r.bindings, b.isBlank = false

theorem FileImports.isReadIn_recordOf {importer : Text} {grammar : Grammar} {isExternal : Text → Bool}
    {ds : List Declaration} (hds : ∀ d ∈ ds, ∀ b ∈ d.bindings, b.isBlank = false) (module : Text) :
    (recordOf importer grammar isExternal ds module).IsReadIn importer where
  absolute? := rfl
  resolved? := rfl
  named := by
    intro b hb
    obtain ⟨d, hd, hb⟩ := List.mem_flatMap.mp hb
    exact hds d (List.mem_of_mem_filter hd) b hb

/-- The records of a script are read in that file. -/
theorem isReadIn_of_mem_readScriptImports {importer t : Text} {r : ImportRecord}
    (h : r ∈ (readScriptImports importer t).records) : r.IsReadIn importer := by
  rw [readScriptImports,
    FileImports.records_foldl_add importer .script fun m => !Path.isRelative m] at h
  obtain ⟨module, -, rfl⟩ := List.mem_map.mp h
  exact FileImports.isReadIn_recordOf
    (fun d hd => ScriptImport.allNamed_of_mem_scriptDeclarations hd) module

/-- **The records of a file** are read in that file. -/
theorem isReadIn_of_mem_readImports {styleExtensions : List Text} {importer t : Text}
    {r : ImportRecord} (h : r ∈ (readImports styleExtensions importer t).records) :
    r.IsReadIn importer := by
  unfold readImports at h
  split at h
  · rw [readStyleImports, FileImports.records_foldl_add importer .style Path.isNetwork] at h
    obtain ⟨module, -, rfl⟩ := List.mem_map.mp h
    refine FileImports.isReadIn_recordOf (fun d hd b hb => ?_) module
    rw [bindings_of_mem_styleDeclarations hd] at hb
    exact absurd hb List.not_mem_nil
  · exact isReadIn_of_mem_readScriptImports h

end ScriptSurvey
