import ScriptSurvey.Proofs.Resolution.Batch
import ScriptSurvey.Proofs.Resolution.Tree

/-!
# What is found in a tree

A specifier in normal form spells a place, and the path that is found for it in a tree of files spells
the place of one of the files, with a marker exactly when the specifier has one. The specifier names a
directory outright when its place has no steps or ends in a step up; then the file is an index file.
-/

namespace ScriptSurvey

open ScriptSurvey.Path

/-- The lister of a tree. -/
def FileTree.lister (t : FileTree) : Lister Id :=
  fun directory => t.list? directory

/-- A tree answers alike for all spellings of a directory. -/
theorem FileTree.isKeyed_lister (t : FileTree) : t.lister.IsKeyed := by
  intro directory directory' h
  show t.list? directory = t.list? directory'
  rw [list?_eq, list?_eq, h]

/-- A name is a file in a directory of a tree exactly when a path of the tree leads there. -/
theorem FileTree.hasFile_look {paths : List Text} {directory name : Text} :
    Entry.hasFile name ((ofFiles paths).lister.look directory) = true ↔
      ∃ path ∈ paths, place path = (place directory).append name :=
  hasFile_list?_ofFiles

/-! ## Taking a specifier apart -/

namespace Target

variable {p : Place}

/-- A place without steps is a directory. -/
theorem isDirectory_of_nil (h : p.steps = []) (marked : Bool) :
    (ofSpecifier (p.spell marked)).isDirectory = true := by
  unfold Place.spell
  rw [h]
  cases p.rooted <;> cases marked <;> decide

/-- **A specifier in normal form** falls into directory and name as its place does, and names a
directory outright when its last step is one up. -/
theorem ofSpecifier_spell (h : p.IsSettled) {s : Text} (hs : (p.append s).IsSettled) (marked : Bool) :
    ofSpecifier ((p.append s).spell marked) =
      ⟨(p.append s).spell marked, p.spell marked, s, s == up⟩ := by
  have hmem : s ∈ (p.append s).steps := List.mem_append_right _ List.mem_cons_self
  obtain ⟨hsegment, hne, hdot⟩ := hs.isSegment hmem
  obtain ⟨hdirectory, hbase⟩ := directory_within (p.spell marked) hsegment
    fun hend => h.eq_root_of_endsInSeparator hend
  rw [← h.spell_append hsegment] at hdirectory hbase
  -- the last character is no separator
  have hlast : (((p.append s).spell marked).getLast? == some '/') = false := by
    rw [beq_eq_false_iff_ne]
    intro hlast
    have hend : endsInSeparator ((p.append s).spell marked) = true := by
      rw [endsInSeparator, hlast]
      rfl
    have hroot := hs.place_spell marked
    rw [hs.eq_root_of_endsInSeparator hend] at hroot
    have hsteps : [] = p.steps ++ [s] := congrArg Place.steps hroot
    exact absurd hsteps (by simp)
  unfold ofSpecifier
  simp only [hs.withoutSeparator_spell, hdirectory, hbase, hlast, Bool.false_or]
  rw [List.isEmpty_eq_false_iff.mpr hne, beq_eq_false_iff_ne.mpr hdot]
  rfl

end Target

/-! ## The file that is found -/

section

variable {order : ProbeOrder} {paths : List Text}

/-- A file found in a directory of a tree spells the place of a path of the tree. -/
theorem exists_spell_within {p : Place} (h : p.IsSettled) {marked : Bool} {name : Text}
    (hfile : Entry.hasFile name ((FileTree.ofFiles paths).lister.look (p.spell marked)) = true) :
    Target.within (p.spell marked) name = (p.append name).spell marked ∧
      ∃ path ∈ paths, place path = p.append name := by
  refine ⟨(h.spell_append (FileTree.isSegment_of_hasFile hfile) marked).symm, ?_⟩
  obtain ⟨path, hpath, hplace⟩ := FileTree.hasFile_look.mp hfile
  rw [h.place_spell] at hplace
  exact ⟨path, hpath, hplace⟩

theorem exists_spell_of_resolveIndexWith {p : Place} (h : p.IsSettled) {marked : Bool} {t : Target}
    (ht : t.path = p.spell marked) {specifier file : Text} {tried : List Text}
    (hfile : resolveIndexWith order (FileTree.ofFiles paths).lister.look specifier t tried = .ok file) :
    ∃ q : Place, file = q.spell marked ∧ q.steps ≠ [] ∧ ∃ path ∈ paths, place path = q := by
  unfold resolveIndexWith Target.index? at hfile
  rw [ht] at hfile
  split at hfile
  · next found hfound =>
      obtain ⟨name, hname, rfl⟩ := Option.map_eq_some_iff.mp hfound
      have hhas := List.find?_some hname
      obtain ⟨hspell, hpath⟩ := exists_spell_within h hhas
      refine ⟨p.append name, ?_, Place.steps_append_ne_nil p name, hpath⟩
      rw [← Except.ok.inj hfile, hspell]
  · exact absurd hfile (by simp)

/-- **The path found for a specifier** in normal form spells the place of a path of the tree, with a
marker when the specifier has one. It is no directory. -/
theorem exists_spell_of_resolveWith {p : Place} (h : p.IsSettled) {marked : Bool} {file : Text}
    (hfile : resolveWith order (FileTree.ofFiles paths).lister.look (p.spell marked) = .ok file) :
    ∃ q : Place, file = q.spell marked ∧ q.steps ≠ [] ∧ ∃ path ∈ paths, place path = q := by
  have hpath : (Target.ofSpecifier (p.spell marked)).path = p.spell marked :=
    h.withoutSeparator_spell marked
  simp only [resolveWith] at hfile
  split at hfile
  · exact exists_spell_of_resolveIndexWith h hpath hfile
  · next hdir =>
      rcases h.eq_nil_or_append with hnil | ⟨q, s, rfl, hq⟩
      · exact absurd (Target.isDirectory_of_nil hnil marked) hdir
      · split at hfile
        · next found hfound =>
            rw [Target.ofSpecifier_spell hq h] at hfound
            obtain ⟨name, hname, rfl⟩ := Option.map_eq_some_iff.mp hfound
            have hhas := List.find?_some hname
            obtain ⟨hspell, hfound⟩ := exists_spell_within hq hhas
            refine ⟨q.append name, ?_, Place.steps_append_ne_nil q name, hfound⟩
            rw [← Except.ok.inj hfile, hspell]
        · split at hfile
          · exact exists_spell_of_resolveIndexWith h hpath hfile
          · exact absurd hfile (by simp)

end

end ScriptSurvey
