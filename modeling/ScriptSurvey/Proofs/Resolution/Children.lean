import ScriptSurvey.Proofs.List.FirstSeen
import ScriptSurvey.Proofs.Resolution.Tree

/-!
# The listings of a tree

A tree of files lists the directories that its paths lead through, and no others. In each of them
stands one entry for each child towards the paths, in the order in which the children first came up.
One name may stand for both, a file where a path ends and a directory where another goes on, and then
its entry says both.
-/

namespace ScriptSurvey

open ScriptSurvey.Path

namespace Entry

/-- An entry whose name is there already adds no name, and another one adds its own at the end. -/
theorem map_name_insert (e : Entry) (es : List Entry) :
    (e.insert es).map Entry.name =
      if e.name ∈ es.map Entry.name then es.map Entry.name else es.map Entry.name ++ [e.name] := by
  induction es with
  | nil => rfl
  | cons d es ih =>
      rw [insert, List.map_cons]
      by_cases hd : d.name = e.name
      · rw [if_pos hd, List.map_cons, if_pos (hd ▸ List.mem_cons_self)]
        rfl
      · have hmem : e.name ∈ d.name :: es.map Entry.name ↔ e.name ∈ es.map Entry.name :=
          List.mem_cons.trans ⟨fun h => h.resolve_left fun h => hd h.symm, .inr⟩
        rw [if_neg hd, List.map_cons, ih]
        simp only [hmem]
        split
        · rfl
        · rfl

end Entry

namespace FileTree

/-- What a listing of a directory has to say, given the paths of the files. -/
structure IsListing (paths : List Text) (d : Place) (listing : Option (List Entry)) : Prop where
  /-- The directory is there if some path leads below it. -/
  isSome : listing.isSome = true ↔ ∃ path ∈ paths, d.Below (place path)
  /-- The names are the children towards the paths, in the order in which they first came up. -/
  names : (listing.getD []).map Entry.name =
    (paths.filterMap fun path => d.child? (place path)).eraseDups
  /-- No name comes up twice. -/
  once : ((listing.getD []).map Entry.name).Nodup
  /-- A file is where a path ends. -/
  isFile : ∀ e ∈ listing.getD [],
    e.isFile = true ↔ ∃ path ∈ paths, place path = d.append e.name
  /-- A directory is where a path goes on. -/
  isDirectory : ∀ e ∈ listing.getD [],
    e.isDirectory = true ↔ ∃ path ∈ paths, (d.append e.name).Below (place path)

variable {d : Place}

theorem map_name_entry? (d p : Place) : (d.entry? p).map Entry.name = d.child? p := by
  unfold Place.entry?
  cases d.child? p with
  | none => rfl
  | some n =>
      rw [Option.map_some, Option.map_some]
      split
      · rfl
      · rfl

/-- The children that some paths have in a directory, each once. -/
theorem map_name_at?_ofFiles (hd : d.IsSettled) (paths : List Text) :
    (((ofFiles paths).at? d).getD []).map Entry.name =
      (paths.filterMap fun path => d.child? (place path)).eraseDups := by
  -- names are added at the end, so the induction takes the last path off
  induction paths using List.reverseRecOn with
  | nil => rfl
  | append_singleton paths path ih =>
      have hchild := map_name_entry? d (place path)
      rw [at?_ofFiles_concat hd, List.filterMap_append, List.filterMap_cons, List.filterMap_nil]
      cases he : d.entry? (place path) with
      | none =>
          rw [he, Option.map_none] at hchild
          rw [← hchild, List.append_nil, withEntry, ih]
      | some e =>
          rw [he, Option.map_some] at hchild
          rw [← hchild, withEntry, Option.getD_some, Entry.map_name_insert, eraseDups_concat, ih]
          simp only [List.mem_eraseDups]

/-- A directory is there as soon as a path leads below it. -/
theorem isSome_at?_ofFiles (hd : d.IsSettled) (paths : List Text) :
    ((ofFiles paths).at? d).isSome = true ↔ ∃ path ∈ paths, d.Below (place path) := by
  induction paths using List.reverseRecOn with
  | nil => exact ⟨fun h => absurd h Bool.false_ne_true, fun ⟨_, h, _⟩ => absurd h List.not_mem_nil⟩
  | append_singleton paths path ih =>
      rw [at?_ofFiles_concat hd, exists_mem_concat, ← ih, ← Place.isSome_child?_iff,
        ← map_name_entry?, Option.isSome_map]
      cases d.entry? (place path) with
      | none => exact ⟨.inl, fun h => h.resolve_right Bool.false_ne_true⟩
      | some e => exact ⟨fun _ => .inr rfl, fun _ => rfl⟩

/-- An entry is the only one of its name, so it alone decides what the name stands for. -/
theorem any_name_iff {kind : Entry → Bool} {es : List Entry} (honce : (es.map Entry.name).Nodup)
    {e : Entry} (he : e ∈ es) :
    es.any (fun x => kind x && x.name == e.name) = true ↔ kind e = true := by
  rw [List.any_eq_true]
  constructor
  · rintro ⟨x, hx, hkind⟩
    rw [Bool.and_eq_true, beq_iff_eq] at hkind
    rw [← List.inj_on_of_nodup_map honce hx he hkind.2]
    exact hkind.1
  · intro hkind
    exact ⟨e, he, by rw [hkind, beq_self_eq_true, Bool.and_self]⟩

/-- A path that leads to no file, such as that of the current directory, leaves the tree as it is. -/
theorem add_eq_self {path : Text}
    (h : base (normalize path) = [] ∨ base (normalize path) = ['.']) (t : FileTree) :
    t.add path = t := by
  have hnone : ((base (normalize path)).isEmpty || base (normalize path) == ['.']) = true := by
    rcases h with h | h
    · rw [h]
      rfl
    · rw [h]
      rfl
  rw [add, if_pos hnone]

/-- **A tree of files is the tree of its paths**: however a directory is spelled, it is listed as
the directory of its place, with what the paths have there. A place is one of normalized paths, and
paths without a name of their own add nothing to any tree. -/
theorem isListing_ofFiles (paths : List Text) (directory : Text) :
    IsListing paths (place directory) ((ofFiles paths).list? directory) ∧
      (∀ path, place (normalize path) = place path) ∧
      ∀ path, base (normalize path) = [] ∨ base (normalize path) = ['.'] →
        ∀ t : FileTree, t.add path = t := by
  have hd := isSettled_place directory
  have hnames : (((ofFiles paths).list? directory).getD []).map Entry.name =
      (paths.filterMap fun path => (place directory).child? (place path)).eraseDups := by
    rw [list?_eq_at?, map_name_at?_ofFiles hd]
  have honce : ((((ofFiles paths).list? directory).getD []).map Entry.name).Nodup := by
    rw [hnames]
    exact nodup_eraseDups _
  refine ⟨⟨?_, hnames, honce, fun e he => ?_, fun e he => ?_⟩, place_normalize,
    fun path h t => add_eq_self h t⟩
  · rw [list?_eq_at?, isSome_at?_ofFiles hd]
  · rw [← hasFile_list?_ofFiles, Entry.hasFile, any_name_iff honce he]
  · rw [← hasDirectory_list?_ofFiles, Entry.hasDirectory, any_name_iff honce he]

/-- A name that is a file of one path and a directory of another has one entry. -/
theorem isListing_of_shared_name :
    base (normalize "src/..".toList) = ['.'] ∧ empty.add "src/..".toList = empty ∧
      IsListing ["src/a.ts".toList, "./src/lib/x.ts".toList, "src\\lib".toList]
        (place "./src//".toList) (some [.file "a.ts".toList, ⟨"lib".toList, true, true⟩]) := by
  have hbase : base (normalize "src/..".toList) = ['.'] := by decide
  obtain ⟨hlisting, -, hadd⟩ := isListing_ofFiles
    ["src/a.ts".toList, "./src/lib/x.ts".toList, "src\\lib".toList] "./src//".toList
  have hentries : (ofFiles ["src/a.ts".toList, "./src/lib/x.ts".toList, "src\\lib".toList]).list?
      "./src//".toList = some [.file "a.ts".toList, ⟨"lib".toList, true, true⟩] := by
    decide +kernel
  exact ⟨hbase, hadd _ (.inr hbase) empty, hentries ▸ hlisting⟩

end FileTree

end ScriptSurvey
