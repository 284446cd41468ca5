import Mathlib.Data.List.Induction
import ScriptSurvey.Proofs.Path.Below

/-!
# What a tree of files holds

One more path in a tree is one more entry in each directory that the path leads through, and none in
any other: the child of the directory towards the path, which is a file if the path ends there and a
directory if it goes on (`at?_add`). So the tree of some paths answers a listing of a directory with
the names that the paths have there. A name is a file exactly when one of the paths leads one step
further than the directory, by that name, and a directory exactly when one of them leads below it.
How the paths and the directory are spelled makes no difference.
-/

namespace ScriptSurvey

open ScriptSurvey.Path

namespace Entry

/-- What an entry stands for comes to what the entry of its name stood for. -/
theorem any_insert {kind : Entry → Bool} (hkind : ∀ d e, kind (merge d e) = (kind d || kind e))
    (name : Text) (e : Entry) (es : List Entry) :
    (e.insert es).any (fun d => kind d && d.name == name) =
      (es.any (fun d => kind d && d.name == name) || (kind e && e.name == name)) := by
  induction es with
  | nil => rw [insert, List.any_cons, List.any_nil, Bool.false_or, Bool.or_false]
  | cons d es ih =>
      rw [insert]
      by_cases hd : d.name = e.name
      · have hname : (d.merge e).name = e.name := hd
        rw [if_pos hd, List.any_cons, List.any_cons, hkind, hname, hd]
        cases kind d <;> cases kind e <;> cases e.name == name <;> simp
      · rw [if_neg hd, List.any_cons, List.any_cons, ih, Bool.or_assoc]

end Entry

/-! ## Directories that a path leads through -/

namespace Path

variable {p : Place}

/-- A directory has a name of its own if its place has steps. -/
theorem Place.IsSettled.isNamed_spell (h : p.IsSettled) (marked : Bool) :
    isNamed (p.spell marked) = true ↔ p.steps ≠ [] := by
  constructor
  · intro hnamed hnil
    revert hnamed
    unfold spell
    rw [hnil]
    cases p.rooted <;> cases marked <;> decide
  · intro hsteps
    have hne {x : Text} (hx : (place x).steps = []) : p.spell marked ≠ x := by
      rintro rfl
      rw [h.place_spell] at hx
      exact hsteps hx
    have hempty := hne (x := []) rfl
    have hroot := hne (x := ['/']) rfl
    have hdot := hne (x := ['.']) rfl
    unfold isNamed
    simp only [Bool.and_eq_true, Bool.not_eq_true', List.isEmpty_eq_false_iff, bne_iff_ne]
    exact ⟨⟨hempty, hroot⟩, hdot⟩

/-- The path to a file is longer than the path to its directory. -/
theorem length_within (directory : Text) {s : Text} (hs : IsSegment s) (hne : s ≠ []) :
    directory.length < (Target.within directory s).length := by
  have hpos := List.length_pos_iff.mpr hne
  unfold Target.within combine withSeparator
  rw [isRooted_of_isSegment hs]
  cases directory with
  | nil => exact hpos
  | cons c directory =>
      simp only [List.isEmpty_cons, Bool.or_self, Bool.false_eq_true, if_false]
      split
      · rw [List.length_append]
        omega
      · rw [List.length_append, List.length_append]
        omega

/-- The last step of a place is its name, and the other steps are its directory. -/
theorem Place.IsSettled.directory_spell_append {s : Text} (h : (p.append s).IsSettled)
    (marked : Bool) :
    directory ((p.append s).spell marked) = p.spell marked ∧
      base ((p.append s).spell marked) = s := by
  have hsegment : IsSegment s :=
    (h.isSegment (List.mem_append_right _ List.mem_cons_self)).1
  rw [h.of_append.spell_append hsegment]
  exact directory_within (p.spell marked) hsegment
    fun hend => h.of_append.eq_root_of_endsInSeparator hend

theorem enclosing_spell_append {s : Text} (h : (p.append s).IsSettled) (marked : Bool) :
    enclosing ((p.append s).spell marked) = p.spell marked :: enclosing (p.spell marked) := by
  obtain ⟨hsegment, hne, -⟩ := h.isSegment (List.mem_append_right _ List.mem_cons_self)
  have hlt := length_within (p.spell marked) hsegment hne
  rw [← h.of_append.spell_append hsegment] at hlt
  rw [enclosing, (h.directory_spell_append marked).1, if_pos hlt]

/-- Whether a path leads to no file: its place has no last step. -/
theorem Place.IsSettled.base_spell_iff (h : p.IsSettled) (marked : Bool) :
    ((base (p.spell marked)).isEmpty || base (p.spell marked) == ['.']) = true ↔
      p.steps = [] := by
  constructor
  · intro hbase
    rcases h.eq_nil_or_append with hnil | ⟨q, s, rfl, -⟩
    · exact hnil
    · rw [(h.directory_spell_append marked).2] at hbase
      obtain ⟨-, hne, hdot⟩ := h.isSegment (List.mem_append_right _ List.mem_cons_self)
      rw [List.isEmpty_eq_false_iff.mpr hne, beq_eq_false_iff_ne.mpr hdot] at hbase
      exact absurd hbase Bool.false_ne_true
  · intro hnil
    unfold Place.spell
    rw [hnil]
    cases p.rooted <;> cases marked <;> decide

end Path

/-- The entry that a directory has for a path below it. -/
def Path.Place.entry? (d p : Place) : Option Entry :=
  (d.child? p).map fun n => if p = d.append n then .file n else .directory n

namespace FileTree

/-! ## One more entry -/

theorem lookup_insertAt (k k' : Text) (e : Entry) (ds : List (Text × List Entry)) :
    (insertAt k e ds).lookup k' =
      if k' = k then some (e.insert ((ds.lookup k).getD [])) else ds.lookup k' := by
  induction ds with
  | nil =>
      rw [insertAt, List.lookup_cons, List.lookup_nil]
      by_cases hk : k' = k
      · rw [if_pos hk, hk, beq_self_eq_true]
        rfl
      · rw [if_neg hk, beq_eq_false_iff_ne.mpr hk]
  | cons d ds ih =>
      obtain ⟨kd, es⟩ := d
      rw [insertAt]
      -- the entry goes in where the key stands, and no later entry of that key is looked up
      by_cases hd : kd = k
      · subst hd
        rw [if_pos rfl, List.lookup_cons, List.lookup_cons, List.lookup_cons, beq_self_eq_true]
        by_cases hk : k' = kd
        · rw [if_pos hk, hk, beq_self_eq_true]
          rfl
        · rw [if_neg hk, beq_eq_false_iff_ne.mpr hk]
      · have hkd : (k == kd) = false := beq_eq_false_iff_ne.mpr fun h => hd h.symm
        rw [if_neg hd, List.lookup_cons, List.lookup_cons, List.lookup_cons, ih, hkd]
        by_cases hk : k' = kd
        · subst hk
          rw [beq_self_eq_true, if_neg hd, if_neg hd]
        · rw [beq_eq_false_iff_ne.mpr hk]

/-- The entries of the directory of a place. -/
def at? (d : Place) (t : FileTree) : Option (List Entry) :=
  t.directories.lookup (d.spell false)

/-- The entries after one more, if there is one. -/
def withEntry (e? : Option Entry) (es? : Option (List Entry)) : Option (List Entry) :=
  match e? with
  | some e => some (e.insert (es?.getD []))
  | none => es?

/-- A directory is listed under the key that listings have, which is the spelling of its place. -/
theorem list?_eq (t : FileTree) (directory : Text) :
    t.list? directory = t.directories.lookup (Listings.key directory) := by
  rw [list?, treeKey_normalize]

theorem list?_eq_at? (t : FileTree) (directory : Text) :
    t.list? directory = t.at? (place directory) := by
  rw [list?_eq, key_eq_spell, at?]

variable {p d : Place}

/-- One more entry in a directory changes no other. -/
theorem at?_insert (h : p.IsSettled) (hd : d.IsSettled) (marked : Bool) (e : Entry) (t : FileTree) :
    (t.insert (p.spell marked) e).at? d =
      if d = p then some (e.insert ((t.at? d).getD [])) else t.at? d := by
  unfold at? insert
  rw [lookup_insertAt, h.treeKey_spell]
  by_cases hdp : d = p
  · rw [if_pos hdp, if_pos (congrArg (Place.spell false) hdp), hdp]
  · rw [if_neg hdp, if_neg fun he => hdp (hd.eq_of_spell h he)]

/-! ## One more path -/

/-- **The directories that a path leads through** each become a directory in the one above. -/
theorem at?_foldl_enclosing (h : p.IsSettled) (hd : d.IsSettled) (marked : Bool) (t : FileTree) :
    (((p.spell marked :: enclosing (p.spell marked)).takeWhile isNamed).foldl
        (fun t x => t.insert (directory x) (.directory (base x))) t).at? d =
      withEntry ((d.child? p).map Entry.directory) (t.at? d) := by
  induction hn : p.steps.length generalizing p t with
  | zero =>
      -- the root and the current directory have no name
      have hnil := List.length_eq_zero_iff.mp hn
      have hnamed : isNamed (p.spell marked) = false := by
        rw [← Bool.not_eq_true, h.isNamed_spell]
        exact fun hne => hne hnil
      have hchild : d.child? p = none := by
        rw [← Option.not_isSome_iff_eq_none, Place.isSome_child?_iff]
        exact Place.not_below_of_nil hnil
      rw [List.takeWhile_cons_of_neg (by rw [hnamed]; exact Bool.false_ne_true), hchild]
      rfl
  | succ n ih =>
      rcases h.eq_nil_or_append with hnil | ⟨q, s, rfl, hq⟩
      · rw [hnil] at hn
        exact absurd hn (by simp)
      · have hlength : q.steps.length = n := by simpa [Place.append] using hn
        obtain ⟨hdirectory, hbase⟩ := h.directory_spell_append marked
        rw [List.takeWhile_cons_of_pos ((h.isNamed_spell marked).mpr (q.steps_append_ne_nil s)),
          enclosing_spell_append h, List.foldl_cons, ih hq _ hlength, hdirectory, hbase,
          at?_insert hq hd, Place.child?_append]
        by_cases hdq : d = q
        · have hchild : d.child? q = none := by
            rw [← Option.not_isSome_iff_eq_none, Place.isSome_child?_iff, hdq]
            exact Place.not_below_self q
          rw [if_pos hdq, if_pos hdq, hchild]
          rfl
        · rw [if_neg hdq, if_neg hdq]

/-- **One more path** is one more entry in each directory that it leads through, for the child of
the directory towards the path. In any other directory it changes nothing. -/
theorem at?_add (hd : d.IsSettled) (path : Text) (t : FileTree) :
    (t.add path).at? d = withEntry (d.entry? (place path)) (t.at? d) := by
  have h := isSettled_place path
  obtain ⟨marked, hspell⟩ := exists_normalize path
  unfold add
  rw [hspell]
  simp only [h.base_spell_iff marked]
  -- a path without steps brings in nothing; any other is one step behind a place
  rcases h.eq_nil_or_append with hnil | ⟨p, s, hp, hs⟩
  · have hentry : d.entry? (place path) = none := by
      rw [Place.entry?, Option.map_eq_none_iff, ← Option.not_isSome_iff_eq_none,
        Place.isSome_child?_iff]
      exact Place.not_below_of_nil hnil
    rw [if_pos hnil, hentry]
    rfl
  · rw [hp] at h ⊢
    obtain ⟨hdirectory, hbase⟩ := h.directory_spell_append marked
    rw [if_neg (p.steps_append_ne_nil s), enclosing_spell_append h, hdirectory, hbase,
      at?_foldl_enclosing hs hd, at?_insert hs hd, Place.entry?, Place.child?_append]
    by_cases hdp : d = p
    · -- here the path ends
      have hchild : d.child? p = none := by
        rw [← Option.not_isSome_iff_eq_none, Place.isSome_child?_iff, hdp]
        exact Place.not_below_self p
      rw [if_pos hdp, if_pos hdp, hchild, hdp, Option.map_some, if_pos rfl]
      rfl
    · rw [if_neg hdp, if_neg hdp]
      congr 1
      refine Option.map_congr fun n _ => ?_
      rw [if_neg fun he => hdp (Place.append_inj he).1.symm]

/-! ## All paths -/

theorem at?_ofFiles_concat (hd : d.IsSettled) (paths : List Text) (path : Text) :
    (ofFiles (paths ++ [path])).at? d =
      withEntry (d.entry? (place path)) ((ofFiles paths).at? d) := by
  unfold ofFiles
  rw [List.foldl_append]
  exact at?_add hd path _

theorem exists_mem_concat {P : Text → Prop} {paths : List Text} {path : Text} :
    (∃ x ∈ paths ++ [path], P x) ↔ (∃ x ∈ paths, P x) ∨ P path := by
  simp only [List.mem_append, List.mem_singleton, or_and_right, exists_or, exists_eq_left]

/-- What stands in a directory of a tree are the entries that the directory has for the paths. -/
theorem any_at?_ofFiles (kind : Entry → Bool)
    (hkind : ∀ d e, kind (Entry.merge d e) = (kind d || kind e)) (hd : d.IsSettled)
    {paths : List Text} {name : Text} :
    (((ofFiles paths).at? d).getD []).any (fun e => kind e && e.name == name) = true ↔
      ∃ path ∈ paths, ∃ e, d.entry? (place path) = some e ∧ kind e = true ∧ e.name = name := by
  induction paths using List.reverseRecOn with
  | nil => exact ⟨fun h => absurd h Bool.false_ne_true, fun ⟨_, h, _⟩ => absurd h List.not_mem_nil⟩
  | append_singleton paths path ih =>
      rw [at?_ofFiles_concat hd, exists_mem_concat, ← ih]
      cases d.entry? (place path) with
      | none => exact ⟨.inl, fun h => h.resolve_right fun ⟨_, h, _⟩ => nomatch h⟩
      | some e =>
          rw [withEntry, Option.getD_some, Entry.any_insert hkind, Bool.or_eq_true, Bool.and_eq_true,
            beq_iff_eq]
          simp only [Option.some.injEq, exists_eq_left']

theorem exists_entry?_file {p : Place} {name : Text} :
    (∃ e, d.entry? p = some e ∧ e.isFile = true ∧ e.name = name) ↔ p = d.append name := by
  simp only [Place.entry?, Option.map_eq_some_iff]
  constructor
  · rintro ⟨e, ⟨n, -, rfl⟩, hfile, hname⟩
    split at hfile
    · next hp =>
        rw [if_pos hp] at hname
        exact hname ▸ hp
    · exact absurd hfile Bool.false_ne_true
  · intro hp
    exact ⟨.file name, ⟨name, Place.child?_eq_some_iff.mpr (.inl hp), if_pos hp⟩, rfl, rfl⟩

theorem exists_entry?_directory {p : Place} {name : Text} :
    (∃ e, d.entry? p = some e ∧ e.isDirectory = true ∧ e.name = name) ↔
      (d.append name).Below p := by
  simp only [Place.entry?, Option.map_eq_some_iff]
  constructor
  · rintro ⟨e, ⟨n, hchild, rfl⟩, hdirectory, hname⟩
    split at hdirectory
    · exact absurd hdirectory Bool.false_ne_true
    · next hp =>
        rw [if_neg hp] at hname
        obtain rfl : n = name := hname
        exact (Place.child?_eq_some_iff.mp hchild).resolve_left hp
  · intro hbelow
    have hne : p ≠ d.append name := by
      rintro rfl
      exact Place.not_below_self _ hbelow
    have hchild : d.child? p = some name := Place.child?_eq_some_iff.mpr (.inr hbelow)
    exact ⟨.directory name, ⟨name, hchild, if_neg hne⟩, rfl, rfl⟩

/-- **A name is a file in a directory of a tree** exactly when one of the paths of the tree leads
one step further than the directory, by that name. -/
theorem hasFile_list?_ofFiles {paths : List Text} {directory name : Text} :
    Entry.hasFile name (((ofFiles paths).list? directory).getD []) = true ↔
      ∃ path ∈ paths, place path = (place directory).append name := by
  rw [list?_eq_at?]
  refine (any_at?_ofFiles Entry.isFile (fun _ _ => rfl) (isSettled_place directory)).trans ?_
  simp only [exists_entry?_file]

/-- The files of a tree have names without separators. -/
theorem isSegment_of_hasFile {paths : List Text} {directory name : Text}
    (h : Entry.hasFile name (((ofFiles paths).list? directory).getD []) = true) :
    IsSegment name := by
  obtain ⟨path, -, hp⟩ := hasFile_list?_ofFiles.mp h
  refine ((isSettled_place path).isSegment ?_).1
  rw [hp]
  exact List.mem_append_right _ List.mem_cons_self

/-- **A name is a directory in a directory of a tree** exactly when one of the paths of the tree leads
below it. So a directory that holds a file is never missing from its own directory. -/
theorem hasDirectory_list?_ofFiles {paths : List Text} {directory name : Text} :
    Entry.hasDirectory name (((ofFiles paths).list? directory).getD []) = true ↔
      ∃ path ∈ paths, ((place directory).append name).Below (place path) := by
  rw [list?_eq_at?]
  refine (any_at?_ofFiles Entry.isDirectory (fun _ _ => rfl)
    (isSettled_place directory)).trans ?_
  simp only [exists_entry?_directory]

end FileTree

end ScriptSurvey
