import ScriptSurvey.Proofs.Survey.Files

/-!
# Specifiers that name a directory

A specifier names a directory outright when it is `.` or `..` or ends in `/`, `/.` or `/..`. Resolved
as it stands, joined to the directory of the importing file, it can only be an index file in that
directory.

A survey resolves the joined specifier in normal form, which ends in the directory's own name. So it
is that index file only as long as no file stands beside the directory under its name, or under its
name with one of the extensions; such a file is taken instead.
-/

namespace ScriptSurvey

open ScriptSurvey.Path

/-! ## Names of directories -/

/-- Whether a specifier names a directory outright. -/
def Path.namesDirectory (s : Text) : Bool :=
  s == ['.'] || s == up || List.isSuffixOf ['/'] s || List.isSuffixOf ['/', '.'] s ||
    List.isSuffixOf ('/' :: up) s

/-- A segment that goes nowhere but to a directory. -/
def Path.IsDots (s : Text) : Prop :=
  s = ['.'] ∨ s = up

theorem Path.IsDots.isSegment {s : Text} (h : IsDots s) : IsSegment s := by
  rcases h with rfl | rfl
  · unfold IsSegment
    decide
  · exact isSegment_up

theorem Path.namesDirectory_cases {s : Text} (h : namesDirectory s = true) :
    IsDots s ∨ s.getLast? = some '/' ∨ ∃ front dots, s = front ++ '/' :: dots ∧ IsDots dots := by
  unfold namesDirectory at h
  simp only [Bool.or_eq_true, beq_iff_eq, List.isSuffixOf_iff_suffix] at h
  rcases h with (((h | h) | h) | h) | h
  · exact .inl (.inl h)
  · exact .inl (.inr h)
  · obtain ⟨front, rfl⟩ := h
    exact .inr (.inl List.getLast?_concat)
  · obtain ⟨front, rfl⟩ := h
    exact .inr (.inr ⟨front, _, rfl, .inl rfl⟩)
  · obtain ⟨front, rfl⟩ := h
    exact .inr (.inr ⟨front, _, rfl, .inr rfl⟩)

namespace Target

/-- A path of dots, alone or behind a separator, is a directory. -/
theorem isDirectory_of_dots {front dots : Text} {c : Char} (hc : isSeparator c = true)
    (h : IsDots dots) : (ofSpecifier (front ++ c :: dots)).isDirectory = true := by
  have hkeep : withoutSeparator (front ++ c :: dots) = front ++ c :: dots := by
    have hend : endsInSeparator (front ++ c :: dots) = false := by
      unfold endsInSeparator
      rcases h with rfl | rfl <;> simp [up, isSeparator]
    unfold withoutSeparator
    rw [hend, Bool.and_false, if_neg Bool.false_ne_true]
  have hbase : base (front ++ c :: dots) = dots := by
    rw [base, cutAtLast_separator front hc h.isSegment]
  unfold ofSpecifier
  simp only [hkeep, hbase, Bool.or_eq_true, beq_iff_eq]
  rcases h with h | h
  · exact .inl (.inr h)
  · exact .inr h

/-- **Joined to a directory**, a specifier that names a directory does so still. -/
theorem isDirectory_combine (directory : Text) {s : Text} (h : namesDirectory s = true) :
    (ofSpecifier (combine directory s)).isDirectory = true := by
  have hlast {t : Text} (ht : t.getLast? = some '/') : (ofSpecifier t).isDirectory = true := by
    unfold ofSpecifier
    simp only [ht, beq_self_eq_true, Bool.true_or]
  -- the path is the specifier, or ends in it behind a separator
  have hjoin : combine directory s = s ∨
      ∃ front c, isSeparator c = true ∧ combine directory s = front ++ c :: s := by
    unfold combine
    split
    · exact .inl rfl
    · refine .inr ?_
      unfold withSeparator
      split
      · next hend =>
          obtain ⟨front, c, rfl, hc⟩ := exists_separator hend
          exact ⟨front, c, hc, List.append_assoc ..⟩
      · exact ⟨directory, '/', rfl, List.append_assoc ..⟩
  rcases namesDirectory_cases h with hdots | hslash | ⟨front, dots, rfl, hdots⟩
  · rcases hjoin with hjoin | ⟨front, c, hc, hjoin⟩
    · rw [hjoin]
      rcases hdots with rfl | rfl <;> decide
    · rw [hjoin]
      exact isDirectory_of_dots hc hdots
  · rcases hjoin with hjoin | ⟨front, c, hc, hjoin⟩
    · rw [hjoin]
      exact hlast hslash
    · rw [hjoin]
      refine hlast ?_
      obtain ⟨t, rfl⟩ := List.getLast?_eq_some_iff.mp hslash
      rw [← List.cons_append, ← List.append_assoc, List.getLast?_concat]
  · rcases hjoin with hjoin | ⟨front', c, hc, hjoin⟩
    · rw [hjoin]
      exact isDirectory_of_dots rfl hdots
    · rw [hjoin, ← List.cons_append, ← List.append_assoc]
      exact isDirectory_of_dots rfl hdots

end Target

/-! ## Index files and siblings -/

/-- Whether a file of the tree stands beside the directory of a place, under the directory's name or
that name with one of the extensions. A step up has no siblings. -/
def HasSibling (order : ProbeOrder) (paths : List Text) (p : Place) : Prop :=
  ∃ (q : Place) (name : Text), p = q.append name ∧ name ≠ up ∧ ∃ n ∈ order.extend name ++ [name],
    ∃ path ∈ paths, place path = q.append n

section

variable {order : ProbeOrder} {paths : List Text} {p : Place}

/-- The index file of a directory lies directly in it. -/
theorem resolveIndexWith_spell (h : p.IsSettled) {marked : Bool} {t : Target}
    (ht : t.path = p.spell marked) {specifier file : Text} {tried : List Text}
    (hfile : resolveIndexWith order (FileTree.ofFiles paths).lister.look specifier t tried = .ok file) :
    ∃ n, (order.indexNames.find? fun n =>
        Entry.hasFile n ((FileTree.ofFiles paths).lister.look (p.spell marked))) = some n ∧
      place file = p.append n := by
  unfold resolveIndexWith Target.index? at hfile
  rw [ht] at hfile
  split at hfile
  · next found hfound =>
      obtain ⟨n, hn, rfl⟩ := Option.map_eq_some_iff.mp hfound
      have hhas := List.find?_some hn
      obtain ⟨hspell, path, -, hpath⟩ := exists_spell_within h hhas
      refine ⟨n, hn, ?_⟩
      rw [← Except.ok.inj hfile, hspell]
      exact (hpath ▸ isSettled_place path).place_spell marked
  · exact absurd hfile (by simp)

/-- Where no file stands beside a directory, its specifier in normal form can only be an index
file. -/
theorem resolveWith_spell_of_not_hasSibling (h : p.IsSettled) {marked : Bool}
    (hsibling : ¬HasSibling order paths p) {file : Text}
    (hfile : resolveWith order (FileTree.ofFiles paths).lister.look (p.spell marked) = .ok file) :
    ∃ n, (order.indexNames.find? fun n =>
        Entry.hasFile n ((FileTree.ofFiles paths).lister.look (p.spell marked))) = some n ∧
      place file = p.append n := by
  have hpath : (Target.ofSpecifier (p.spell marked)).path = p.spell marked :=
    h.withoutSeparator_spell marked
  simp only [resolveWith] at hfile
  split at hfile
  · exact resolveIndexWith_spell h hpath hfile
  · next hdir =>
      rcases h.eq_nil_or_append with hnil | ⟨q, name, rfl, hq⟩
      · exact absurd (Target.isDirectory_of_nil hnil marked) hdir
      · rw [Target.ofSpecifier_spell hq h, beq_iff_eq] at hdir
        split at hfile
        · next found hfound =>
            -- such a file would stand beside the directory
            rw [Target.ofSpecifier_spell hq h] at hfound
            obtain ⟨n, hn, -⟩ := Option.map_eq_some_iff.mp hfound
            have hhas := List.find?_some hn
            obtain ⟨-, hmem⟩ := exists_spell_within hq hhas
            exact absurd ⟨q, name, rfl, hdir, n, List.mem_of_find?_eq_some hn, hmem⟩ hsibling
        · split at hfile
          · exact resolveIndexWith_spell h hpath hfile
          · exact absurd hfile (by simp)

/-- Where a file stands beside a directory, the specifier of the directory in normal form is such a
file. -/
theorem resolveWith_spell_of_hasSibling (h : p.IsSettled) {marked : Bool}
    (hsibling : HasSibling order paths p) {file : Text}
    (hfile : resolveWith order (FileTree.ofFiles paths).lister.look (p.spell marked) = .ok file) :
    ∃ (q : Place) (name : Text), p = q.append name ∧
      ∃ n ∈ order.extend name ++ [name], place file = q.append n := by
  obtain ⟨q, name, rfl, hname, n, hn, path, hpath, hplace⟩ := hsibling
  have hq := h.of_append
  have hdir : ¬((name == up) = true) := by rwa [beq_iff_eq]
  have hhas : Entry.hasFile n ((FileTree.ofFiles paths).lister.look (q.spell marked)) = true := by
    refine FileTree.hasFile_look.mpr ⟨path, hpath, ?_⟩
    rw [hplace, hq.place_spell]
  simp only [resolveWith, Target.ofSpecifier_spell hq h, if_neg hdir] at hfile
  split at hfile
  · next found hfound =>
      obtain ⟨n, hn, rfl⟩ := Option.map_eq_some_iff.mp hfound
      have hhas := List.find?_some hn
      obtain ⟨hspell, path, -, hpath⟩ := exists_spell_within hq hhas
      refine ⟨q, name, rfl, n, List.mem_of_find?_eq_some hn, ?_⟩
      rw [← Except.ok.inj hfile, hspell]
      exact (hpath ▸ isSettled_place path).place_spell marked
  · next hnone =>
      -- the one that stands there would have been found
      have hnot := List.find?_eq_none.mp (Option.map_eq_none_iff.mp hnone) n hn
      exact absurd hhas hnot

end

/-! ## The claim of a directory -/

/-- **A specifier that names a directory** is, as it stands, the index file that is found there for
any spelling of the directory. -/
theorem exists_resolve_of_isDirectory {order : ProbeOrder} {paths : List Text} {s : Text}
    (hdir : (Target.ofSpecifier s).isDirectory = true) {d : Text} (hd : place d = place s) {n : Text}
    (hn : (order.indexNames.find? fun n =>
      Entry.hasFile n ((FileTree.ofFiles paths).lister.look d)) = some n) :
    ∃ file, resolve order (FileTree.ofFiles paths).lister s = .ok file ∧
      place file = (place s).append n := by
  have hhas := List.find?_some hn
  obtain ⟨path, -, hpath⟩ := FileTree.hasFile_look.mp hhas
  have hplace : place (withoutSeparator s) = place s := place_withoutSeparator s
  have hlook : (FileTree.ofFiles paths).lister.look (withoutSeparator s) =
      (FileTree.ofFiles paths).lister.look d := by
    unfold Lister.look
    rw [(FileTree.ofFiles paths).isKeyed_lister _ d (key_eq_key.mpr (hplace.trans hd.symm))]
  refine ⟨Target.within (withoutSeparator s) n, ?_, ?_⟩
  · rw [resolve_eq order (FileTree.ofFiles paths).isKeyed_lister, resolveWith]
    simp only [hdir, if_true]
    unfold resolveIndexWith Target.index?
    have hpath : (Target.ofSpecifier s).path = withoutSeparator s := rfl
    rw [hpath, hlook, hn]
    rfl
  · rw [place_within _ (FileTree.isSegment_of_hasFile hhas), hplace]
    rw [hd] at hpath
    exact (hpath ▸ isSettled_place path).enter_eq_append

/-- What a specifier that names a directory turns out to be in a survey, given the specifier joined
to the directory of its importer: the index file that the joined specifier is, unless a file stands
beside the directory, and then such a file. -/
structure IsDirectoryFile (order : ProbeOrder) (paths : List Text) (joined file : Text) : Prop where
  index : ¬HasSibling order paths (place joined) →
    ∃ n ∈ order.indexNames, place file = (place joined).append n ∧
      ∃ file', resolve order (FileTree.ofFiles paths).lister joined = .ok file' ∧
        Listings.key file' = Listings.key file
  sibling : HasSibling order paths (place joined) →
    ∃ (p : Place) (name : Text), place joined = p.append name ∧
      ∃ n ∈ order.extend name ++ [name], place file = p.append n

/-- **A specifier that names a directory in a survey** is the index file in that directory, unless a
file stands beside the directory under its name. -/
theorem isDirectoryFile_of_namesDirectory {settings : Settings} {paths : List Text}
    {sources : List SourceFile} {f : FileSurvey}
    (hf : f ∈ (Survey.runWith settings (FileTree.ofFiles paths).lister sources).files)
    {r : ImportRecord} (hr : r ∈ f.imports.records) (hdir : namesDirectory r.module = true)
    {file : Text} (hfile : r.resolved? = some file) :
    IsDirectoryFile (Survey.probeOrder settings) paths
      (combine (directory (unifySeparators f.path)) r.module) file := by
  have hattached :=
    Survey.isAttachedIn_of_mem_files (FileTree.ofFiles paths).isKeyed_lister hf hr
  have hfound := Survey.found_eq_some.mp (hattached.found_eq hfile)
  rw [resolveFrom] at hfound
  have hjoined := Target.isDirectory_combine (directory (unifySeparators f.path)) hdir
  generalize combine (directory (unifySeparators f.path)) r.module = joined at hfound hjoined ⊢
  have hsettled := isSettled_place joined
  obtain ⟨marked, hspell⟩ := exists_normalize joined
  rw [hspell] at hfound
  constructor
  · intro hsibling
    obtain ⟨n, hn, hplace⟩ := resolveWith_spell_of_not_hasSibling hsettled hsibling hfound
    obtain ⟨file', hfile', hplace'⟩ :=
      exists_resolve_of_isDirectory hjoined (hsettled.place_spell marked) hn
    refine ⟨n, List.mem_of_find?_eq_some hn, hplace, file', hfile', ?_⟩
    exact key_eq_key.mpr (hplace'.trans hplace.symm)
  · intro hsibling
    exact resolveWith_spell_of_hasSibling hsettled hsibling hfound

/-- A directory with a slash behind its name and no file beside it is its index file. -/
theorem isDirectoryFile_of_trailing_slash :
    ∃ f ∈ (Survey.runWith Settings.standard
        (FileTree.ofFiles ["/app/src/utils/index.ts".toList]).lister
        [⟨"/app/src/main.ts".toList, "import x from './utils/'".toList⟩]).files,
      ∃ r ∈ f.imports.records, namesDirectory r.module = true ∧
        r.resolved? = some "/app/src/utils/index.ts".toList ∧
        ∃ file, resolve (Survey.probeOrder Settings.standard)
            (FileTree.ofFiles ["/app/src/utils/index.ts".toList]).lister
            "/app/src/./utils/".toList = .ok file ∧
          Listings.key file = Listings.key "/app/src/utils/index.ts".toList := by
  have hrecord : ∃ f ∈ (Survey.runWith Settings.standard
      (FileTree.ofFiles ["/app/src/utils/index.ts".toList]).lister
      [⟨"/app/src/main.ts".toList, "import x from './utils/'".toList⟩]).files,
      ∃ r ∈ f.imports.records, namesDirectory r.module = true ∧
        r.resolved? = some "/app/src/utils/index.ts".toList ∧
        combine (directory (unifySeparators f.path)) r.module = "/app/src/./utils/".toList := by
    decide +kernel
  obtain ⟨f, hf, r, hr, hdir, hfile, hjoined⟩ := hrecord
  have hplace : place "/app/src/./utils/".toList =
      ⟨true, ["app".toList, "src".toList, "utils".toList]⟩ := by decide +kernel
  have hindex : place "/app/src/utils/index.ts".toList =
      ⟨true, ["app".toList, "src".toList, "utils".toList, "index.ts".toList]⟩ := by decide +kernel
  have hsibling : ¬HasSibling (Survey.probeOrder Settings.standard)
      ["/app/src/utils/index.ts".toList] (place "/app/src/./utils/".toList) := by
    -- the only file lies one level further down
    rintro ⟨q, name, hq, -, n, -, path, hpath, hfile⟩
    rw [hplace] at hq
    rw [List.mem_singleton.mp hpath, hindex] at hfile
    have hlength := congrArg (·.steps.length) hq
    have hlength' := congrArg (·.steps.length) hfile
    simp only [Place.append, List.length_append, List.length_cons, List.length_nil] at hlength hlength'
    omega
  have hclaim := isDirectoryFile_of_namesDirectory hf hr hdir hfile
  rw [hjoined] at hclaim
  obtain ⟨-, -, -, hresolve⟩ := hclaim.index hsibling
  exact ⟨f, hf, r, hr, hdir, hfile, hresolve⟩

/-- A file beside a directory is taken in its place, though the specifier ends in a slash: it is no
index file, and not what the specifier is as it stands. -/
theorem file_beside_directory_taken :
    ¬∀ f ∈ (Survey.runWith Settings.standard
        (FileTree.ofFiles ["/app/src/utils.ts".toList, "/app/src/utils/index.ts".toList]).lister
        [⟨"/app/src/main.ts".toList, "import x from './utils/'".toList⟩]).files,
      ∀ r ∈ f.imports.records, namesDirectory r.module = true → ∀ file ∈ r.resolved?,
        ∃ n ∈ (Survey.probeOrder Settings.standard).indexNames,
          place file = (place (combine (directory (unifySeparators f.path)) r.module)).append n := by
  decide +kernel

end ScriptSurvey
