import Mathlib.Data.List.Find
import ScriptSurvey.Proofs.Resolution.Found

/-!
# The first candidate that is a file

A specifier stands for a list of candidates, in the order in which they are tried, and in a tree of
files it is resolved to **the first candidate that names a file of the tree**. It has no file exactly
when no candidate names one. In particular nothing is lost by asking for a directory's index file only
where the directory is an entry: where the index file is a file of the tree, the directory is one.

The path that is returned is put together of the candidate's directory and name, with one separator
between them. So `a//b` and `a\b` are resolved to `a/b.ts`, which names the same file as the candidates
`a//b.ts` and `a\b.ts`, but is neither of them.
-/

namespace ScriptSurvey

open ScriptSurvey.Path

/-! ## Candidates -/

/-- Whether a path names one of the files, however the two are spelled. -/
def IsFileOf (files : List Text) (path : Text) : Bool :=
  files.any fun file => Listings.key file == Listings.key path

/-- A path put together of its directory and its name. -/
def Path.rejoin (path : Text) : Text :=
  Target.within (directory path) (base path)

namespace ProbeOrder

/-- Whether the extensions begin with a dot and go on behind it, and no name has a separator in it. -/
structure IsProper (order : ProbeOrder) : Prop where
  extension : ∀ ext ∈ order.extensions, ext.head? = some '.' ∧ 1 < Text.size ext ∧ IsSegment ext
  index_ne_nil : order.indexFile ≠ []
  index : IsSegment order.indexFile

/-- The paths that a specifier may stand for, in the order in which they are tried: with each of the
extensions and as it is, both spelled by `spell`, and then the index files of the directory. One that
ends in a slash, or whose last segment is none, `.` or `..`, only stands for index files. -/
def candidates (order : ProbeOrder) (spell : Text → Text) (specifier : Text) : List Text :=
  let path := withoutSeparator specifier
  let asDirectory := order.indexNames.map (Target.within path)
  if specifier.getLast? = some '/' ∨ base path ∈ [[], ['.'], up] then asDirectory
  else (order.extend path ++ [path]).map spell ++ asDirectory

end ProbeOrder

/-! ## Directory and name -/

namespace Path

theorem isSegment_append {s t : Text} (hs : IsSegment s) (ht : IsSegment t) :
    IsSegment (s ++ t) := by
  intro c hc
  rcases List.mem_append.mp hc with hc | hc
  · exact hs c hc
  · exact ht c hc

/-- A name is what stands behind the last separator. -/
theorem exists_base (path : Text) :
    IsSegment (base path) ∧ (path = base path ∧ directory path = [] ∨
      ∃ front c, isSeparator c = true ∧ path = front ++ c :: base path ∧
        directory path = if front = [] then [c] else front) := by
  -- one more character in front is part of the name only if the path had no separator
  induction path with
  | nil => exact ⟨isSegment_nil, .inl ⟨rfl, rfl⟩⟩
  | cons d path ih =>
      obtain ⟨hsegment, ⟨hpath, -⟩ | ⟨front, c, hc, hpath, -⟩⟩ := ih
      · rw [← hpath] at hsegment
        by_cases hd : isSeparator d = true
        · have hcut := cutAtLast_separator [] hd hsegment
          rw [List.nil_append] at hcut
          have hbase : base (d :: path) = path := by rw [base, hcut]
          rw [hbase]
          refine ⟨hsegment, .inr ⟨[], d, hd, rfl, ?_⟩⟩
          rw [directory, hcut]
          rfl
        · have hall : IsSegment (d :: path) := by
            intro x hx
            rcases List.mem_cons.mp hx with rfl | hx
            · exact Bool.not_eq_true _ ▸ hd
            · exact hsegment x hx
          have hcut := cutAtLast_segment hall
          have hbase : base (d :: path) = d :: path := by rw [base, hcut]
          rw [hbase]
          exact ⟨hall, .inl ⟨rfl, by rw [directory, hcut]⟩⟩
      · have hcut := cutAtLast_separator (d :: front) hc hsegment
        rw [List.cons_append, ← hpath] at hcut
        have hbase : base (d :: path) = base path := by rw [base, hcut]
        rw [hbase]
        refine ⟨hsegment, .inr ⟨d :: front, c, hc, congrArg (d :: ·) hpath, ?_⟩⟩
        rw [directory, hcut]
        rfl

/-- Characters at the end of a path belong to its name. -/
theorem directory_base_append (path : Text) {s : Text} (hs : IsSegment s) :
    directory (path ++ s) = directory path ∧ base (path ++ s) = base path ++ s := by
  obtain ⟨hsegment, ⟨hpath, hdirectory⟩ | ⟨front, c, hc, hpath, hdirectory⟩⟩ := exists_base path
  · have hall : IsSegment (path ++ s) := isSegment_append (hpath ▸ hsegment) hs
    rw [hdirectory, ← hpath, directory, base, cutAtLast_segment hall]
    exact ⟨rfl, rfl⟩
  · have hcut := cutAtLast_separator front hc (isSegment_append hsegment hs)
    rw [← List.cons_append, ← List.append_assoc, ← hpath] at hcut
    rw [hdirectory, directory, base, hcut]
    refine ⟨?_, rfl⟩
    cases front with
    | nil =>
        rw [hpath]
        rfl
    | cons d front => rfl

/-- A path leads to its name, seen from its directory. -/
theorem place_eq_enter (path : Text) : place path = (place (directory path)).enter (base path) := by
  obtain ⟨hsegment, ⟨hpath, hdirectory⟩ | ⟨front, c, hc, hpath, hdirectory⟩⟩ := exists_base path
  · have hwithin := place_within [] hsegment
    rw [hdirectory, ← hwithin, ← hpath]
    rfl
  · have hfront := place_append_separator front (base path) hc
    rw [Place.along_segment _ hsegment, ← hpath] at hfront
    rw [hfront, hdirectory]
    by_cases hnil : front = []
    · rw [if_pos hnil, hnil, List.nil_append]
    · rw [if_neg hnil, place_concat_separator hc hnil]

/-- Put together again, a path leads where it did. -/
theorem place_rejoin (path : Text) : place (rejoin path) = place path := by
  rw [rejoin, place_within _ (exists_base path).1, ← place_eq_enter]

end Path

theorem isFileOf_iff {files : List Text} {path : Text} :
    IsFileOf files path = true ↔ ∃ file ∈ files, place file = place path := by
  unfold IsFileOf
  simp only [List.any_eq_true, beq_iff_eq, key_eq_key]

/-- **A name is a file in a directory of a tree** if the path to it names one of the tree's files. -/
theorem hasFile_eq_isFileOf {files : List Text} (directory : Text) {name : Text}
    (hname : IsName name) :
    Entry.hasFile name ((FileTree.ofFiles files).lister.look directory) =
      IsFileOf files (Target.within directory name) := by
  rw [Bool.eq_iff_iff, FileTree.hasFile_look, isFileOf_iff, place_within _ hname.isSegment,
    Place.enter_of_isName hname]

/-! ## Names of candidates -/

namespace ProbeOrder

variable {order : ProbeOrder}

/-- An extension makes a name of whatever has a character. -/
theorem IsProper.isName_append (h : order.IsProper) {s ext : Text} (hs : IsSegment s) (hne : s ≠ [])
    (hext : ext ∈ order.extensions) : IsName (s ++ ext) := by
  obtain ⟨hdot, hsize, hsegment⟩ := h.extension ext hext
  obtain ⟨c, s, rfl⟩ := List.exists_cons_of_ne_nil hne
  obtain ⟨t, rfl⟩ := List.head?_eq_some_iff.mp hdot
  have ht : t ≠ [] := by
    rintro rfl
    exact absurd hsize (by decide)
  -- three characters are neither `.` nor `..`
  have hlength : 3 ≤ (c :: s ++ '.' :: t).length := by
    have := List.length_pos_iff.mpr ht
    simp only [List.length_append, List.length_cons]
    omega
  refine ⟨by simp, ?_, ?_, isSegment_append hs hsegment⟩ <;>
    · intro heq
      rw [heq] at hlength
      exact absurd hlength (by decide)

theorem IsProper.isName_of_mem_indexNames (h : order.IsProper) {n : Text}
    (hn : n ∈ order.indexNames) : IsName n := by
  obtain ⟨ext, hext, rfl⟩ := List.mem_map.mp hn
  exact h.isName_append h.index h.index_ne_nil hext

/-- A name that goes down one level does so with each extension and without one. -/
theorem IsProper.isName_of_mem (h : order.IsProper) {name : Text} (hname : IsName name) {n : Text}
    (hn : n ∈ order.extend name ++ [name]) : IsName n := by
  rcases List.mem_append.mp hn with hn | hn
  · obtain ⟨ext, hext, rfl⟩ := List.mem_map.mp hn
    exact h.isName_append hname.isSegment hname.ne_nil hext
  · rwa [List.mem_singleton.mp hn]

end ProbeOrder

/-! ## The first one -/

section

variable {order : ProbeOrder} {files : List Text}

/-- The index file found in a directory is the first of its candidates. -/
theorem index?_eq_find? (h : order.IsProper) (t : Target) :
    t.index? order ((FileTree.ofFiles files).lister.look t.path) =
      (order.indexNames.map (Target.within t.path)).find? (IsFileOf files) := by
  unfold Target.index?
  rw [List.find?_map]
  congr 1
  exact List.find?_congr fun n hn => hasFile_eq_isFileOf t.path (h.isName_of_mem_indexNames hn)

/-- The file found beside a specifier is the first of its candidates. -/
theorem file?_eq_find? (h : order.IsProper) {path : Text} {isDirectory : Bool}
    (hname : IsName (base path)) :
    (⟨path, directory path, base path, isDirectory⟩ : Target).file? order
        ((FileTree.ofFiles files).lister.look (directory path)) =
      ((order.extend path ++ [path]).map rejoin).find? (IsFileOf files) := by
  have hspelled : (order.extend path ++ [path]).map rejoin =
      (order.extend (base path) ++ [base path]).map (Target.within (directory path)) := by
    unfold ProbeOrder.extend
    simp only [List.map_append, List.map_map, List.map_cons, List.map_nil]
    congr 1
    refine List.map_congr_left fun ext hext => ?_
    obtain ⟨hdirectory, hbase⟩ := directory_base_append path (h.extension ext hext).2.2
    show Target.within (directory (path ++ ext)) (base (path ++ ext)) = _
    rw [hdirectory, hbase]
    rfl
  unfold Target.file?
  rw [hspelled, List.find?_map]
  congr 1
  exact List.find?_congr fun n hn => hasFile_eq_isFileOf _ (h.isName_of_mem hname hn)

/-- Where an index file of a directory is a file of the tree, the directory is an entry. -/
theorem hasDirectory_of_isFileOf (h : order.IsProper) {path n : Text} (hname : IsName (base path))
    (hn : n ∈ order.indexNames) (hfile : IsFileOf files (Target.within path n) = true) :
    Entry.hasDirectory (base path)
      ((FileTree.ofFiles files).lister.look (directory path)) = true := by
  have hindex := h.isName_of_mem_indexNames hn
  obtain ⟨file, hmem, hplace⟩ := isFileOf_iff.mp hfile
  refine FileTree.hasDirectory_list?_ofFiles.mpr ⟨file, hmem, ?_⟩
  rw [hplace, place_within _ hindex.isSegment, Place.enter_of_isName hindex, place_eq_enter path,
    Place.enter_of_isName hname]
  exact Place.below_append_iff.mpr (.inl rfl)

/-- What resolving comes to, given the first candidate that names a file. -/
def IsOutcome (specifier : Text) (found : Option Text) (outcome : Except Unresolved Text) : Prop :=
  match found with
  | some path => outcome = .ok path
  | none => ∃ tried, outcome = .error ⟨specifier, tried⟩

theorem IsOutcome.iff_found {specifier : Text} {found : Option Text}
    {outcome : Except Unresolved Text} (h : IsOutcome specifier found outcome) :
    (∀ path, outcome = .ok path ↔ found = some path) ∧
      ((∃ tried, outcome = .error ⟨specifier, tried⟩) ↔ found = none) := by
  cases found with
  | some path =>
      obtain rfl : outcome = .ok path := h
      exact ⟨fun path' => by rw [Except.ok.injEq, Option.some.injEq], by simp⟩
  | none =>
      obtain ⟨tried, rfl⟩ := h
      exact ⟨fun path => by simp, fun _ => rfl, fun _ => ⟨tried, rfl⟩⟩

theorem isOutcome_resolveIndexWith (h : order.IsProper) (specifier : Text) (t : Target)
    (tried : List Text) :
    IsOutcome specifier ((order.indexNames.map (Target.within t.path)).find? (IsFileOf files))
      (resolveIndexWith order (FileTree.ofFiles files).lister.look specifier t tried) := by
  unfold resolveIndexWith
  rw [index?_eq_find? h]
  cases (order.indexNames.map (Target.within t.path)).find? (IsFileOf files) with
  | some path => rfl
  | none => exact ⟨_, rfl⟩

theorem isOutcome_resolve (h : order.IsProper) (files : List Text) (specifier : Text) :
    IsOutcome specifier ((order.candidates rejoin specifier).find? (IsFileOf files))
      (resolve order (FileTree.ofFiles files).lister specifier) := by
  rw [resolve_eq order (FileTree.ofFiles files).isKeyed_lister, resolveWith]
  unfold Target.ofSpecifier ProbeOrder.candidates
  simp only
  generalize hpath : withoutSeparator specifier = path
  by_cases hdir : specifier.getLast? = some '/' ∨ base path ∈ [[], ['.'], up]
  · have hdirectory : (specifier.getLast? == some '/' || (base path).isEmpty || base path == ['.'] ||
        base path == ['.', '.']) = true := by
      simpa [up, or_assoc] using hdir
    rw [if_pos hdir, if_pos hdirectory]
    exact isOutcome_resolveIndexWith h specifier ⟨path, _, _, _⟩ []
  · have hdirectory : ¬(specifier.getLast? == some '/' || (base path).isEmpty ||
        base path == ['.'] || base path == ['.', '.']) = true := by
      simpa [up, or_assoc] using hdir
    have hname : IsName (base path) := by
      simp only [List.mem_cons, List.not_mem_nil, or_false, not_or] at hdir
      exact ⟨hdir.2.1, hdir.2.2.1, hdir.2.2.2, (exists_base path).1⟩
    rw [if_neg hdir, if_neg hdirectory, file?_eq_find? h hname, List.find?_append]
    cases ((order.extend path ++ [path]).map rejoin).find? (IsFileOf files) with
    | some file => rfl
    | none =>
        simp only [Option.none_or]
        split
        · exact isOutcome_resolveIndexWith h specifier ⟨path, _, _, _⟩ _
        · next hhas =>
            -- a directory that is no entry has no index file
            have hnone : (order.indexNames.map (Target.within path)).find? (IsFileOf files) = none := by
              rw [List.find?_eq_none]
              intro candidate hmem hfile
              obtain ⟨n, hn, rfl⟩ := List.mem_map.mp hmem
              exact hhas (hasDirectory_of_isFileOf h hname hn hfile)
            rw [hnone]
            exact ⟨_, rfl⟩

/-- Put together again, the candidates have the keys that they have as they are. -/
theorem map_key_candidates (order : ProbeOrder) (specifier : Text) :
    (order.candidates rejoin specifier).map Listings.key =
      (order.candidates id specifier).map Listings.key := by
  unfold ProbeOrder.candidates
  simp only
  split
  · rfl
  · have hpath (path : Text) : Listings.key (rejoin path) = Listings.key path :=
      key_eq_key.mpr (place_rejoin path)
    simp only [List.map_append, List.map_map, List.map_id, Function.comp_def, hpath]

/-- Whether candidates name files depends on nothing but their keys. -/
theorem forall_isFileOf_of_map_key {cs cs' : List Text}
    (h : cs.map Listings.key = cs'.map Listings.key) (hcs : ∀ c ∈ cs, IsFileOf files c = false) :
    ∀ c ∈ cs', IsFileOf files c = false := by
  intro c hc
  have hmem : Listings.key c ∈ cs.map Listings.key := h ▸ List.mem_map_of_mem hc
  obtain ⟨d, hd, hkey⟩ := List.mem_map.mp hmem
  have hnot := hcs d hd
  unfold IsFileOf at hnot ⊢
  rwa [← hkey]

/-- **A specifier is resolved to the first candidate that names a file of the tree**, put together of
its directory and its name, and has no file exactly when no candidate names one. Put together so, each
candidate has the key that it has as it is. -/
theorem resolve_ofFiles (h : order.IsProper) (files : List Text) (specifier : Text) :
    (∀ path, resolve order (FileTree.ofFiles files).lister specifier = .ok path ↔
      (order.candidates rejoin specifier).find? (IsFileOf files) = some path) ∧
    ((∃ tried, resolve order (FileTree.ofFiles files).lister specifier = .error ⟨specifier, tried⟩) ↔
      ∀ candidate ∈ order.candidates id specifier, IsFileOf files candidate = false) ∧
    (order.candidates rejoin specifier).map Listings.key =
      (order.candidates id specifier).map Listings.key := by
  have hkeys := map_key_candidates order specifier
  have hnone : (order.candidates rejoin specifier).find? (IsFileOf files) = none ↔
      ∀ candidate ∈ order.candidates id specifier, IsFileOf files candidate = false := by
    simp only [List.find?_eq_none, Bool.not_eq_true]
    exact ⟨forall_isFileOf_of_map_key hkeys, forall_isFileOf_of_map_key hkeys.symm⟩
  obtain ⟨hok, herror⟩ := (isOutcome_resolve h files specifier).iff_found
  exact ⟨hok, herror.trans hnone, hkeys⟩

/-- The order that is used when none is given is one of these. -/
theorem ProbeOrder.isProper_standard : ProbeOrder.standard.IsProper := by
  refine ⟨?_, by decide, ?_⟩
  all_goals
    unfold IsSegment
    decide +kernel

/-- Beside the directory `b` there is a file of its name with the third extension; with a slash behind
it the same specifier is the index file. -/
theorem resolve_ofFiles_respelled :
    ProbeOrder.standard.IsProper ∧
      resolve ProbeOrder.standard
          (FileTree.ofFiles ["./lib/b/index.tsx".toList, "lib/b.js".toList]).lister
          "lib//a/../b".toList = .ok "lib//a/../b.js".toList ∧
      resolve ProbeOrder.standard
          (FileTree.ofFiles ["./lib/b/index.tsx".toList, "lib/b.js".toList]).lister
          "lib//a/../b/".toList = .ok "lib//a/../b/index.tsx".toList ∧
      ∃ tried, resolve ProbeOrder.standard
          (FileTree.ofFiles ["./lib/b/index.tsx".toList, "lib/b.js".toList]).lister
          "lib/c".toList = .error ⟨"lib/c".toList, tried⟩ := by
  have h := ProbeOrder.isProper_standard
  have hresolve := resolve_ofFiles h ["./lib/b/index.tsx".toList, "lib/b.js".toList]
  refine ⟨h, ((hresolve _).1 _).mpr ?_, ((hresolve _).1 _).mpr ?_, (hresolve _).2.1.mpr ?_⟩
  all_goals decide +kernel

/-- The path that is returned need not be one of the candidates as they are: `a//b` is resolved to
`a/b.ts`, and the candidate that names this file is `a//b.ts`. -/
theorem resolve_ne_candidate :
    ¬∀ order : ProbeOrder, order.IsProper → ∀ files specifier path,
      resolve order (FileTree.ofFiles files).lister specifier = .ok path →
        (order.candidates id specifier).find? (IsFileOf files) = some path := by
  intro h
  have hnot : (resolve ProbeOrder.standard (FileTree.ofFiles ["a/b.ts".toList]).lister
      "a//b".toList).toOption = some "a/b.ts".toList ∧
      (ProbeOrder.standard.candidates id "a//b".toList).find? (IsFileOf ["a/b.ts".toList]) ≠
        some "a/b.ts".toList := by
    decide +kernel
  cases hfile : resolve ProbeOrder.standard (FileTree.ofFiles ["a/b.ts".toList]).lister
      "a//b".toList with
  | ok path =>
      rw [hfile, Except.toOption, Option.some.injEq] at hnot
      have hfound := h _ ProbeOrder.isProper_standard _ _ path hfile
      exact hnot.2 (hfound.trans (congrArg some hnot.1))
  | error u =>
      rw [hfile] at hnot
      exact absurd hnot.1 (by simp [Except.toOption])

end

end ScriptSurvey
