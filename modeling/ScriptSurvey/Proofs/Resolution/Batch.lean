import ScriptSurvey.Proofs.Path.Spell

/-!
# Resolution without a cache

A pass keeps the listings that it has fetched, each under the key of its directory. Where a lister
answers alike for all spellings of a directory this makes no difference: what is recalled is what the
lister would say (`Recalls`), so a specifier is resolved by looking at the entries of directories
alone (`resolveWith`), in a pass of its own or in one with many others.
-/

namespace ScriptSurvey

/-- Whether a lister answers alike for all spellings of a directory. -/
def Lister.IsKeyed (lister : Lister Id) : Prop :=
  ∀ directory directory', Listings.key directory = Listings.key directory' →
    lister directory = lister directory'

/-- The entries of a directory; one that cannot be listed has none. -/
def Lister.look (lister : Lister Id) (directory : Text) : List Entry :=
  Option.getD (lister directory) []

/-- The index file of a directory, given the entries of directories. -/
def resolveIndexWith (order : ProbeOrder) (look : Text → List Entry) (specifier : Text) (t : Target)
    (tried : List Text) : Except Unresolved Text :=
  match t.index? order (look t.path) with
  | some path => .ok path
  | none => .error ⟨specifier, tried ++ t.indexCandidates order⟩

/-- The file of a specifier, given the entries of directories. -/
def resolveWith (order : ProbeOrder) (look : Text → List Entry) (specifier : Text) :
    Except Unresolved Text :=
  let t := Target.ofSpecifier specifier
  if t.isDirectory then resolveIndexWith order look specifier t []
  else
    match t.file? order (look t.directory) with
    | some path => .ok path
    | none =>
      if Entry.hasDirectory t.name (look t.directory) then
        resolveIndexWith order look specifier t (t.fileCandidates order)
      else .error ⟨specifier, t.fileCandidates order⟩

/-! ## What a pass recalls -/

/-- Whether the listings fetched are those that the lister would give now. -/
def Listings.Recalls (lister : Lister Id) (l : Listings) : Prop :=
  ∀ directory listing, l.known.lookup (key directory) = some listing → lister directory = listing

/-- What runs after a part of a pass starts from what that part recalls. -/
theorem run_bind_of_run {α β : Type} {part : StateT Listings Id α} {rest : α → StateT Listings Id β}
    {a : α} {l l' : Listings} (h : part.run l = (a, l')) :
    (part >>= rest).run l = (rest a).run l' := by
  rw [StateT.run_bind, h]
  rfl

section

variable {lister : Lister Id} {l : Listings}

theorem Listings.recalls_empty : empty.Recalls lister := by
  intro directory listing h
  exact absurd h (by simp [empty])

/-- **A look at a directory** gives the entries that the lister has for it, and all that is recalled
afterwards is still right. -/
theorem Listings.run_entries (hl : l.Recalls lister) (hlister : lister.IsKeyed) (directory : Text) :
    ∃ l' : Listings, l'.Recalls lister ∧
      (entries lister directory).run l = (lister.look directory, l') := by
  have hget : StateT.run (get : StateT Listings Id Listings) l = (l, l) := rfl
  cases hknown : l.known.lookup (key directory) with
  | some listing =>
      refine ⟨l, hl, ?_⟩
      unfold entries Lister.look
      rw [run_bind_of_run hget, hknown, hl directory listing hknown]
      rfl
  | none =>
      let listing : Option (List Entry) := lister directory
      refine ⟨⟨l.known ++ [(key directory, listing)]⟩, ?_, ?_⟩
      · -- what is new is recalled for all spellings of the directory, for which the lister answers alike
        intro d listing' h
        rw [List.lookup_append] at h
        cases hd : l.known.lookup (key d) with
        | some known =>
            rw [hd] at h
            exact Option.some.inj h ▸ hl d known hd
        | none =>
            rw [hd, Option.none_or, List.lookup_cons] at h
            by_cases hkey : key d = key directory
            · rw [hkey, beq_self_eq_true] at h
              rw [hlister d directory hkey]
              exact Option.some.inj h
            · rw [beq_eq_false_iff_ne.mpr hkey] at h
              exact absurd h (by simp)
      · unfold entries Lister.look
        rw [run_bind_of_run hget, hknown]
        rfl

variable (order : ProbeOrder)

theorem run_resolveIndex (hl : l.Recalls lister) (hlister : lister.IsKeyed) (specifier : Text)
    (t : Target) (tried : List Text) :
    ∃ l' : Listings, l'.Recalls lister ∧
      (resolveIndex order lister specifier t tried).run l =
        (resolveIndexWith order lister.look specifier t tried, l') := by
  obtain ⟨l', hl', hrun⟩ := Listings.run_entries hl hlister t.path
  refine ⟨l', hl', ?_⟩
  unfold resolveIndex resolveIndexWith
  rw [run_bind_of_run hrun]
  cases t.index? order (lister.look t.path) <;> rfl

/-- **One specifier of a pass** is resolved as the entries of directories say. -/
theorem run_resolveIn (hl : l.Recalls lister) (hlister : lister.IsKeyed) (specifier : Text) :
    ∃ l' : Listings, l'.Recalls lister ∧
      (resolveIn order lister specifier).run l =
        (resolveWith order lister.look specifier, l') := by
  unfold resolveIn resolveWith
  simp only
  generalize Target.ofSpecifier specifier = t
  by_cases hdir : t.isDirectory = true
  · rw [if_pos hdir, if_pos hdir]
    exact run_resolveIndex order hl hlister specifier t []
  · rw [if_neg hdir, if_neg hdir]
    obtain ⟨l', hl', hrun⟩ := Listings.run_entries hl hlister t.directory
    rw [run_bind_of_run hrun]
    cases t.file? order (lister.look t.directory) with
    | some path => exact ⟨l', hl', rfl⟩
    | none =>
        by_cases hhas : Entry.hasDirectory t.name (lister.look t.directory) = true
        · simp only [hhas, if_true]
          exact run_resolveIndex order hl' hlister specifier t (t.fileCandidates order)
        · simp only [hhas]
          exact ⟨l', hl', rfl⟩

/-- A specifier is resolved as the entries of directories say. -/
theorem resolve_eq (hlister : lister.IsKeyed) (specifier : Text) :
    resolve order lister specifier = resolveWith order lister.look specifier := by
  obtain ⟨l', -, hrun⟩ := run_resolveIn order Listings.recalls_empty hlister specifier
  exact congrArg Prod.fst hrun

/-! ## Many specifiers -/

/-- Listing directories ahead leaves nothing wrong behind. -/
theorem run_prefetch (hlister : lister.IsKeyed) (directories : List Text) :
    ∀ l : Listings, l.Recalls lister → ∃ l' : Listings, l'.Recalls lister ∧
      StateT.run (directories.forM fun d => discard (Listings.entries lister d)) l = ((), l') := by
  induction directories with
  | nil => exact fun l hl => ⟨l, hl, rfl⟩
  | cons directory directories ih =>
      intro l hl
      obtain ⟨l', hl', hrun⟩ := Listings.run_entries hl hlister directory
      obtain ⟨l'', hl'', hrest⟩ := ih l' hl'
      refine ⟨l'', hl'', ?_⟩
      have hdiscard : StateT.run (discard (Listings.entries lister directory)) l = ((), l') := by
        change StateT.run ((fun _ => ()) <$> Listings.entries lister directory) l = _
        rw [StateT.run_map, hrun]
        rfl
      exact (run_bind_of_run hdiscard).trans hrest

/-- The outcome with those of more specifiers, as the entries of directories say. -/
def Resolution.addAll (order : ProbeOrder) (look : Text → List Entry) (specifiers : List Text)
    (r : Resolution) : Resolution :=
  specifiers.foldl (fun r s => r.add s (resolveWith order look s)) r

theorem run_foldlM_add (hlister : lister.IsKeyed) (specifiers : List Text) :
    ∀ (l : Listings) (r : Resolution), l.Recalls lister → ∃ l' : Listings, l'.Recalls lister ∧
      StateT.run
        (specifiers.foldlM (fun r s => return r.add s (← resolveIn order lister s)) r) l =
          (r.addAll order lister.look specifiers, l') := by
  induction specifiers with
  | nil => exact fun l r hl => ⟨l, hl, rfl⟩
  | cons s specifiers ih =>
      intro l r hl
      obtain ⟨l', hl', hrun⟩ := run_resolveIn order hl hlister s
      obtain ⟨l'', hl'', hrest⟩ := ih l' (r.add s (resolveWith order lister.look s)) hl'
      refine ⟨l'', hl'', ?_⟩
      have hadd : StateT.run (do return r.add s (← resolveIn order lister s)) l =
          (r.add s (resolveWith order lister.look s), l') := by
        rw [run_bind_of_run hrun]
        rfl
      rw [List.foldlM_cons, run_bind_of_run hadd, hrest]
      rfl

/-- **A batch of specifiers** is resolved one after another, each once, as the entries of directories
say. -/
theorem resolveMany_eq (hlister : lister.IsKeyed) (specifiers : List Text) :
    resolveMany order lister specifiers =
      Resolution.empty.addAll order lister.look specifiers.eraseDups := by
  obtain ⟨l, hl, hprefetch⟩ :=
    run_prefetch hlister (parentKeys specifiers) Listings.empty Listings.recalls_empty
  obtain ⟨l', -, hfold⟩ := run_foldlM_add order hlister specifiers.eraseDups l .empty hl
  unfold resolveMany
  rw [StateT.run'_eq, run_bind_of_run hprefetch, hfold]
  rfl

end

namespace Resolution

variable (order : ProbeOrder) (look : Text → List Entry)

/-- The files found for specifiers, in their order. -/
theorem resolved_addAll (specifiers : List Text) (r : Resolution) :
    (r.addAll order look specifiers).resolved =
      r.resolved ++
        specifiers.filterMap fun s => (resolveWith order look s).toOption.map (s, ·) := by
  induction specifiers generalizing r with
  | nil => exact (List.append_nil _).symm
  | cons s specifiers ih =>
      unfold addAll at ih ⊢
      rw [List.foldl_cons, ih, List.filterMap_cons]
      cases resolveWith order look s with
      | ok path => exact List.append_assoc ..
      | error u => rfl

/-- **The file of a specifier in a batch** is the one that the specifier has. -/
theorem get?_addAll (specifiers : List Text) (s : Text) :
    (empty.addAll order look specifiers).get? s =
      if s ∈ specifiers then (resolveWith order look s).toOption else none := by
  unfold get?
  rw [resolved_addAll]
  simp only [empty, List.nil_append]
  -- the first outcome of a specifier is found, and all outcomes of it are the same
  induction specifiers with
  | nil => rfl
  | cons s' specifiers ih =>
      rw [List.filterMap_cons]
      by_cases hs : s = s'
      · subst hs
        rw [if_pos List.mem_cons_self]
        cases hfile : (resolveWith order look s).toOption with
        | some path => simp
        | none =>
            simp only [Option.map_none]
            rw [ih, hfile, ite_self]
      · have hmem : s ∈ s' :: specifiers ↔ s ∈ specifiers :=
          ⟨fun h => (List.mem_cons.mp h).resolve_left hs, List.mem_cons_of_mem _⟩
        simp only [hmem]
        cases (resolveWith order look s').toOption with
        | some path =>
            simp only [Option.map_some]
            rw [List.lookup_cons, beq_eq_false_iff_ne.mpr hs, ih]
        | none => exact ih

end Resolution

end ScriptSurvey
