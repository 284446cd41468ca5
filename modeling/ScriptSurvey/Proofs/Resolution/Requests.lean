import ScriptSurvey.Proofs.List.FirstSeen
import ScriptSurvey.Proofs.Path.Spell
import ScriptSurvey.Resolution.Resolve

/-!
# The requests of a pass

A lister may fail, and may answer otherwise when it is asked again. A pass over many specifiers asks
it for as little as it can (`IsSparing`): once for each directory that the specifiers are in, and
after that only for directories that may hold an index file. A directory that is spelled in several
ways, or that is wanted for several reasons, is still asked for once.

The requests are recorded behind the lister (`Lister.recorded`), which is no part of what it does.
What a pass recalls are then the requests so far, so a part of a pass is described by the requests
that it starts from and those that it ends with (`Records`).
-/

namespace ScriptSurvey

open ScriptSurvey.Path

/-- One request to a lister: the directory that it was asked for, and what it answered. -/
structure Request where
  directory : Text
  listing : Option (List Entry)
deriving DecidableEq, Repr

namespace Request

/-- The key of the directory. -/
def key (q : Request) : Text := Listings.key q.directory

/-- The entries that came of the request. -/
def entries (q : Request) : List Entry := q.listing.getD []

end Request

/-- The lister, with a record of all requests. -/
def Lister.recorded {m : Type → Type} [Monad m] (lister : Lister m) :
    Lister (StateT (List Request) m) := fun directory => do
  let listing ← lister directory
  modify (· ++ [⟨directory, listing⟩])
  pure listing

/-! ## What is asked for -/

/-- Whether a specifier is a reason to list a directory after some requests: it names the directory
outright, or it may name it, since there was no file of its name, but a directory. -/
def IsWanted (order : ProbeOrder) (requests : List Request) (specifier directory : Text) : Prop :=
  let t := Target.ofSpecifier specifier
  directory = t.path ∧
    (t.isDirectory = true ∨
      ∃ q ∈ requests, q.key = Listings.key t.directory ∧ t.file? order q.entries = none ∧
        Entry.hasDirectory t.name q.entries = true)

/-- Whether the requests for some specifiers are no more than it takes. -/
structure IsSparing (order : ProbeOrder) (specifiers : List Text) (requests : List Request) :
    Prop where
  /-- No directory is asked for twice. -/
  once : (requests.map Request.key).Nodup
  /-- The directories of the specifiers come first, in the order of the specifiers. -/
  first : parentKeys specifiers <+: requests.map Request.directory
  /-- Any other is wanted for an index file, by what was known when it was asked for. -/
  later : ∀ front q back, requests = front ++ q :: back →
    (parentKeys specifiers).length ≤ front.length →
      ∃ specifier ∈ specifiers, IsWanted order front specifier q.directory

/-- The key of a directory is a spelling of it. -/
theorem Listings.key_key (directory : Text) : key (key directory) = key directory := by
  rw [key_eq_spell directory, key_eq_spell, (isSettled_place directory).place_spell]

theorem key_of_mem_parentKeys {specifiers : List Text} {directory : Text}
    (h : directory ∈ parentKeys specifiers) : Listings.key directory = directory := by
  obtain ⟨specifier, -, rfl⟩ := List.mem_map.mp (List.mem_eraseDups.mp h)
  exact Listings.key_key _

namespace IsSparing

variable {order : ProbeOrder} {specifiers : List Text} {requests : List Request}

/-- The requests for the directories of the specifiers alone. -/
theorem of_parentKeys (h : requests.map Request.directory = parentKeys specifiers) :
    IsSparing order specifiers requests := by
  have hkeys : requests.map Request.key = parentKeys specifiers := by
    rw [← h]
    refine List.map_congr_left fun q hq => ?_
    exact key_of_mem_parentKeys (h ▸ List.mem_map_of_mem hq)
  refine ⟨?_, h ▸ List.prefix_rfl, fun front q back hrequests hlength => ?_⟩
  · rw [hkeys]
    exact nodup_eraseDups _
  · rw [← h, hrequests, List.length_map, List.length_append, List.length_cons] at hlength
    omega

/-- One more request, for a directory that is new and wanted. -/
theorem concat (h : IsSparing order specifiers requests) {q : Request}
    (hnew : q.key ∉ requests.map Request.key) {specifier : Text} (hspecifier : specifier ∈ specifiers)
    (hwanted : IsWanted order requests specifier q.directory) :
    IsSparing order specifiers (requests ++ [q]) := by
  refine ⟨?_, ?_, fun front x back hrequests hlength => ?_⟩
  · rw [List.map_append, List.map_singleton]
    refine h.once.append (List.nodup_singleton _) fun k hk hq => hnew ?_
    exact List.mem_singleton.mp hq ▸ hk
  · rw [List.map_append]
    exact h.first.trans (List.prefix_append _ _)
  · rcases List.eq_nil_or_concat back with rfl | ⟨back, y, rfl⟩
    · obtain ⟨rfl, hx⟩ := List.append_inj' hrequests rfl
      obtain rfl := (List.cons.inj hx).1
      exact ⟨specifier, hspecifier, hwanted⟩
    · -- what stood in front of an earlier request still stands there
      rw [List.concat_eq_append, ← List.cons_append, ← List.append_assoc] at hrequests
      exact h.later front x back (List.append_inj' hrequests rfl).1 hlength

/-- The directory of a specifier has been asked for. -/
theorem exists_request (h : IsSparing order specifiers requests) {specifier : Text}
    (hspecifier : specifier ∈ specifiers) :
    Listings.key (Target.ofSpecifier specifier).directory ∈ requests.map Request.key := by
  have hkey : Listings.key (Target.ofSpecifier specifier).directory ∈ parentKeys specifiers :=
    List.mem_eraseDups.mpr (List.mem_map_of_mem hspecifier)
  obtain ⟨q, hq, hdirectory⟩ := List.mem_map.mp (h.first.subset hkey)
  refine List.mem_map.mpr ⟨q, hq, ?_⟩
  rw [Request.key, hdirectory, Listings.key_key]

end IsSparing

/-! ## Parts of a pass -/

/-- What is recalled after some requests. -/
def Listings.ofRequests (requests : List Request) : Listings :=
  ⟨requests.map fun q => (q.key, q.listing)⟩

theorem lookup_ofRequests (requests : List Request) (k : Text) :
    (Listings.ofRequests requests).known.lookup k =
      (requests.find? (·.key == k)).map Request.listing := by
  unfold Listings.ofRequests
  induction requests with
  | nil => rfl
  | cons q requests ih =>
      rw [List.map_cons, List.lookup_cons, List.find?_cons, BEq.comm, ih]
      cases q.key == k with
      | true => rfl
      | false => rfl

variable {σ α β : Type}

/-- What a part of a pass makes of some requests, with the record and without. Recording changes
nothing in what the part gives, in what it recalls, and in what it does to the lister. -/
def Records (part' : StateT Listings (StateT (List Request) (StateM σ)) α)
    (part : StateT Listings (StateM σ) α) (requests : List Request)
    (Post : α → List Request → Prop) : Prop :=
  ∀ s, ∃ a requests' s',
    ((part'.run (.ofRequests requests)).run requests).run s =
        (((a, .ofRequests requests'), requests'), s') ∧
      (part.run (.ofRequests requests)).run s = ((a, .ofRequests requests'), s') ∧
      Post a requests'

namespace Records

variable {requests : List Request}

theorem pure {a : α} {Post : α → List Request → Prop} (h : Post a requests) :
    Records (σ := σ) (Pure.pure a) (Pure.pure a) requests Post :=
  fun s => ⟨a, requests, s, rfl, rfl, h⟩

/-- What runs after a part starts from the requests of that part. -/
theorem bind {part' : StateT Listings (StateT (List Request) (StateM σ)) α}
    {part : StateT Listings (StateM σ) α} {Mid : α → List Request → Prop}
    (h : Records part' part requests Mid)
    {rest' : α → StateT Listings (StateT (List Request) (StateM σ)) β}
    {rest : α → StateT Listings (StateM σ) β} {Post : β → List Request → Prop}
    (hrest : ∀ a requests', Mid a requests' → Records (rest' a) (rest a) requests' Post) :
    Records (part' >>= rest') (part >>= rest) requests Post := by
  intro s
  obtain ⟨a, requests', s', hrun', hrun, hmid⟩ := h s
  obtain ⟨b, requests'', s'', hrest', hrest, hpost⟩ := hrest a requests' hmid s'
  refine ⟨b, requests'', s'', ?_, ?_, hpost⟩
  · rw [StateT.run_bind, StateT.run_bind, StateT.run_bind, hrun']
    exact hrest'
  · rw [StateT.run_bind, StateT.run_bind, hrun]
    exact hrest

/-- A result that is not needed makes no difference to the requests. -/
theorem discard {part' : StateT Listings (StateT (List Request) (StateM σ)) α}
    {part : StateT Listings (StateM σ) α} {Post : α → List Request → Prop}
    (h : Records part' part requests Post) :
    Records (Functor.discard part') (Functor.discard part) requests
      fun _ requests' => ∃ a, Post a requests' :=
  h.bind fun a _ hpost => .pure (a := ()) ⟨a, hpost⟩

/-- An invariant of the requests is kept by a fold if each of its steps keeps it. -/
theorem foldlM {Inv : List Request → Prop} {as : List α}
    {act' : β → α → StateT Listings (StateT (List Request) (StateM σ)) β}
    {act : β → α → StateT Listings (StateM σ) β}
    (h : ∀ a ∈ as, ∀ b requests, Inv requests →
      Records (act' b a) (act b a) requests fun _ => Inv)
    (b : β) (hrequests : Inv requests) :
    Records (as.foldlM act' b) (as.foldlM act b) requests fun _ => Inv := by
  induction as generalizing b requests with
  | nil => exact .pure hrequests
  | cons a as ih =>
      rw [List.foldlM_cons, List.foldlM_cons]
      exact (h a List.mem_cons_self b requests hrequests).bind fun b requests' hrequests' =>
        ih (fun a ha => h a (List.mem_cons_of_mem _ ha)) b hrequests'

end Records

section

variable (lister : Lister (StateM σ)) {requests : List Request}

/-- **A look at a directory** that was asked for before gives the entries of that request. Any other
directory is asked for. -/
theorem records_entries (directory : Text) :
    Records (Listings.entries lister.recorded directory) (Listings.entries lister directory) requests
      fun es requests' =>
        (∃ q ∈ requests, q.key = Listings.key directory ∧ es = q.entries ∧ requests = requests') ∨
          Listings.key directory ∉ requests.map Request.key ∧
            ∃ listing, requests' = requests ++ [⟨directory, listing⟩] := by
  have hget : Records (σ := σ) get get requests fun l requests' =>
      l = .ofRequests requests ∧ requests = requests' :=
    fun s => ⟨.ofRequests requests, requests, s, rfl, rfl, rfl, rfl⟩
  unfold Listings.entries
  refine hget.bind ?_
  rintro _ _ ⟨rfl, rfl⟩
  rw [lookup_ofRequests]
  cases hfind : requests.find? (·.key == Listings.key directory) with
  | some q =>
      have hkey : q.key = Listings.key directory := by
        simpa using List.find?_some hfind
      exact .pure (.inl ⟨q, List.mem_of_find?_eq_some hfind, hkey, rfl, rfl⟩)
  | none =>
      -- whatever is answered, a failure included, is recalled under the key from now on
      have hnew : Listings.key directory ∉ requests.map Request.key := by
        intro hmem
        obtain ⟨q, hq, hkey⟩ := List.mem_map.mp hmem
        exact List.find?_eq_none.mp hfind q hq (beq_iff_eq.mpr hkey)
      intro s
      let listing := ((lister directory).run s).1
      refine ⟨listing.getD [], requests ++ [⟨directory, listing⟩], ((lister directory).run s).2,
        ?_, ?_, .inr ⟨hnew, listing, rfl⟩⟩
      · unfold Listings.ofRequests
        rw [List.map_append]
        rfl
      · unfold Listings.ofRequests
        rw [List.map_append]
        rfl

/-- **Directories listed ahead** are asked for one after another, if they are new. -/
theorem records_prefetch (directories : List Text)
    (hnew : (requests.map Request.key ++ directories.map Listings.key).Nodup) :
    Records (directories.forM fun d => discard (Listings.entries lister.recorded d))
      (directories.forM fun d => discard (Listings.entries lister d)) requests
      fun _ requests' =>
        requests'.map Request.directory = requests.map Request.directory ++ directories := by
  induction directories generalizing requests with
  | nil => exact .pure (List.append_nil _).symm
  | cons directory directories ih =>
      rw [List.map_cons, List.append_cons] at hnew
      refine (records_entries lister directory).discard.bind ?_
      rintro _ requests' ⟨es, ⟨q, hq, hkey, -⟩ | ⟨-, listing, rfl⟩⟩
      · -- this one is new
        have hnodup := hnew.of_append_left
        rw [List.nodup_append] at hnodup
        exact absurd hkey (hnodup.2.2 _ (List.mem_map_of_mem hq) _ List.mem_cons_self)
      · have hrest := @ih (requests ++ [⟨directory, listing⟩]) (by
          rw [List.map_append]
          exact hnew)
        rw [List.map_append, List.append_assoc] at hrest
        exact hrest

variable (order : ProbeOrder) {specifiers : List Text} (h : IsSparing order specifiers requests)
  {specifier : Text} (hspecifier : specifier ∈ specifiers)

include h hspecifier

/-- The search for an index file asks for a directory that is wanted. -/
theorem records_resolveIndex (tried : List Text)
    (hwanted : IsWanted order requests specifier (Target.ofSpecifier specifier).path) :
    Records (resolveIndex order lister.recorded specifier (Target.ofSpecifier specifier) tried)
      (resolveIndex order lister specifier (Target.ofSpecifier specifier) tried) requests
      fun _ => IsSparing order specifiers := by
  unfold resolveIndex
  refine (records_entries lister _).bind fun es requests' hrequests' => ?_
  have hsparing : IsSparing order specifiers requests' := by
    rcases hrequests' with ⟨_, -, -, -, rfl⟩ | ⟨hnew, listing, rfl⟩
    · exact h
    · exact h.concat hnew hspecifier hwanted
  cases (Target.ofSpecifier specifier).index? order es with
  | some path => exact .pure hsparing
  | none => exact .pure hsparing

/-- **One specifier** asks for no more than one directory, and only for one that is wanted. -/
theorem records_resolveIn :
    Records (resolveIn order lister.recorded specifier) (resolveIn order lister specifier) requests
      fun _ => IsSparing order specifiers := by
  unfold resolveIn
  simp only
  cases hdirectory : (Target.ofSpecifier specifier).isDirectory with
  | true => exact records_resolveIndex lister order h hspecifier [] ⟨rfl, .inl hdirectory⟩
  | false =>
      refine (records_entries lister _).bind ?_
      -- the directory that it is in was listed ahead
      rintro es requests' (⟨q, hq, hkey, rfl, rfl⟩ | ⟨hnew, -⟩)
      · cases hfile : (Target.ofSpecifier specifier).file? order q.entries with
        | some path => exact .pure h
        | none =>
            simp only
            cases hhas : Entry.hasDirectory (Target.ofSpecifier specifier).name q.entries with
            | true =>
                exact records_resolveIndex lister order h hspecifier _
                  ⟨rfl, .inr ⟨q, hq, hkey, hfile, hhas⟩⟩
            | false => exact .pure h
      · exact absurd (h.exists_request hspecifier) hnew

end

/-! ## The whole pass -/

/-- **A pass asks for no more than it takes**, whatever the lister answers: recording its requests,
which changes neither the outcome nor what becomes of the lister, shows that they are sparing. -/
theorem isSparing_resolveMany (order : ProbeOrder) (lister : Lister (StateM σ))
    (specifiers : List Text) (s : σ) :
    ∃ requests,
      ((resolveMany order lister.recorded specifiers).run []).run s =
        ((((resolveMany order lister specifiers).run s).1, requests),
          ((resolveMany order lister specifiers).run s).2) ∧
      IsSparing order specifiers requests := by
  have hkeys : (parentKeys specifiers).map Listings.key = parentKeys specifiers :=
    (List.map_congr_left fun _ h => key_of_mem_parentKeys h).trans (List.map_id _)
  have hprefetch : Records _ _ [] fun _ requests' =>
      requests'.map Request.directory = parentKeys specifiers :=
    records_prefetch lister (parentKeys specifiers) (by
      rw [List.map_nil, List.nil_append, hkeys]
      exact nodup_eraseDups _)
  have hfold (requests' : List Request) (h : IsSparing order specifiers requests') : Records
      (specifiers.eraseDups.foldlM
        (fun r specifier => return r.add specifier (← resolveIn order lister.recorded specifier))
        Resolution.empty)
      (specifiers.eraseDups.foldlM
        (fun r specifier => return r.add specifier (← resolveIn order lister specifier))
        Resolution.empty) requests' fun _ => IsSparing order specifiers := by
    refine Records.foldlM (fun specifier hspecifier r requests h => ?_) _ h
    refine (records_resolveIn lister order h (List.mem_eraseDups.mp hspecifier)).bind ?_
    intro _ _ hsparing
    exact .pure hsparing
  obtain ⟨r, requests, s', hrun', hrun, hsparing⟩ :=
    (hprefetch.bind fun _ requests' hrequests' => hfold requests' (.of_parentKeys hrequests')) s
  -- the listings of the pass are dropped in the end
  have hplain : (resolveMany order lister specifiers).run s = (r, s') :=
    congrArg (fun x : (Resolution × Listings) × σ => (x.1.1, x.2)) hrun
  have hrecorded : ((resolveMany order lister.recorded specifiers).run []).run s =
      ((r, requests), s') :=
    congrArg (fun x : ((Resolution × Listings) × List Request) × σ => ((x.1.1.1, x.1.2), x.2)) hrun'
  exact ⟨requests, by rw [hrecorded, hplain], hsparing⟩

/-- Two spellings of one directory, which a third specifier names outright, and nothing can be
listed. -/
example :
    (((resolveMany ProbeOrder.standard (Lister.recorded (m := StateM Unit) fun _ => pure none)
      ["./src/a".toList, "lib/../src/b".toList, "src/".toList]).run []).run ()).1.2.map
        (·.directory) = ["src".toList, []] := by decide +kernel

end ScriptSurvey
