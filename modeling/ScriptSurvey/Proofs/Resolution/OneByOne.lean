import ScriptSurvey.Proofs.Resolution.Found

/-!
# A batch is its specifiers one by one

A lister may keep a state, such as the number of listings that it has served. As long as its answers
depend on nothing but the keys of the directories, a pass runs as it does with a lister that has no
state (`RunsAs`), and there a batch is resolved specifier by specifier. So every specifier of a batch
has the file, or the candidates tried in vain, that it has when it is resolved alone, in whatever
state the lister is then.
-/

namespace ScriptSurvey

variable {σ : Type}

namespace Lister

/-- Whether a lister answers alike for all spellings of a directory, in all of its states. -/
def AnswersByKey (lister : Lister (StateM σ)) : Prop :=
  ∀ directory directory', Listings.key directory = Listings.key directory' →
    ∀ s s', ((lister directory).run s).1 = ((lister directory').run s').1

/-- The answers that a lister gives in one of its states. -/
def answers (lister : Lister (StateM σ)) (s : σ) : Lister Id :=
  fun directory => ((lister directory).run s).1

theorem AnswersByKey.isKeyed {lister : Lister (StateM σ)} (h : lister.AnswersByKey) (s : σ) :
    (lister.answers s).IsKeyed :=
  fun directory directory' hkey => h directory directory' hkey s s

theorem AnswersByKey.answers_eq {lister : Lister (StateM σ)} (h : lister.AnswersByKey) (s : σ)
    (directory : Text) (s' : σ) :
    ((lister directory).run s').1 = lister.answers s directory :=
  h directory directory rfl s' s

end Lister

/-! ## Passes with a state and without -/

/-- Whether a part of a pass gives and recalls, in all states of a lister, what a part without a
state gives and recalls. -/
def RunsAs {α : Type} (part : StateT Listings (StateM σ) α) (part' : StateT Listings Id α) : Prop :=
  ∀ l s, ((part.run l).run s).1 = part'.run l

namespace RunsAs

variable {α β : Type}

theorem pure (a : α) : RunsAs (σ := σ) (Pure.pure a) (Pure.pure a) := fun _ _ => rfl

/-- What runs after a part starts from what the part recalls. -/
theorem bind {part : StateT Listings (StateM σ) α} {part' : StateT Listings Id α}
    {rest : α → StateT Listings (StateM σ) β} {rest' : α → StateT Listings Id β}
    (h : RunsAs part part') (hrest : ∀ a, RunsAs (rest a) (rest' a)) :
    RunsAs (part >>= rest) (part' >>= rest') := by
  intro l s
  have hpart := h l s
  cases hrun : (part.run l).run s with
  | mk p s' =>
      obtain ⟨a, l'⟩ := p
      rw [hrun] at hpart
      have hboth : (((part >>= rest).run l).run s).1 = (((rest a).run l').run s').1 := by
        rw [StateT.run_bind, StateT.run_bind, hrun]
        rfl
      rw [hboth, hrest a l' s', StateT.run_bind, ← hpart]
      rfl

theorem forM (as : List α) {act : α → StateT Listings (StateM σ) PUnit}
    {act' : α → StateT Listings Id PUnit} (h : ∀ a, RunsAs (act a) (act' a)) :
    RunsAs (as.forM act) (as.forM act') := by
  induction as with
  | nil => exact .pure _
  | cons a as ih => exact (h a).bind fun _ => ih

theorem foldlM (as : List α) {act : β → α → StateT Listings (StateM σ) β}
    {act' : β → α → StateT Listings Id β} (h : ∀ b a, RunsAs (act b a) (act' b a)) (b : β) :
    RunsAs (as.foldlM act b) (as.foldlM act' b) := by
  induction as generalizing b with
  | nil => exact .pure b
  | cons a as ih =>
      rw [List.foldlM_cons, List.foldlM_cons]
      exact (h b a).bind ih

end RunsAs

section

variable {lister : Lister (StateM σ)} (h : lister.AnswersByKey) (s : σ) (order : ProbeOrder)

include h

/-- A look at a directory, whatever the lister has done before. -/
theorem runsAs_entries (directory : Text) :
    RunsAs (Listings.entries lister directory) (Listings.entries (lister.answers s) directory) := by
  unfold Listings.entries
  refine RunsAs.bind (fun _ _ => rfl) fun known => ?_
  cases known.known.lookup (Listings.key directory) with
  | some listing => exact .pure _
  | none =>
      refine RunsAs.bind (fun l s' => ?_) fun listing => .bind (fun _ _ => rfl) fun _ => .pure _
      exact congrArg (·, l) (h.answers_eq s directory s')

theorem runsAs_resolveIndex (specifier : Text) (t : Target) (tried : List Text) :
    RunsAs (resolveIndex order lister specifier t tried)
      (resolveIndex order (lister.answers s) specifier t tried) := by
  unfold resolveIndex
  refine (runsAs_entries h s t.path).bind fun es => ?_
  cases t.index? order es with
  | some path => exact .pure _
  | none => exact .pure _

/-- **One specifier of a pass** comes out alike in all states of the lister. -/
theorem runsAs_resolveIn (specifier : Text) :
    RunsAs (resolveIn order lister specifier) (resolveIn order (lister.answers s) specifier) := by
  unfold resolveIn
  simp only
  generalize Target.ofSpecifier specifier = t
  cases t.isDirectory with
  | true => exact runsAs_resolveIndex h s order specifier t []
  | false =>
      refine (runsAs_entries h s t.directory).bind fun es => ?_
      cases t.file? order es with
      | some path => exact .pure _
      | none =>
          simp only
          cases Entry.hasDirectory t.name es with
          | true => exact runsAs_resolveIndex h s order specifier t (t.fileCandidates order)
          | false => exact .pure _

theorem fst_resolve (specifier : Text) (s' : σ) :
    ((resolve order lister specifier).run s').1 = resolve order (lister.answers s) specifier :=
  congrArg Prod.fst (runsAs_resolveIn h s order specifier Listings.empty s')

theorem fst_resolveMany (specifiers : List Text) (s' : σ) :
    ((resolveMany order lister specifiers).run s').1 =
      resolveMany order (lister.answers s) specifiers := by
  have hruns := RunsAs.bind
    (RunsAs.forM (parentKeys specifiers) fun directory =>
      (runsAs_entries h s directory).bind fun _ => .pure ())
    fun _ => RunsAs.foldlM specifiers.eraseDups
      (fun (r : Resolution) specifier =>
        (runsAs_resolveIn h s order specifier).bind fun outcome => .pure (r.add specifier outcome))
      Resolution.empty
  exact congrArg Prod.fst (hruns Listings.empty s')

end

/-! ## The batch -/

/-- Why a specifier has no file. -/
def Unresolved.of? : Except Unresolved Text → Option Unresolved
  | .ok _ => none
  | .error u => some u

/-- The specifiers of a batch without a file, in their order. -/
theorem Resolution.unresolved_addAll (order : ProbeOrder) (look : Text → List Entry)
    (specifiers : List Text) (r : Resolution) :
    (r.addAll order look specifiers).unresolved =
      r.unresolved ++ specifiers.filterMap fun s => Unresolved.of? (resolveWith order look s) := by
  induction specifiers generalizing r with
  | nil => exact (List.append_nil _).symm
  | cons s specifiers ih =>
      unfold addAll at ih ⊢
      rw [List.foldl_cons, ih, List.filterMap_cons]
      cases resolveWith order look s with
      | ok path => rfl
      | error u => exact List.append_assoc ..

/-- A tree of files as a lister that counts its listings. -/
def FileTree.counting (t : FileTree) : Lister (StateM Nat) :=
  fun directory served =>
    let answer := CountedTree.list? directory ⟨t, served⟩
    (answer.1, answer.2.served)

/-- A tree of files answers by the keys of directories: it keeps them under these very keys. -/
theorem FileTree.answersByKey_counting (t : FileTree) : t.counting.AnswersByKey := by
  intro directory directory' hkey _ _
  exact t.isKeyed_lister directory directory' hkey

/-- **A batch holds what its specifiers have one by one**: each distinct specifier once, in the order
in which they first come, with its file or with the reason why it has none, whatever states the
lister is in when they are resolved. A tree of files is a lister of which this holds. -/
theorem resolveMany_eq_each (order : ProbeOrder) {lister : Lister (StateM σ)}
    (h : lister.AnswersByKey) (specifiers : List Text) (s : σ) (states : Text → σ) :
    ((resolveMany order lister specifiers).run s).1 =
      { resolved := specifiers.eraseDups.filterMap fun specifier =>
          ((resolve order lister specifier).run (states specifier)).1.toOption.map (specifier, ·)
        unresolved := specifiers.eraseDups.filterMap fun specifier =>
          Unresolved.of? ((resolve order lister specifier).run (states specifier)).1 } ∧
    (∀ t : FileTree, t.counting.AnswersByKey) ∧
    ∀ directory, FileTree.key (Path.normalize directory) = Listings.key directory := by
  refine ⟨?_, FileTree.answersByKey_counting, Path.treeKey_normalize⟩
  have hkeyed := h.isKeyed s
  have heach (specifier : Text) :
      ((resolve order lister specifier).run (states specifier)).1 =
        resolveWith order (lister.answers s).look specifier :=
    (fst_resolve h s order specifier (states specifier)).trans (resolve_eq order hkeyed specifier)
  simp only [heach]
  rw [fst_resolveMany h s, resolveMany_eq order hkeyed]
  exact congr (congrArg Resolution.mk (Resolution.resolved_addAll ..))
    (Resolution.unresolved_addAll ..)

/-- Two spellings of one directory, a specifier that comes twice, and one without a file; the listings
served before do not matter. -/
theorem resolveMany_eq_each_spelled :
    (FileTree.ofFiles ["src/a.ts".toList, "src/b/index.js".toList]).counting.AnswersByKey ∧
      ((resolveMany ProbeOrder.standard
          (FileTree.ofFiles ["src/a.ts".toList, "src/b/index.js".toList]).counting
          ["./src/a".toList, "lib/../src/b".toList, "./src/a".toList, "src//c".toList]).run 3).1 =
        { resolved := [("./src/a".toList, "./src/a.ts".toList),
            ("lib/../src/b".toList, "lib/../src/b/index.js".toList)]
          unresolved := [⟨"src//c".toList, ["src/c.ts".toList, "src/c.tsx".toList,
            "src/c.js".toList, "src/c.jsx".toList, "src//c".toList]⟩] } := by
  have h := (FileTree.ofFiles ["src/a.ts".toList, "src/b/index.js".toList]).answersByKey_counting
  refine ⟨h, ((resolveMany_eq_each ProbeOrder.standard h _ 3 fun _ => 0).1).trans ?_⟩
  decide +kernel

end ScriptSurvey
