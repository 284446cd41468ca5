import Mathlib.Data.List.Perm.Basic
import ScriptSurvey.Resolution.Resolve

/-!
# Every specifier comes out once

Whatever a lister answers, a batch leaves out no specifier and takes none twice: one that comes up
first is either found or not, and is noted at the end of the one list or of the other. So the two
lists together are the distinct specifiers, and each of them keeps their order (`Settles`).
-/

namespace ScriptSurvey

/-! ## One list or the other -/

namespace Resolution

/-- The specifiers that a resolution has a file for. -/
def foundSpecifiers (r : Resolution) : List Text := r.resolved.map Prod.fst

/-- The specifiers that a resolution has no file for. -/
def missingSpecifiers (r : Resolution) : List Text := r.unresolved.map Unresolved.specifier

/-- Whether a resolution tells of each of some specifiers what became of it, and of nothing else. -/
structure Settles (specifiers : List Text) (r : Resolution) : Prop where
  /-- Each stands in one of the two lists. -/
  each : (r.foundSpecifiers ++ r.missingSpecifiers).Perm specifiers
  /-- Those with a file stand in their order. -/
  found : r.foundSpecifiers.Sublist specifiers
  /-- Those without stand in their order too. -/
  missing : r.missingSpecifiers.Sublist specifiers

/-- Whether an outcome, if it is a failure, is that of a specifier. -/
def Concerns (specifier : Text) (outcome : Except Unresolved Text) : Prop :=
  ∀ u, outcome = .error u → u.specifier = specifier

theorem settles_empty : Settles [] empty := ⟨.refl _, .refl _, .refl _⟩

/-- **One more outcome** settles one more specifier. -/
theorem Settles.add {specifiers : List Text} {r : Resolution} (h : r.Settles specifiers)
    {specifier : Text} {outcome : Except Unresolved Text} (houtcome : Concerns specifier outcome) :
    (r.add specifier outcome).Settles (specifiers ++ [specifier]) := by
  have hbehind {xs : List Text} (hxs : xs.Sublist specifiers) :
      xs.Sublist (specifiers ++ [specifier]) :=
    hxs.trans (List.sublist_append_left _ _)
  -- the specifier goes to the end of the found or to that of the missing
  cases outcome with
  | ok path =>
      have hfound : (r.add specifier (.ok path)).foundSpecifiers =
          r.foundSpecifiers ++ [specifier] := by
        unfold Resolution.add foundSpecifiers
        rw [List.map_append, List.map_singleton]
      refine ⟨?_, ?_, hbehind h.missing⟩
      · rw [hfound, List.append_assoc, List.singleton_append]
        exact (List.perm_middle.trans (h.each.cons specifier)).trans
          (List.perm_append_singleton specifier specifiers).symm
      · rw [hfound]
        exact h.found.append_right _
  | error u =>
      have hmissing : (r.add specifier (.error u)).missingSpecifiers =
          r.missingSpecifiers ++ [specifier] := by
        unfold Resolution.add missingSpecifiers
        rw [List.map_append, List.map_singleton, houtcome u rfl]
      refine ⟨?_, hbehind h.found, ?_⟩
      · rw [hmissing, ← List.append_assoc]
        exact h.each.append_right [specifier]
      · rw [hmissing]
        exact h.missing.append_right _

/-- A specifier that is not among those with a file has no file. -/
theorem get?_eq_none {specifier : Text} {r : Resolution} (h : specifier ∉ r.foundSpecifiers) :
    r.get? specifier = none := by
  unfold get?
  rw [List.lookup_eq_none_iff]
  intro p hp
  rw [bne_iff_ne]
  rintro rfl
  exact h (List.mem_map_of_mem hp)

end Resolution

/-! ## The batch -/

section

variable {σ α β : Type}

/-- Whether what a part of a pass gives is as it should be, whatever is recalled and whatever state
the lister is in. -/
def Gives (part : StateT Listings (StateM σ) α) (P : α → Prop) : Prop :=
  ∀ l s, P ((part.run l).run s).1.1

namespace Gives

theorem pure {a : α} {P : α → Prop} (h : P a) : Gives (σ := σ) (Pure.pure a) P := fun _ _ => h

theorem bind {part : StateT Listings (StateM σ) α} {P : α → Prop} (h : Gives part P)
    {rest : α → StateT Listings (StateM σ) β} {Q : β → Prop} (hrest : ∀ a, P a → Gives (rest a) Q) :
    Gives (part >>= rest) Q := by
  intro l s
  have hpart := h l s
  cases hrun : (part.run l).run s with
  | mk p s' =>
      rw [hrun] at hpart
      rw [StateT.run_bind, StateT.run_bind, hrun]
      exact hrest p.1 hpart p.2 s'

/-- A part of which nothing is asked. -/
theorem any (part : StateT Listings (StateM σ) α) : Gives part fun _ => True := fun _ _ => trivial

end Gives

open Resolution (Concerns)

variable (order : ProbeOrder) (lister : Lister (StateM σ))

theorem gives_resolveIndex (specifier : Text) (t : Target) (tried : List Text) :
    Gives (resolveIndex order lister specifier t tried) (Concerns specifier) := by
  unfold resolveIndex
  refine (Gives.any _).bind fun es _ => ?_
  cases t.index? order es with
  | some path => exact .pure fun _ h => nomatch h
  | none => exact .pure fun _ h => Except.error.inj h ▸ rfl

/-- A failure to resolve a specifier names it. -/
theorem gives_resolveIn (specifier : Text) :
    Gives (resolveIn order lister specifier) (Concerns specifier) := by
  unfold resolveIn
  simp only
  generalize Target.ofSpecifier specifier = t
  cases t.isDirectory with
  | true => exact gives_resolveIndex order lister specifier t []
  | false =>
      refine (Gives.any _).bind fun es _ => ?_
      cases t.file? order es with
      | some path => exact .pure fun _ h => nomatch h
      | none =>
          simp only
          cases Entry.hasDirectory t.name es with
          | true => exact gives_resolveIndex order lister specifier t (t.fileCandidates order)
          | false => exact .pure fun _ h => Except.error.inj h ▸ rfl

theorem gives_foldlM_add (specifiers : List Text) {before : List Text} {r : Resolution}
    (h : r.Settles before) :
    Gives (specifiers.foldlM (fun r s => return r.add s (← resolveIn order lister s)) r)
      (Resolution.Settles (before ++ specifiers)) := by
  induction specifiers generalizing before r with
  | nil =>
      rw [List.append_nil]
      exact .pure h
  | cons s specifiers ih =>
      -- the specifiers settled so far grow by one at the end
      rw [List.foldlM_cons, List.append_cons]
      refine Gives.bind (P := Resolution.Settles (before ++ [s])) ?_ fun r hr => ih hr
      refine (gives_resolveIn order lister s).bind ?_
      intro outcome houtcome
      exact .pure (h.add houtcome)

/-- **A batch settles its specifiers**, each once, whatever the lister answers. -/
theorem settles_resolveMany (specifiers : List Text) (s : σ) :
    ((resolveMany order lister specifiers).run s).1.Settles specifiers.eraseDups :=
  (Gives.any _).bind (fun _ _ =>
    gives_foldlM_add order lister specifiers.eraseDups Resolution.settles_empty) Listings.empty s

end

end ScriptSurvey
