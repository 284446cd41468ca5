import Mathlib.Data.List.Induction
import Mathlib.Data.List.TakeWhile
import ScriptSurvey.Text.Blank

/-!
# Blanks around words

Where blanks are all that stands between words, readers drop them from the ends of a text and cut it
at them.
-/

namespace ScriptSurvey.Text

/-- What is said of every character of a text is decided over the text, not over all characters. -/
instance (priority := 1100) decidableForallMem (t : List Char) (p : Char → Prop)
    [DecidablePred p] : Decidable (∀ c ∈ t, p c) :=
  List.decidableBAll p t

/-- White space only. -/
def IsBlanks (g : Text) : Prop := ∀ c ∈ g, isBlank c = true

theorem IsBlanks.nil : IsBlanks [] := fun _ hc => absurd hc List.not_mem_nil

theorem isBlanks_space : IsBlanks [' '] := by
  unfold IsBlanks
  decide

theorem IsBlanks.tail {c : Char} {g : Text} (h : IsBlanks (c :: g)) : IsBlanks g :=
  fun d hd => h d (List.mem_cons_of_mem c hd)

theorem dropWhileEnd_of_getLast? {α : Type} {p : α → Bool} {t : List α}
    (h : ∀ x, t.getLast? = some x → p x = false) : dropWhileEnd p t = t := by
  have hr : t.reverse.dropWhile p = t.reverse := by
    cases hrev : t.reverse with
    | nil => rfl
    | cons x xs =>
        refine List.dropWhile_cons_of_neg ?_
        rw [h x (by rw [List.getLast?_eq_head?_reverse, hrev]; rfl)]
        exact Bool.false_ne_true
  rw [dropWhileEnd, hr, List.reverse_reverse]

theorem dropWhile_of_head? {α : Type} {p : α → Bool} {t : List α}
    (h : ∀ x, t.head? = some x → p x = false) : t.dropWhile p = t := by
  cases t with
  | nil => rfl
  | cons x xs =>
      refine List.dropWhile_cons_of_neg ?_
      rw [h x rfl]
      exact Bool.false_ne_true

/-- When something of the last part stays, nothing of the parts in front is dropped. -/
theorem dropWhileEnd_append {α : Type} {p : α → Bool} {a b : List α} (h : ∃ x ∈ b, p x = false) :
    dropWhileEnd p (a ++ b) = a ++ dropWhileEnd p b := by
  obtain ⟨x, hx, hpx⟩ := h
  have hne : (b.reverse.dropWhile p).isEmpty = false := by
    cases hd : b.reverse.dropWhile p with
    | nil =>
        rw [List.dropWhile_eq_nil_iff] at hd
        have := hd x (List.mem_reverse.mpr hx)
        rw [hpx] at this
        exact absurd this Bool.false_ne_true
    | cons y ys => rfl
  rw [dropWhileEnd, dropWhileEnd, List.reverse_append, List.dropWhile_append, hne,
    if_neg Bool.false_ne_true, List.reverse_append, List.reverse_reverse]

theorem trimEnd_append {t g : Text} (hg : IsBlanks g)
    (ht : ∀ c, t.getLast? = some c → isBlank c = false) : trimEnd (t ++ g) = t := by
  rw [trimEnd, dropWhileEnd, List.reverse_append,
    List.dropWhile_append_of_pos fun c hc => hg c (List.mem_reverse.mp hc)]
  exact dropWhileEnd_of_getLast? ht

theorem trimStart_append {g t : Text} (hg : IsBlanks g)
    (ht : ∀ c, t.head? = some c → isBlank c = false) : trimStart (g ++ t) = t := by
  rw [trimStart, List.dropWhile_append_of_pos hg, dropWhile_of_head? ht]

/-- A text is some blanks and what is left without them. -/
theorem exists_eq_append_trimStart (t : Text) : ∃ g, IsBlanks g ∧ t = g ++ trimStart t :=
  ⟨t.takeWhile isBlank, fun _ hc => List.mem_takeWhile_imp hc,
    List.takeWhile_append_dropWhile.symm⟩

/-- A text is what is left without the blanks behind it, and these. -/
theorem exists_eq_append_trimEnd (t : Text) : ∃ g, IsBlanks g ∧ t = trimEnd t ++ g := by
  have hback := List.takeWhile_append_dropWhile (p := isBlank) (l := t.reverse)
  refine ⟨(t.reverse.takeWhile isBlank).reverse,
    fun c hc => List.mem_takeWhile_imp (List.mem_reverse.mp hc), ?_⟩
  rw [trimEnd, dropWhileEnd, ← List.reverse_append, hback, List.reverse_reverse]

/-- A text that neither begins nor ends in a blank is trimmed as it is. -/
theorem trim_of_ends {t : Text} (hhead : ∀ c, t.head? = some c → isBlank c = false)
    (hlast : ∀ c, t.getLast? = some c → isBlank c = false) : trim t = t := by
  rw [trim, trimStart, dropWhile_of_head? hhead, trimEnd, dropWhileEnd_of_getLast? hlast]

/-- Blanks behind a text are all that trimming takes from it. -/
theorem trim_append_of_isBlank {t b : Text} (ht : ∀ c ∈ t, isBlank c = false) (hne : t ≠ [])
    (hb : IsBlanks b) : trim (t ++ b) = t := by
  obtain ⟨d, u, rfl⟩ := List.exists_cons_of_ne_nil hne
  have hstart : trimStart (d :: u ++ b) = d :: u ++ b :=
    dropWhile_of_head? fun c hc => Option.some.inj hc ▸ ht d List.mem_cons_self
  rw [trim, hstart, trimEnd_append hb fun c hc => ht c (List.mem_of_getLast? hc)]

/-- Blanks at both ends make no difference to what is left when a text is trimmed. -/
theorem trim_between {g g' : Text} (hg : IsBlanks g) (hg' : IsBlanks g') (t : Text) :
    trim (g ++ (t ++ g')) = trim t := by
  have hfront : trimStart (g ++ (t ++ g')) = trimStart (t ++ g') :=
    List.dropWhile_append_of_pos hg
  have hback (s : Text) : trimEnd (s ++ g') = trimEnd s := by
    rw [trimEnd, dropWhileEnd, List.reverse_append,
      List.dropWhile_append_of_pos fun c hc => hg' c (List.mem_reverse.mp hc)]
    rfl
  rw [trim, trim, hfront, trimStart, List.dropWhile_append]
  split
  · next hnil =>
      -- the text is blank, and so is what stands behind it
      rw [trimStart, List.isEmpty_iff.mp hnil, List.dropWhile_eq_nil_iff.mpr hg']
  · exact hback _

/-- A text with a blank in it has a first one. -/
theorem exists_first_blank {t : Text} (h : t.any isBlank = true) : ∃ u c v, t = u ++ c :: v ∧
    isBlank c = true ∧ ∀ d ∈ u, isBlank d = false := by
  obtain ⟨c, hfind⟩ := Option.isSome_iff_exists.mp (List.find?_isSome.mpr (List.any_eq_true.mp h))
  obtain ⟨hc, u, v, hsplit, hu⟩ := List.find?_eq_some_iff_append.mp hfind
  exact ⟨u, c, v, hsplit, hc, fun d hd => by simpa using hu d hd⟩

/-- **The words of a text fall apart at a blank.** What is said of words below follows from this. -/
theorem words_append_cons (s t : Text) {c : Char} (hc : isBlank c = true) :
    words (s ++ c :: t) = words s ++ words t := by
  rw [words, List.splitOnP_append_cons s t hc, List.filter_append]
  rfl

theorem words_of_isBlanks {g : Text} (hg : IsBlanks g) (t : Text) : words (g ++ t) = words t := by
  induction g with
  | nil => rfl
  | cons c g ih => exact (words_append_cons [] (g ++ t) (hg c List.mem_cons_self)).trans (ih hg.tail)

theorem words_append_gap (s : Text) {g : Text} (hg : IsBlanks g) (hne : g ≠ []) (t : Text) :
    words (s ++ (g ++ t)) = words s ++ words t := by
  obtain ⟨c, g, rfl⟩ := List.exists_cons_of_ne_nil hne
  rw [List.cons_append, words_append_cons _ _ (hg c List.mem_cons_self), words_of_isBlanks hg.tail]

/-- A text without blanks is one word. -/
theorem words_of_forall {w : Text} (hw : ∀ c ∈ w, isBlank c = false) (hne : w ≠ []) :
    words w = [w] := by
  have hkeep : (!w.isEmpty) = true := by simpa using hne
  rw [words, List.splitOnP_eq_singleton hw, List.filter_cons, if_pos hkeep]
  rfl

/-- The first word of a text ends at the blanks behind it. -/
theorem words_append {w g t : Text} (hw : ∀ c ∈ w, isBlank c = false) (hne : w ≠ [])
    (hg : IsBlanks g) (hgap : g = [] → t = []) : words (w ++ (g ++ t)) = w :: words t := by
  by_cases hnil : g = []
  · rw [hnil, hgap hnil, List.append_nil, List.append_nil, words_of_forall hw hne]
    rfl
  · rw [words_append_gap w hg hnil, words_of_forall hw hne]
    rfl

/-- What has no blank in it belongs to the last word, at the end of whatever text. -/
theorem exists_words_append (s : Text) {w : Text} (hw : ∀ c ∈ w, isBlank c = false) (hne : w ≠ []) :
    ∃ ws u, words (s ++ w) = ws ++ [u ++ w] := by
  induction s using List.reverseRecOn generalizing w with
  | nil => exact ⟨[], [], words_of_forall hw hne⟩
  | append_singleton s c ih =>
      rw [List.append_assoc, List.singleton_append]
      cases hc : isBlank c with
      | true => exact ⟨words s, [], by rw [words_append_cons _ _ hc, words_of_forall hw hne]; rfl⟩
      | false =>
          have hlonger : ∀ d ∈ c :: w, isBlank d = false := by
            intro d hd
            rcases List.mem_cons.mp hd with rfl | hd
            · exact hc
            · exact hw d hd
          obtain ⟨ws, u, h⟩ := ih hlonger (List.cons_ne_nil c w)
          exact ⟨ws, u ++ [c], by rw [h, List.append_assoc, List.singleton_append]⟩

end ScriptSurvey.Text
