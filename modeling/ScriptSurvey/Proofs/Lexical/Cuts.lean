import Mathlib.Data.List.TakeWhile
import ScriptSurvey.Lexical.Nesting

/-!
# Cuts lose nothing

Every walk over runs takes them apart without loss: what it returns, with what it left out put back,
is what it was given. A cut leaves out its word, a split its commas, a search for a closing bracket
that bracket, and trimming leaves out trivia.
-/

namespace ScriptSurvey

open Run

/-! ## Opening brackets -/

theorem eq_of_isOpeningBracket {o : Char} (h : isOpeningBracket o = true) :
    o = '(' ∨ o = '[' ∨ o = '{' ∨ o = '<' := by
  simpa [isOpeningBracket, or_assoc] using h

theorem utf8Size_of_isOpeningBracket {o : Char} (h : isOpeningBracket o = true) :
    o.utf8Size = 1 := by
  rcases eq_of_isOpeningBracket h with rfl | rfl | rfl | rfl <;> rfl

theorem Run.shift_of_isOpeningBracket {o : Char} (h : isOpeningBracket o = true) (e : Bool) :
    (code o).shift e = .opens := by
  rcases eq_of_isOpeningBracket h with rfl | rfl | rfl | rfl <;> rfl

theorem Run.isChar_of_isOpeningBracket {o : Char} (h : isOpeningBracket o = true) :
    (code o).isChar '=' = false := by
  rcases eq_of_isOpeningBracket h with rfl | rfl | rfl | rfl <;> rfl

/-! ## Cuts and splits -/

namespace Nesting

theorem eq_of_dropCode? {word : Text} {rs after : List Run}
    (h : dropCode? word rs = some after) : rs = word.map code ++ after := by
  fun_induction dropCode? word rs with
  | case1 rs => exact (Option.some.inj h)
  | case2 c word rs ih => rw [List.map_cons, List.cons_append, ← ih h]
  | case3 => exact absurd h (by simp)
  | case4 => exact absurd h (by simp)

theorem dropCode?_append (word : Text) (rs : List Run) :
    dropCode? word (word.map code ++ rs) = some rs := by
  induction word with
  | nil => rfl
  | cons c word ih =>
      rw [List.map_cons, List.cons_append, dropCode?, if_pos rfl]
      exact ih

theorem eq_of_cutAtFirst {word : Text} {n : Nesting} {rs a b : List Run}
    (h : n.cutAtFirst word rs = some (a, b)) : rs = a ++ (word.map code ++ b) := by
  induction rs generalizing n a b with
  | nil => exact absurd h (by simp [cutAtFirst])
  | cons r rs ih =>
      rw [cutAtFirst] at h
      split at h
      · next after hd =>
          rw [Option.some.injEq, Prod.mk.injEq] at h
          split at hd
          · rw [← h.1, ← h.2, List.nil_append]
            exact eq_of_dropCode? hd
          · exact absurd hd (by simp)
      · obtain ⟨⟨x, y⟩, hcut, hp⟩ := Option.map_eq_some_iff.mp h
        rw [Prod.mk.injEq] at hp
        rw [ih hcut, ← hp.1, ← hp.2, List.cons_append]

theorem eq_of_cutAtLast {word : Text} {n : Nesting} {rs a b : List Run}
    (h : n.cutAtLast word rs = some (a, b)) : rs = a ++ (word.map code ++ b) := by
  induction rs generalizing n a b with
  | nil => exact absurd h (by simp [cutAtLast])
  | cons r rs ih =>
      rw [cutAtLast] at h
      split at h
      · next p hcut =>
          rw [Option.some.injEq, Prod.mk.injEq] at h
          have := ih (a := p.1) (b := p.2) hcut
          rw [← h.1, ← h.2, List.cons_append, ← this]
      · obtain ⟨after, hd, hp⟩ := Option.map_eq_some_iff.mp h
        rw [Prod.mk.injEq] at hp
        split at hd
        · rw [← hp.1, ← hp.2, List.nil_append]
          exact eq_of_dropCode? hd
        · exact absurd hd (by simp)

theorem pieces_ne_nil (n : Nesting) (rs : List Run) : n.pieces rs ≠ [] := by
  cases rs with
  | nil => exact List.cons_ne_nil _ _
  | cons r rs =>
      rw [pieces]
      split
      · exact List.cons_ne_nil _ _
      · split <;> exact List.cons_ne_nil _ _

/-- The pieces with commas between them are what was split. -/
theorem intercalate_pieces (n : Nesting) (rs : List Run) :
    List.intercalate [code ','] (n.pieces rs) = rs := by
  induction rs generalizing n with
  | nil => exact List.intercalate_singleton
  | cons r rs ih =>
      obtain ⟨p, ps, hp⟩ := List.exists_cons_of_ne_nil (pieces_ne_nil (n.behind r) rs)
      have hrest := ih (n.behind r)
      rw [hp] at hrest
      rw [pieces, hp]
      split
      · next hcomma =>
          have hr : r = code ',' := by simpa [isChar] using hcomma.2
          rw [List.intercalate_cons_cons, hrest, hr]
          rfl
      · cases ps with
        | nil =>
            rw [List.intercalate_singleton] at hrest ⊢
            rw [hrest]
        | cons q ps =>
            rw [List.intercalate_cons_cons] at hrest ⊢
            rw [List.cons_append, List.cons_append, hrest]

end Nesting

/-- Each of the lists that are put together is a part of the whole. -/
theorem isInfix_intercalate {α : Type} (sep : List α) {ps : List (List α)} {p : List α}
    (h : p ∈ ps) : p <:+: List.intercalate sep ps := by
  induction ps with
  | nil => exact absurd h List.not_mem_nil
  | cons q ps ih =>
      cases ps with
      | nil =>
          rw [List.mem_singleton] at h
          exact ⟨[], [], by simp [h, List.intercalate_singleton]⟩
      | cons r ps =>
          rw [List.intercalate_cons_cons]
          rcases List.mem_cons.mp h with rfl | h
          · rw [List.append_assoc]
            exact (List.prefix_append _ _).isInfix
          · exact (ih h).trans (List.suffix_append _ _).isInfix

namespace Run

theorem eq_of_cutAtChar {c : Char} {rs a b : List Run} (h : cutAtChar c rs = some (a, b)) :
    rs = a ++ code c :: b := by
  induction rs generalizing a b with
  | nil => exact absurd h (by simp [cutAtChar])
  | cons r rs ih =>
      rw [cutAtChar] at h
      split at h
      · next hr =>
          have hr : r = code c := by simpa [isChar] using hr
          rw [Option.some.injEq, Prod.mk.injEq] at h
          rw [← h.1, ← h.2, hr, List.nil_append]
      · obtain ⟨⟨x, y⟩, hcut, hp⟩ := Option.map_eq_some_iff.mp h
        rw [Prod.mk.injEq] at hp
        rw [ih hcut, ← hp.1, ← hp.2, List.cons_append]

/-- The first `c` behind runs that hold none. -/
theorem not_mem_of_cutAtChar {c : Char} {rs a b : List Run} (h : cutAtChar c rs = some (a, b)) :
    code c ∉ a := by
  induction rs generalizing a b with
  | nil => exact absurd h (by simp [cutAtChar])
  | cons r rs ih =>
      rw [cutAtChar] at h
      split at h
      · rw [← (Prod.mk.inj (Option.some.inj h)).1]
        exact List.not_mem_nil
      · next hr =>
          obtain ⟨⟨x, y⟩, hcut, hp⟩ := Option.map_eq_some_iff.mp h
          rw [← (Prod.mk.inj hp).1, List.mem_cons, not_or]
          exact ⟨fun he => hr (by rw [← he, isChar, beq_iff_eq]), ih hcut⟩

theorem cutAtChar_append {c : Char} {p : List Run} (h : code c ∉ p) (q : List Run) :
    cutAtChar c (p ++ q) = (cutAtChar c q).map fun x => (p ++ x.1, x.2) := by
  induction p with
  | nil => simp
  | cons r p ih =>
      have hr : r.isChar c = false := by
        rw [isChar, beq_eq_false_iff_ne]
        exact fun he => h (by rw [he]; exact List.mem_cons_self)
      rw [List.cons_append, cutAtChar, hr, ih fun hm => h (List.mem_cons_of_mem r hm)]
      simp [Option.map_map, Function.comp_def]

theorem cutAtChar_cons_self (c : Char) (rs : List Run) :
    cutAtChar c (code c :: rs) = some ([], rs) := by
  simp [cutAtChar, isChar]

theorem cutAtChar_of_not_mem {c : Char} {p : List Run} (h : code c ∉ p) :
    cutAtChar c p = none := by
  have := cutAtChar_append h []
  rwa [List.append_nil] at this

/-- The characters that lead one level out. -/
def closers : List Char := [')', ']', '\x7d', '>']

theorem utf8Size_of_mem_closers {x : Char} (h : x ∈ closers) : x.utf8Size = 1 := by
  simp only [closers, List.mem_cons, List.not_mem_nil, or_false] at h
  rcases h with rfl | rfl | rfl | rfl <;> rfl

theorem mem_closers_of_shift {r : Run} {e : Bool} (h : r.shift e = .closes) :
    ∃ c ∈ closers, r = code c := by
  unfold shift at h
  split at h
  · exact absurd h (by simp)
  · exact absurd h (by simp)
  · exact absurd h (by simp)
  · exact absurd h (by simp)
  · exact ⟨')', by decide, rfl⟩
  · exact ⟨']', by decide, rfl⟩
  · exact ⟨'\x7d', by decide, rfl⟩
  · exact ⟨'>', by decide, rfl⟩
  · exact absurd h (by simp)

theorem eq_of_enclosedFrom {d : Nat} {e : Bool} {rs a b : List Run}
    (h : enclosedFrom d e rs = some (a, b)) : ∃ c ∈ closers, rs = a ++ code c :: b := by
  induction rs generalizing d e a b with
  | nil => exact absurd h (by simp [enclosedFrom])
  | cons r rs ih =>
      rw [enclosedFrom] at h
      split at h
      · next hw =>
          have hcloses : r.shift e = .closes := by
            cases hs : r.shift e with
            | closes => rfl
            | opens => exact absurd hw (by simp [hs, Shift.within])
            | stays => exact absurd hw (by simp [hs, Shift.within])
          obtain ⟨c, hc, hr⟩ := mem_closers_of_shift hcloses
          rw [Option.some.injEq, Prod.mk.injEq] at h
          exact ⟨c, hc, by rw [← h.1, ← h.2, hr, List.nil_append]⟩
      · obtain ⟨⟨x, y⟩, hcut, hp⟩ := Option.map_eq_some_iff.mp h
        obtain ⟨c, hc, hrs⟩ := ih hcut
        rw [Prod.mk.injEq] at hp
        exact ⟨c, hc, by rw [hrs, ← hp.1, ← hp.2, List.cons_append]⟩

theorem eq_of_enclosed {rs a b : List Run} (h : enclosed rs = some (a, b)) :
    ∃ c ∈ closers, rs = a ++ code c :: b :=
  eq_of_enclosedFrom h

theorem eq_of_wrapped {o : Char} {rs inner : List Run} (h : wrapped o rs = some inner) :
    ∃ rest, rs = code o :: rest ∧ enclosed rest = some (inner, []) := by
  unfold wrapped at h
  split at h
  · exact absurd h (by simp)
  · next r rest =>
      split at h
      · next hr =>
          have hr : r = code o := by simpa [isChar] using hr
          split at h
          · next he =>
              rw [Option.some.injEq] at h
              exact ⟨rest, by rw [hr], by rw [he, h]⟩
          · exact absurd h (by simp)
      · exact absurd h (by simp)

/-- Trimming takes away trivia at both ends. -/
theorem exists_trim (rs : List Run) :
    ∃ a b, rs = a ++ (trim rs ++ b) ∧ (∀ r ∈ a, r.isTrivia = true) ∧
      ∀ r ∈ b, r.isTrivia = true := by
  have hfront := List.takeWhile_append_dropWhile (p := isTrivia) (l := rs)
  have hback := List.takeWhile_append_dropWhile (p := isTrivia)
    (l := (rs.dropWhile isTrivia).reverse)
  refine ⟨rs.takeWhile isTrivia, ((rs.dropWhile isTrivia).reverse.takeWhile isTrivia).reverse,
    ?_, ?_, ?_⟩
  · rw [trim, Text.dropWhileEnd, ← List.reverse_append, hback, List.reverse_reverse, hfront]
  · exact fun r hr => List.mem_takeWhile_imp hr
  · exact fun r hr => List.mem_takeWhile_imp (List.mem_reverse.mp hr)

theorem isInfix_trim (rs : List Run) : trim rs <:+: rs := by
  obtain ⟨a, b, hrs, _⟩ := exists_trim rs
  exact ⟨a, b, by rw [List.append_assoc, ← hrs]⟩

/-- The pieces between commas are parts of the whole. -/
theorem isInfix_of_mem_splitAtCommas {rs p : List Run} (h : p ∈ splitAtCommas rs) : p <:+: rs := by
  rw [splitAtCommas, List.mem_filter, List.mem_map] at h
  obtain ⟨⟨q, hq, rfl⟩, _⟩ := h
  have hinfix := isInfix_intercalate [code ','] hq
  rw [Nesting.intercalate_pieces] at hinfix
  exact (isInfix_trim q).trans hinfix

theorem mem_trim {rs : List Run} {r : Run} (hr : r ∈ rs) (h : r.isTrivia = false) :
    r ∈ trim rs := by
  obtain ⟨a, b, hrs, ha, hb⟩ := exists_trim rs
  rw [hrs] at hr
  have hne {s : List Run} (hs : ∀ r ∈ s, r.isTrivia = true) : r ∉ s := fun hm => by
    rw [hs r hm] at h
    exact Bool.noConfusion h
  rcases List.mem_append.mp hr with hr | hr
  · exact absurd hr (hne ha)
  · rcases List.mem_append.mp hr with hr | hr
    · exact hr
    · exact absurd hr (hne hb)

end Run

end ScriptSurvey
