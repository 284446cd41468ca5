import ScriptSurvey.Proofs.Lexical.Partner
import ScriptSurvey.Proofs.Lexical.Visits

/-!
# Slices scanned again

Runs meet at offsets of a text: at its start, and wherever a step of its scan stops. A slice between two
such offsets has lost what stood around it. A `/` at its end no longer sees the next character, and a
string in it that a line feed has ended is now open.

Still a scan of the slice finds **the runs that the scan of the whole finds there**, at offsets that are
less by that of the slice. And a scan that begins at such an offset in the whole text finds all runs from
there on.
-/

namespace ScriptSurvey

namespace Span

/-- The span `n` bytes further on. -/
def shift (n : Nat) (s : Span) : Span := ⟨s.start + n, s.stop + n⟩

end Span

namespace Run

/-! ## Runs at their places -/

theorem placed_shift (n k : Nat) (rs : List Run) :
    (placed n rs).map (fun p => (p.1.shift k, p.2)) = placed (n + k) rs := by
  induction rs generalizing n with
  | nil => rfl
  | cons r rs ih =>
      rw [placed, placed, List.map_cons, ih, Span.shift, Nat.add_right_comm n _ k]

/-- A run at its place stands behind those in front of it. -/
theorem exists_of_mem_placed {n : Nat} {rs : List Run} {s : Span} {r : Run}
    (h : (s, r) ∈ placed n rs) :
    ∃ front after, rs = front ++ r :: after ∧
      s = ⟨n + Text.size (join front), n + Text.size (join front) + Text.size r.text⟩ := by
  induction rs generalizing n with
  | nil => exact absurd h List.not_mem_nil
  | cons q rs ih =>
      rcases List.mem_cons.mp h with heq | h
      · obtain ⟨rfl, rfl⟩ := Prod.mk.inj heq
        exact ⟨[], rs, rfl, rfl⟩
      · obtain ⟨front, after, rfl, rfl⟩ := ih h
        exact ⟨q :: front, after, rfl, by rw [join_cons, Text.size_append, Nat.add_assoc n]⟩

theorem mem_placed (n : Nat) (front : List Run) (r : Run) (after : List Run) :
    (⟨n + Text.size (join front), n + Text.size (join front) + Text.size r.text⟩, r) ∈
      placed n (front ++ r :: after) := by
  rw [placed_append]
  exact List.mem_append_right _ List.mem_cons_self

/-- Runs with some text in them stand between the two ends of what they make up. -/
theorem bounds_of_mem_placed {n : Nat} {rs : List Run} (hne : ∀ r ∈ rs, r.text ≠ [])
    {p : Span × Run} (h : p ∈ placed n rs) :
    n ≤ p.1.start ∧ p.1.start < p.1.stop ∧ p.1.stop ≤ n + Text.size (join rs) := by
  induction rs generalizing n with
  | nil => exact absurd h List.not_mem_nil
  | cons r rs ih =>
      have hpos := Text.size_pos (hne r List.mem_cons_self)
      rw [join_cons, Text.size_append]
      rcases List.mem_cons.mp h with rfl | h
      · refine ⟨Nat.le_refl n, ?_, ?_⟩
        · show n < n + Text.size r.text
          omega
        · show n + Text.size r.text ≤ _
          omega
      · have := ih (fun s hs => hne s (List.mem_cons_of_mem r hs)) h
        omega

/-- The runs that stand from an offset between them on. -/
theorem filter_placed_from {n : Nat} {p q : List Run} (hne : ∀ r ∈ p ++ q, r.text ≠ []) :
    (placed n (p ++ q)).filter (fun s => n + Text.size (join p) ≤ s.1.start) =
      placed (n + Text.size (join p)) q := by
  have hfront : ∀ s ∈ placed n p, ¬n + Text.size (join p) ≤ s.1.start := by
    intro s hs
    have := bounds_of_mem_placed (fun r hr => hne r (List.mem_append_left q hr)) hs
    omega
  have hbehind : ∀ s ∈ placed (n + Text.size (join p)) q, n + Text.size (join p) ≤ s.1.start := by
    intro s hs
    exact (bounds_of_mem_placed (fun r hr => hne r (List.mem_append_right p hr)) hs).1
  rw [placed_append, List.filter_append, List.filter_eq_nil_iff.mpr (by simpa using hfront),
    List.filter_eq_self.mpr (by simpa using hbehind), List.nil_append]

/-- The runs that stand in front of an offset between them. -/
theorem filter_placed_upTo {n : Nat} {p q : List Run} (hne : ∀ r ∈ p ++ q, r.text ≠ []) :
    (placed n (p ++ q)).filter (fun s => s.1.stop ≤ n + Text.size (join p)) = placed n p := by
  have hfront : ∀ s ∈ placed n p, s.1.stop ≤ n + Text.size (join p) := by
    intro s hs
    exact (bounds_of_mem_placed (fun r hr => hne r (List.mem_append_left q hr)) hs).2.2
  have hbehind : ∀ s ∈ placed (n + Text.size (join p)) q, ¬s.1.stop ≤ n + Text.size (join p) := by
    intro s hs
    have := bounds_of_mem_placed (fun r hr => hne r (List.mem_append_right p hr)) hs
    omega
  rw [placed_append, List.filter_append, List.filter_eq_self.mpr (by simpa using hfront),
    List.filter_eq_nil_iff.mpr (by simpa using hbehind), List.append_nil]

end Run

namespace Cursor

/-- The offsets at which runs of a text meet, and those of its two ends. -/
def runBoundaries (t : Text) : List Nat :=
  0 :: (ofText t).scan.1.map fun p => p.1.stop

theorem scan_ofText (t : Text) : (ofText t).scan.1 = Run.placed 0 (runs t) :=
  scan_eq_placed (ofText t)

/-- The place behind some of the runs. -/
theorem place_of_runs {t : Text} {front after : List Run} (h : runs t = front ++ after) :
    place t (Text.size (Run.join front)) = ⟨(Run.join front).reverse, Run.join after, .code⟩ := by
  have hplace := place_offset ⟨(Run.join front).reverse, Run.join after, .code⟩
  rwa [(reaches_of_runs_eq h).text_eq, text_ofText, offset, Text.size_reverse] at hplace

/-- A boundary stands behind some of the runs. -/
theorem exists_of_mem_runBoundaries {t : Text} {b : Nat} (h : b ∈ runBoundaries t) :
    ∃ front after, runs t = front ++ after ∧ b = Text.size (Run.join front) := by
  rw [runBoundaries, scan_ofText] at h
  rcases List.mem_cons.mp h with rfl | h
  · exact ⟨[], runs t, rfl, rfl⟩
  · obtain ⟨⟨s, r⟩, hp, rfl⟩ := List.mem_map.mp h
    obtain ⟨front, after, hruns, hs⟩ := Run.exists_of_mem_placed hp
    refine ⟨front ++ [r], after, by rw [hruns, List.append_assoc, List.singleton_append], ?_⟩
    rw [hs, Run.join_append, Text.size_append, Run.join_cons, Run.join_nil, List.append_nil]
    exact congrArg (· + _) (Nat.zero_add _)

/-- Two boundaries cut the runs into those in front, those between and those behind. -/
theorem exists_cut_of_mem_runBoundaries {t : Text} {a b : Nat} (ha : a ∈ runBoundaries t)
    (hb : b ∈ runBoundaries t) (hab : a ≤ b) :
    ∃ front piece after, runs t = front ++ (piece ++ after) ∧ a = Text.size (Run.join front) ∧
      b = a + Text.size (Run.join piece) := by
  obtain ⟨p, x, hp, rfl⟩ := exists_of_mem_runBoundaries ha
  obtain ⟨q, y, hq, rfl⟩ := exists_of_mem_runBoundaries hb
  rcases List.append_eq_append_iff.mp (hp.symm.trans hq) with ⟨s, rfl, rfl⟩ | ⟨s, rfl, rfl⟩
  · exact ⟨p, s, y, hp, rfl, by rw [Run.join_append, Text.size_append]⟩
  · -- the boundary behind is not in front, so it is the same one
    have hsize : Text.size (Run.join (q ++ s)) = Text.size (Run.join q) := by
      rw [Run.join_append, Text.size_append] at hab ⊢
      omega
    have hsame : q ++ s = q := Run.eq_of_size_join hp hq hsize
    rw [hsame] at hp ⊢
    exact ⟨q, [], x, hp, rfl, rfl⟩

/-- **A slice between two boundaries has the runs that the text has there**, and so has what a scan finds
that begins at the first of them. -/
theorem scan_slice {t : Text} {a b : Nat} (ha : a ∈ runBoundaries t) (hb : b ∈ runBoundaries t)
    (hab : a ≤ b) :
    (∃ piece, (Span.mk a b).slice? t = some piece ∧
      (ofText piece).scan.1.map (fun p => (p.1.shift a, p.2)) =
        (ofText t).scan.1.filter fun p => a ≤ p.1.start ∧ p.1.stop ≤ b) ∧
    (place t a).scan.1 = (ofText t).scan.1.filter fun p => a ≤ p.1.start := by
  obtain ⟨front, piece, after, hruns, rfl, rfl⟩ := exists_cut_of_mem_runBoundaries ha hb hab
  have hstable := Run.stable_runs t
  rw [hruns] at hstable
  have hne : ∀ r ∈ front ++ (piece ++ after), r.text ≠ [] := by
    intro r hr
    rw [← hruns] at hr
    exact Run.text_ne_nil_of_mem_runs hr
  have hbehind : ∀ r ∈ piece ++ after, r.text ≠ [] :=
    fun r hr => hne r (List.mem_append_right front hr)
  have hfrom : (ofText t).scan.1.filter (fun p => Text.size (Run.join front) ≤ p.1.start) =
      Run.placed (Text.size (Run.join front)) (piece ++ after) := by
    rw [scan_ofText, hruns]
    have := Run.filter_placed_from (n := 0) hne
    rwa [Nat.zero_add] at this
  refine ⟨⟨Run.join piece, ?_, ?_⟩, ?_⟩
  · rw [← join_runs t, hruns, Run.join_append, Run.join_append]
    exact Span.slice?_append _ _ _
  · have hpiece : runs (Run.join piece) = piece := hstable.of_append_right.of_append_left
    -- of the runs from the first boundary on, those up to the second one
    simp only [Bool.decide_and, Bool.and_comm (decide (Text.size (Run.join front) ≤ _))]
    rw [← List.filter_filter, hfrom, Run.filter_placed_upTo hbehind, scan_ofText, hpiece,
      Run.placed_shift, Nat.zero_add]
  · rw [place_of_runs hruns, scan_eq_placed, hstable.of_append_right, offset, Text.size_reverse, hfrom]

/-- A slice that begins with a `/` and ends in a string without its quote. -/
theorem scan_slice_unclosed :
    let t : Text := "x/'é\n//y".toList
    (1 ∈ runBoundaries t ∧ 5 ∈ runBoundaries t ∧ 1 ≤ 5) ∧
    (∃ piece, (Span.mk 1 5).slice? t = some piece ∧
      (ofText piece).scan.1.map (fun p => (p.1.shift 1, p.2)) =
        (ofText t).scan.1.filter fun p => 1 ≤ p.1.start ∧ p.1.stop ≤ 5) ∧
    (place t 1).scan.1 = (ofText t).scan.1.filter fun p => 1 ≤ p.1.start := by
  intro t
  have ha : 1 ∈ runBoundaries t := by decide +kernel
  have hb : 5 ∈ runBoundaries t := by decide +kernel
  have hab : 1 ≤ 5 := by decide
  exact ⟨⟨ha, hb, hab⟩, scan_slice ha hb hab⟩

end Cursor

end ScriptSurvey
