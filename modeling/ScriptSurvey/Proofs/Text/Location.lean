import Mathlib.Algebra.Group.Nat.Defs
import Mathlib.Data.List.TakeWhile
import Mathlib.Data.Prod.Lex
import ScriptSurvey.Proofs.Text.LineIndex

/-!
# Locations of places

A place in a text stands on a line, behind some characters of that line. Its location has the number of the
line and, counted from one, the number of these characters. At a boundary, and at the end for every offset
past it, the location of an offset is that of the place. An offset inside a character is located behind that
character, one column on, and not in front of it.

Each character that a place is moved over moves it on, to a later column or to a later line. So boundaries
are in the order of their lines and columns. Locations are words of 32 bits: they are in that order as far
as the two numbers fit, which they do behind fewer than `2 ^ 32 - 1` bytes. Of the texts of fewer than
`2 ^ 32` bytes only two kinds have a boundary that is located out of order, their end, at line zero or at
column zero; and even there no two boundaries share a location.
-/

namespace ScriptSurvey

namespace Text

/-- Whether some front part of the text has exactly `n` bytes. -/
def IsBoundary (t : Text) (n : Nat) : Prop :=
  ∃ front back, t = front ++ back ∧ size front = n

/-- How a text falls apart at byte `n`: into the lines above, what stands on the line in front of the
character that byte `n` belongs to, and the rest from that character on, which is empty past the end. -/
structure FallsApart (t : Text) (n : Nat) (above line back : Text) : Prop where
  text : t = above ++ line ++ back
  starts : above = [] ∨ above.getLast? = some '\n'
  sameLine : '\n' ∉ line
  le : size (above ++ line) ≤ n
  lt : ∀ c rest, back = c :: rest → n < size (above ++ line) + c.utf8Size

/-- A text falls apart in front of the character that a byte belongs to. -/
theorem exists_cut (t : Text) (n : Nat) : ∃ front back, t = front ++ back ∧ size front ≤ n ∧
    ∀ c rest, back = c :: rest → n < size front + c.utf8Size := by
  induction t generalizing n with
  | nil => exact ⟨[], [], rfl, Nat.zero_le n, by simp⟩
  | cons c t ih =>
      rcases Nat.lt_or_ge n c.utf8Size with hlt | hge
      · refine ⟨[], c :: t, rfl, Nat.zero_le n, ?_⟩
        rintro d rest hd
        obtain ⟨rfl, -⟩ := List.cons.inj hd
        simpa using hlt
      · obtain ⟨front, back, rfl, hle, hlt⟩ := ih (n - c.utf8Size)
        refine ⟨c :: front, back, rfl, ?_, fun d rest hd => ?_⟩
        · rw [size_cons]
          omega
        · have := hlt d rest hd
          rw [size_cons]
          omega

/-- A text falls apart at the start of its last line. -/
theorem exists_lastLine (t : Text) :
    ∃ above line, t = above ++ line ∧ (above = [] ∨ above.getLast? = some '\n') ∧ '\n' ∉ line := by
  induction t using List.reverseRecOn with
  | nil => exact ⟨[], [], rfl, .inl rfl, List.not_mem_nil⟩
  | append_singleton t c ih =>
      by_cases hc : c = '\n'
      · exact ⟨t ++ [c], [], (List.append_nil _).symm, .inr (by rw [List.getLast?_concat, hc]),
          List.not_mem_nil⟩
      · obtain ⟨above, line, rfl, habove, hline⟩ := ih
        refine ⟨above, line ++ [c], List.append_assoc above line [c], habove, fun hmem => ?_⟩
        rcases List.mem_append.mp hmem with hmem | hmem
        · exact hline hmem
        · exact hc (List.mem_singleton.mp hmem).symm

theorem exists_fallsApart (t : Text) (n : Nat) :
    ∃ above line back, FallsApart t n above line back := by
  obtain ⟨front, back, rfl, hle, hlt⟩ := exists_cut t n
  obtain ⟨above, line, rfl, habove, hline⟩ := exists_lastLine front
  exact ⟨above, line, back, rfl, habove, hline, hle, hlt⟩

/-! ## What begins in front of an offset -/

theorem beginningBefore_append {front : Text} {n : Nat} (h : size front ≤ n) (back : Text) :
    beginningBefore n (front ++ back) = front ++ beginningBefore (n - size front) back := by
  induction front generalizing n with
  | nil => rfl
  | cons c front ih =>
      have hpos := c.utf8Size_pos
      rw [size_cons] at h
      obtain ⟨k, rfl⟩ : ∃ k, n = k + 1 := ⟨n - 1, by omega⟩
      rw [List.cons_append, beginningBefore, ih (by omega), size_cons, Nat.sub_sub]
      rfl

theorem beginningBefore_size (front back : Text) :
    beginningBefore (size front) (front ++ back) = front := by
  rw [beginningBefore_append (Nat.le_refl _), Nat.sub_self, beginningBefore, List.append_nil]

/-- Of a character that is cut, the whole begins in front of the cut. -/
theorem beginningBefore_inside {c : Char} {n : Nat} (hpos : n ≠ 0) (hlt : n < c.utf8Size) (t : Text) :
    beginningBefore n (c :: t) = [c] := by
  obtain ⟨k, rfl⟩ := Nat.exists_eq_add_one_of_ne_zero hpos
  rw [beginningBefore, Nat.sub_eq_zero_of_le (Nat.le_of_lt hlt), beginningBefore]

end Text

namespace Location

open Text

/-- On a line without line feeds, a location is moved on by one column for each character. -/
theorem foldl_next_of_not_mem {line : Text} (h : '\n' ∉ line) (l : Location) :
    line.foldl next l = ⟨l.line, l.column + UInt32.ofNat line.length⟩ := by
  induction line generalizing l with
  | nil => exact congrArg (Location.mk l.line) (UInt32.add_zero _).symm
  | cons c line ih =>
      rw [List.mem_cons, not_or] at h
      rw [List.foldl_cons, next, if_neg (Ne.symm h.1), ih h.2, List.length_cons, UInt32.ofNat_add,
        UInt32.add_comm (UInt32.ofNat line.length), ← UInt32.add_assoc]
      rfl

/-- **The location behind a part of a line.** -/
theorem after_line {above line : Text} (habove : above = [] ∨ above.getLast? = some '\n')
    (hline : '\n' ∉ line) :
    after (above ++ line) = ⟨UInt32.ofNat (above.count '\n') + 1, UInt32.ofNat line.length + 1⟩ := by
  have hstart : after above = ⟨UInt32.ofNat (above.count '\n') + 1, 1⟩ := by
    rcases habove with rfl | hlast
    · rfl
    · obtain ⟨front, rfl⟩ := List.getLast?_eq_some_iff.mp hlast
      rw [after_concat, next, if_pos rfl, List.count_append, UInt32.ofNat_add]
      rfl
  rw [after_append, hstart, foldl_next_of_not_mem hline, UInt32.add_comm 1]

/-- No line feed has a byte to be inside of. -/
theorem ne_lineFeed_of_inside {c : Char} {n : Nat} (hpos : n ≠ 0) (hlt : n < c.utf8Size) :
    c ≠ '\n' := by
  rintro rfl
  have : ('\n').utf8Size = 1 := by decide
  omega

/-- The word for a number has the number as its value, one added, exactly if the sum fits. -/
theorem toNat_ofNat_add_one_iff (n : Nat) :
    (UInt32.ofNat n + 1).toNat = n + 1 ↔ n + 1 < 2 ^ 32 := by
  rw [UInt32.toNat_add, UInt32.toNat_ofNat', UInt32.toNat_one]
  omega

/-- **Which offsets are located where an editor shows them.** The location that is looked up has the line
and the column of the character that the byte belongs to exactly at boundaries and past the end, and if
both numbers fit 32 bits, as they do for every offset below `2 ^ 32 - 1`. Inside a character it is one
column further on. -/
theorem locate_eq_iff (t : Text) (n : Nat) :
    (∃ above line back, FallsApart t n above line back) ∧
    ∀ above line back, FallsApart t n above line back →
      (LineIndex.ofText t).locate n = locate t n ∧
      ((locate t n).line.toNat = above.count '\n' + 1 ∧ (locate t n).column.toNat = line.length + 1 ↔
        (n = size (above ++ line) ∨ back = []) ∧
          above.count '\n' + 1 < 2 ^ 32 ∧ line.length + 1 < 2 ^ 32) ∧
      (n ≠ size (above ++ line) → back ≠ [] →
        locate t n = ⟨UInt32.ofNat (above.count '\n') + 1, UInt32.ofNat (line.length + 1) + 1⟩) ∧
      (n + 1 < 2 ^ 32 → above.count '\n' + 1 < 2 ^ 32 ∧ line.length + 1 < 2 ^ 32) := by
  refine ⟨exists_fallsApart t n, fun above line back h => ?_⟩
  have hbegin : beginningBefore n t =
      above ++ line ++ beginningBefore (n - size (above ++ line)) back := by
    rw [h.text]
    exact beginningBefore_append h.le back
  have hplace := after_line h.starts h.sameLine
  -- inside a character, the text up to the byte has that character too
  have hinside (hn : n ≠ size (above ++ line)) (hback : back ≠ []) :
      locate t n = ⟨UInt32.ofNat (above.count '\n') + 1, UInt32.ofNat (line.length + 1) + 1⟩ := by
    obtain ⟨c, rest, rfl⟩ := List.exists_cons_of_ne_nil hback
    have hle := h.le
    have hlt := h.lt c rest rfl
    have hpos : n - size (above ++ line) ≠ 0 := by omega
    have hcut : n - size (above ++ line) < c.utf8Size := by omega
    rw [locate, hbegin, beginningBefore_inside hpos hcut, after_concat, hplace, next,
      if_neg (ne_lineFeed_of_inside hpos hcut), UInt32.ofNat_add]
    rfl
  have houtside (hout : n = size (above ++ line) ∨ back = []) :
      locate t n = ⟨UInt32.ofNat (above.count '\n') + 1, UInt32.ofNat line.length + 1⟩ := by
    have hnone : beginningBefore (n - size (above ++ line)) back = [] := by
      rcases hout with hn | rfl
      · rw [hn, Nat.sub_self, beginningBefore]
      · cases n - size (above ++ line) <;> rfl
    rw [locate, hbegin, hnone, List.append_nil, hplace]
  refine ⟨LineIndex.locate_ofText t n, ⟨fun hshown => ?_, fun hplain => ?_⟩, hinside, fun hn => ?_⟩
  · obtain ⟨hline, hcolumn⟩ := hshown
    have hlineLt := (locate t n).line.toNat_lt
    have hcolumnLt := (locate t n).column.toNat_lt
    refine ⟨?_, hline ▸ hlineLt, hcolumn ▸ hcolumnLt⟩
    by_contra hcon
    obtain ⟨hn, hback⟩ := not_or.mp hcon
    rw [hinside hn hback, UInt32.toNat_add, UInt32.toNat_ofNat', UInt32.toNat_one] at hcolumn
    omega
  · obtain ⟨hout, hfits⟩ := hplain
    rw [houtside hout]
    exact ⟨(toNat_ofNat_add_one_iff _).mpr hfits.1, (toNat_ofNat_add_one_iff _).mpr hfits.2⟩
  · have hle := h.le
    have habove : above.count '\n' ≤ size above := List.count_le_length.trans (length_le_size above)
    have hline := length_le_size line
    rw [size_append] at hle
    omega

/-- Inside the `é` of the second line, between two characters and past the end. -/
theorem locate_eq_iff_accented :
    FallsApart "a\nbéc".toList 4 ['a', '\n'] ['b'] ['é', 'c'] ∧
      locate "a\nbéc".toList 4 = ⟨2, 3⟩ ∧
    FallsApart "a\nbéc".toList 5 ['a', '\n'] ['b', 'é'] ['c'] ∧
      (locate "a\nbéc".toList 5).line.toNat = 2 ∧ (locate "a\nbéc".toList 5).column.toNat = 3 ∧
    FallsApart "a\nbéc".toList 9 ['a', '\n'] ['b', 'é', 'c'] [] ∧
      (locate "a\nbéc".toList 9).line.toNat = 2 ∧ (locate "a\nbéc".toList 9).column.toNat = 4 := by
  have hinside : FallsApart "a\nbéc".toList 4 ['a', '\n'] ['b'] ['é', 'c'] :=
    ⟨rfl, .inr rfl, by decide, by decide, by rintro c rest ⟨⟩; decide⟩
  have hbetween : FallsApart "a\nbéc".toList 5 ['a', '\n'] ['b', 'é'] ['c'] :=
    ⟨rfl, .inr rfl, by decide, by decide, by rintro c rest ⟨⟩; decide⟩
  have hend : FallsApart "a\nbéc".toList 9 ['a', '\n'] ['b', 'é', 'c'] [] :=
    ⟨rfl, .inr rfl, by decide, by decide, by rintro c rest ⟨⟩⟩
  obtain ⟨hline, hcolumn⟩ :=
    ((locate_eq_iff _ 5).2 _ _ _ hbetween).2.1.mpr ⟨.inl (by decide), by decide, by decide⟩
  obtain ⟨hlastLine, hlastColumn⟩ :=
    ((locate_eq_iff _ 9).2 _ _ _ hend).2.1.mpr ⟨.inr rfl, by decide, by decide⟩
  exact ⟨hinside, ((locate_eq_iff _ 4).2 _ _ _ hinside).2.2.1 (by decide) (by decide),
    hbetween, hline, hcolumn, hend, hlastLine, hlastColumn⟩

/-- The second byte of `é` belongs to the character in the first column, and is located in the second. -/
theorem locate_inside_character :
    FallsApart ['é'] 1 [] [] ['é'] ∧ locate ['é'] 0 = ⟨1, 1⟩ ∧ locate ['é'] 1 = ⟨1, 2⟩ :=
  ⟨⟨rfl, .inl rfl, by decide, by decide, by rintro c rest ⟨⟩; decide⟩, by decide, by decide⟩

end Location

/-! ## The order of places -/

namespace Text

/-- The line and the column of the place behind a text, counted from one. -/
def place (t : Text) : ℕ ×ₗ ℕ :=
  toLex (t.count '\n' + 1, (t.reverse.takeWhile (· != '\n')).length + 1)

theorem place_lt_concat (t : Text) (c : Char) : place t < place (t ++ [c]) := by
  rw [place, place, Prod.Lex.toLex_lt_toLex]
  by_cases hc : c = '\n'
  · subst hc
    exact .inl (by simp)
  · exact .inr (by simp [hc])

/-- **Characters move a place on.** -/
theorem place_lt_append (t : Text) {s : Text} (hs : s ≠ []) : place t < place (t ++ s) := by
  induction s using List.reverseRecOn with
  | nil => exact absurd rfl hs
  | append_singleton s c ih =>
      rw [← List.append_assoc]
      by_cases hs : s = []
      · rw [hs, List.append_nil]
        exact place_lt_concat t c
      · exact (ih hs).trans (place_lt_concat _ c)

/-- The texts of `2 ^ 32 - 1` bytes whose last line, or whose number of lines, is one too many for 32 bits:
those of line feeds only, and those of one line in which each character has one byte. -/
def WrapsAround (t : Text) : Prop :=
  size t + 1 = 2 ^ 32 ∧ ((∀ c ∈ t, c = '\n') ∨ ∀ c ∈ t, c ≠ '\n' ∧ c.utf8Size = 1)

theorem length_lastLine_le (t : Text) : (t.reverse.takeWhile (· != '\n')).length ≤ t.length :=
  (List.takeWhile_prefix _).length_le.trans (Nat.le_of_eq List.length_reverse)

theorem size_eq_length {t : Text} (h : ∀ c ∈ t, c.utf8Size = 1) : size t = t.length := by
  induction t with
  | nil => rfl
  | cons c t ih =>
      rw [List.forall_mem_cons] at h
      rw [size_cons, List.length_cons, h.1, ih h.2, Nat.add_comm]

theorem utf8Size_eq_one_of_size_eq_length {t : Text} (h : size t = t.length) :
    ∀ c ∈ t, c.utf8Size = 1 := by
  induction t with
  | nil => simp
  | cons c t ih =>
      have hpos := c.utf8Size_pos
      have hrest := length_le_size t
      rw [size_cons, List.length_cons] at h
      exact List.forall_mem_cons.mpr ⟨by omega, ih (by omega)⟩

/-- **Of a text of fewer than `2 ^ 32` bytes,** line and column at the end fit 32 bits, or it is one of those
that wrap around. -/
theorem place_fits_or_wrapsAround {t : Text} (h : size t < 2 ^ 32) :
    (t.count '\n' + 1 < 2 ^ 32 ∧ (t.reverse.takeWhile (· != '\n')).length + 1 < 2 ^ 32) ∨
      WrapsAround t := by
  have hlength := length_le_size t
  have hcount : t.count '\n' ≤ t.length := List.count_le_length
  have hlast := length_lastLine_le t
  by_cases hline : t.count '\n' + 1 < 2 ^ 32
  · by_cases hcolumn : (t.reverse.takeWhile (· != '\n')).length + 1 < 2 ^ 32
    · exact .inl ⟨hline, hcolumn⟩
    · -- every character stands on the last line, and has one byte
      have hall : t.reverse.takeWhile (· != '\n') = t.reverse :=
        (List.takeWhile_prefix _).eq_of_length (by rw [List.length_reverse]; omega)
      refine .inr ⟨by omega, .inr fun c hc => ⟨?_, ?_⟩⟩
      · simpa using List.takeWhile_eq_self_iff.mp hall c (List.mem_reverse.mpr hc)
      · exact utf8Size_eq_one_of_size_eq_length (by omega) c hc
  · refine .inr ⟨by omega, .inl fun c hc => ?_⟩
    exact (List.count_eq_length.mp (by omega) c hc).symm

end Text

/-! ## The order of locations -/

namespace Location

open Text

/-- The pair of line and column, by which locations are ordered. -/
def key (l : Location) : ℕ ×ₗ ℕ :=
  toLex (l.line.toNat, l.column.toNat)

theorem key_injective : Function.Injective key := by
  rintro ⟨line, column⟩ ⟨line', column'⟩ h
  obtain ⟨hline, hcolumn⟩ := Prod.mk.inj (toLex.injective h)
  exact congrArg₂ Location.mk (UInt32.toNat_inj.mp hline) (UInt32.toNat_inj.mp hcolumn)

/-- A location is in front of those further on in its line and those on later lines. -/
instance : LinearOrder Location :=
  LinearOrder.lift' key key_injective

theorem lt_iff {l m : Location} : l < m ↔ key l < key m :=
  Iff.rfl

/-- The location behind a text is its place, as far as line and column fit. -/
theorem key_after {t : Text} (hline : t.count '\n' + 1 < 2 ^ 32)
    (hcolumn : (t.reverse.takeWhile (· != '\n')).length + 1 < 2 ^ 32) : key (after t) = place t := by
  rw [key, after, (toNat_ofNat_add_one_iff _).mpr hline, (toNat_ofNat_add_one_iff _).mpr hcolumn, place]

/-- Behind a text that wraps around, the line or the column is zero. -/
theorem after_of_wrapsAround {t : Text} (h : t.WrapsAround) : after t = ⟨0, 1⟩ ∨ after t = ⟨1, 0⟩ := by
  obtain ⟨hsize, hall | hall⟩ := h
  · -- line feeds only: their number is that of the bytes, and the last line is empty
    have hlength : t.length = size t :=
      (size_eq_length fun c hc => by rw [hall c hc]; decide).symm
    have hcount : t.count '\n' = 2 ^ 32 - 1 := by
      rw [List.count_eq_length.mpr fun c hc => (hall c hc).symm]
      omega
    have hlast : t.reverse.takeWhile (· != '\n') = [] := by
      cases hrev : t.reverse with
      | nil => rfl
      | cons c u =>
          have hc : c = '\n' := hall c (List.mem_reverse.mp (hrev ▸ List.mem_cons_self))
          exact List.takeWhile_cons_of_neg (by simp [hc])
    rw [after, hcount, hlast]
    exact .inl rfl
  · -- one line, in which each character is a byte
    have hlength : t.length = 2 ^ 32 - 1 := by
      rw [← size_eq_length fun c hc => (hall c hc).2]
      omega
    have hcount : t.count '\n' = 0 := List.count_eq_zero.mpr fun hmem => (hall _ hmem).1 rfl
    have hlast : t.reverse.takeWhile (· != '\n') = t.reverse :=
      List.takeWhile_eq_self_iff.mpr fun c hc => by simpa using (hall c (List.mem_reverse.mp hc)).1
    rw [after, hcount, hlast, List.length_reverse, hlength]
    exact .inr rfl

theorem locate_size (front back : Text) : locate (front ++ back) (size front) = after front := by
  rw [locate, beginningBefore_size]

/-- Two boundaries of a text of fewer than `2 ^ 32` bytes: what stands in front of the first one fits, and so
its location is the place, with line and column from one on. -/
theorem key_after_of_lt {front mid : Text} (hmid : mid ≠ []) (hsize : size (front ++ mid) < 2 ^ 32) :
    key (after front) = place front := by
  have hpos : 0 < size mid := by
    obtain ⟨c, rest, rfl⟩ := List.exists_cons_of_ne_nil hmid
    exact Nat.add_pos_left c.utf8Size_pos _
  rw [size_append] at hsize
  rcases place_fits_or_wrapsAround (t := front) (by omega) with ⟨hline, hcolumn⟩ | hwraps
  · exact key_after hline hcolumn
  · have := hwraps.1
    omega

/-- **The later of two boundaries** has the later location unless the text in front of it wraps around. -/
theorem after_lt_after_append_iff {front mid : Text} (hmid : mid ≠ [])
    (hsize : size (front ++ mid) < 2 ^ 32) :
    after front < after (front ++ mid) ↔ ¬(front ++ mid).WrapsAround := by
  rw [lt_iff, key_after_of_lt hmid hsize]
  constructor
  · intro hlt hwraps
    rw [place] at hlt
    rcases after_of_wrapsAround hwraps with hafter | hafter <;>
    · rw [hafter, key, Prod.Lex.toLex_lt_toLex] at hlt
      simp at hlt
  · intro hwraps
    obtain ⟨hline, hcolumn⟩ := (place_fits_or_wrapsAround hsize).resolve_right hwraps
    rw [key_after hline hcolumn]
    exact place_lt_append front hmid

theorem after_ne_after_append {front mid : Text} (hmid : mid ≠ [])
    (hsize : size (front ++ mid) < 2 ^ 32) : after front ≠ after (front ++ mid) := by
  intro heq
  by_cases hwraps : (front ++ mid).WrapsAround
  · have hkey := key_after_of_lt hmid hsize
    rw [heq, place] at hkey
    rcases after_of_wrapsAround hwraps with hafter | hafter <;>
    · rw [hafter, key] at hkey
      simp at hkey
  · exact absurd heq ((after_lt_after_append_iff hmid hsize).mpr hwraps).ne

/-- Two boundaries divide a text in three. -/
theorem exists_between {t : Text} {p q : Nat} (hp : t.IsBoundary p) (hq : t.IsBoundary q) (h : p < q) :
    ∃ front mid back, t = front ++ mid ++ back ∧ mid ≠ [] ∧ size front = p ∧ size (front ++ mid) = q := by
  obtain ⟨front, back, rfl, rfl⟩ := hp
  obtain ⟨front', back', heq, rfl⟩ := hq
  obtain ⟨mid, rfl⟩ : ∃ mid, front' = front ++ mid := by
    rcases List.append_eq_append_iff.mp heq with ⟨mid, hmid, -⟩ | ⟨mid, hmid, -⟩
    · exact ⟨mid, hmid⟩
    · rw [hmid, size_append] at h
      omega
  refine ⟨front, mid, back', heq, ?_, rfl, rfl⟩
  rintro rfl
  rw [List.append_nil] at h
  exact absurd h (Nat.lt_irrefl _)

variable {t : Text} {p q : Nat}

theorem locate_lt_locate_iff_not_wrapsAround (hsize : size t < 2 ^ 32) (hp : t.IsBoundary p)
    (hq : t.IsBoundary q) (h : p < q) :
    locate t p < locate t q ↔ ¬(t.WrapsAround ∧ q = size t) := by
  obtain ⟨front, mid, back, rfl, hmid, rfl, rfl⟩ := exists_between hp hq h
  rw [size_append] at hsize
  -- nothing stands behind a text that wraps around
  have hwraps : (front ++ mid).WrapsAround ↔
      (front ++ mid ++ back).WrapsAround ∧ size (front ++ mid) = size (front ++ mid ++ back) := by
    constructor
    · intro hw
      have hback : back = [] := List.eq_nil_of_length_eq_zero (by
        have := length_le_size back
        have := hw.1
        omega)
      rw [hback, List.append_nil]
      exact ⟨hw, rfl⟩
    · rintro ⟨hw, hend⟩
      have hback : back = [] := List.eq_nil_of_length_eq_zero (by
        have := length_le_size back
        rw [size_append (front ++ mid)] at hend
        omega)
      rwa [hback, List.append_nil] at hw
  rw [locate_size (front ++ mid) back, List.append_assoc, locate_size, ← List.append_assoc, ← hwraps]
  exact after_lt_after_append_iff hmid (by omega)

theorem locate_ne_locate (hsize : size t < 2 ^ 32) (hp : t.IsBoundary p) (hq : t.IsBoundary q)
    (h : p < q) : locate t p ≠ locate t q := by
  obtain ⟨front, mid, back, rfl, hmid, rfl, rfl⟩ := exists_between hp hq h
  rw [size_append] at hsize
  rw [locate_size (front ++ mid) back, List.append_assoc, locate_size]
  exact after_ne_after_append hmid (by omega)

/-- **Boundaries are in the order of their locations,** in every text of fewer than `2 ^ 32` bytes, the end
of one that wraps around apart. No two boundaries share a location, and what is sorted by location is sorted
by offset. -/
theorem locate_orders_boundaries (hsize : size t < 2 ^ 32) :
    (∀ p q, t.IsBoundary p → t.IsBoundary q → p < q →
      (locate t p < locate t q ↔ ¬(t.WrapsAround ∧ q = size t))) ∧
    (∀ p q, t.IsBoundary p → t.IsBoundary q → (locate t p = locate t q ↔ p = q)) ∧
    ∀ (α : Type) (offset : α → Nat) (sites : List α),
      (∀ s ∈ sites, t.IsBoundary (offset s) ∧ ¬(t.WrapsAround ∧ offset s = size t)) →
      sites.mergeSort (fun a b => decide (locate t (offset a) ≤ locate t (offset b))) =
        sites.mergeSort fun a b => decide (offset a ≤ offset b) := by
  refine ⟨fun p q hp hq => locate_lt_locate_iff_not_wrapsAround hsize hp hq,
    fun p q hp hq => ⟨fun h => ?_, congrArg _⟩, fun α offset sites hsites => ?_⟩
  · rcases Nat.lt_trichotomy p q with hlt | heq | hgt
    · exact absurd h (locate_ne_locate hsize hp hq hlt)
    · exact heq
    · exact absurd h.symm (locate_ne_locate hsize hq hp hgt)
  · have hlt : ∀ a ∈ sites, ∀ b ∈ sites, offset a < offset b →
        locate t (offset a) < locate t (offset b) := fun a ha b hb h =>
      (locate_lt_locate_iff_not_wrapsAround hsize (hsites a ha).1 (hsites b hb).1 h).mpr (hsites b hb).2
    have hsame : ∀ a ∈ sites, ∀ b ∈ sites,
        decide (locate t (offset a) ≤ locate t (offset b)) = decide (offset a ≤ offset b) := by
      intro a ha b hb
      rw [decide_eq_decide]
      refine ⟨fun h => ?_, fun h => ?_⟩
      · exact Nat.le_of_not_lt fun hgt => absurd (hlt b hb a ha hgt) (not_lt.mpr h)
      · rcases Nat.lt_or_eq_of_le h with h | h
        · exact (hlt a ha b hb h).le
        · rw [h]
    have hmap := List.map_mergeSort (s := fun a b => decide (offset a ≤ offset b)) (f := id) hsame
    rwa [List.map_id, List.map_id] at hmap

/-- The boundaries of a text with a character of two bytes and a line feed. -/
theorem locate_orders_boundaries_accented :
    size "é\na".toList < 2 ^ 32 ∧ IsBoundary "é\na".toList 2 ∧ IsBoundary "é\na".toList 3 ∧
      locate "é\na".toList 2 < locate "é\na".toList 3 ∧
      locate "é\na".toList 2 = ⟨1, 2⟩ ∧ locate "é\na".toList 3 = ⟨2, 1⟩ ∧
      [3, 2].mergeSort (fun a b => decide (locate "é\na".toList a ≤ locate "é\na".toList b)) = [2, 3] := by
  have hsize : size "é\na".toList < 2 ^ 32 := by decide
  have htwo : IsBoundary "é\na".toList 2 := ⟨['é'], ['\n', 'a'], rfl, by decide⟩
  have hthree : IsBoundary "é\na".toList 3 := ⟨['é', '\n'], ['a'], rfl, by decide⟩
  have hwraps : ¬WrapsAround "é\na".toList := fun h => absurd h.1 (by decide)
  obtain ⟨horder, -, hsort⟩ := locate_orders_boundaries hsize
  refine ⟨hsize, htwo, hthree, (horder 2 3 htwo hthree (by decide)).mpr fun h => hwraps h.1, by decide,
    by decide, ?_⟩
  refine (hsort Nat id [3, 2] ?_).trans (by simp [List.mergeSort])
  simp only [List.forall_mem_cons, id]
  exact ⟨⟨hthree, fun h => hwraps h.1⟩, ⟨htwo, fun h => hwraps h.1⟩, by simp⟩

theorem size_replicate (n : Nat) : size (List.replicate n 'a') = n := by
  rw [size_eq_length fun c hc => by rw [List.eq_of_mem_replicate hc]; decide, List.length_replicate]

theorem after_replicate (n : Nat) : after (List.replicate n 'a') = ⟨1, UInt32.ofNat n + 1⟩ := by
  have hline : '\n' ∉ List.replicate n 'a' := fun h => absurd (List.eq_of_mem_replicate h) (by decide)
  rw [← List.nil_append (List.replicate n 'a'), after_line (.inl rfl) hline, List.length_replicate]
  rfl

/-- A line of `2 ^ 32 - 1` letters: its start is located at `1:1`, and its end in front of that. -/
theorem locate_end_of_letters :
    size (List.replicate (2 ^ 32 - 1) 'a') < 2 ^ 32 ∧
      IsBoundary (List.replicate (2 ^ 32 - 1) 'a') 0 ∧
      IsBoundary (List.replicate (2 ^ 32 - 1) 'a') (2 ^ 32 - 1) ∧
      locate (List.replicate (2 ^ 32 - 1) 'a') 0 = ⟨1, 1⟩ ∧
      locate (List.replicate (2 ^ 32 - 1) 'a') (2 ^ 32 - 1) = ⟨1, 0⟩ ∧
      ¬locate (List.replicate (2 ^ 32 - 1) 'a') 0 <
        locate (List.replicate (2 ^ 32 - 1) 'a') (2 ^ 32 - 1) := by
  have hsize := size_replicate (2 ^ 32 - 1)
  have hend : after (List.replicate (2 ^ 32 - 1) 'a') = ⟨1, 0⟩ := after_replicate (2 ^ 32 - 1)
  generalize List.replicate (2 ^ 32 - 1) 'a' = t at hsize hend ⊢
  have hlocate : locate t (2 ^ 32 - 1) = ⟨1, 0⟩ := by
    rw [← hend, ← hsize, ← locate_size t [], List.append_nil]
  have hstart : locate t 0 = ⟨1, 1⟩ := by
    rw [locate, beginningBefore]
    rfl
  refine ⟨by omega, ⟨[], t, rfl, rfl⟩, ⟨t, [], (List.append_nil t).symm, hsize⟩, hstart, hlocate, ?_⟩
  rw [hstart, hlocate]
  decide

end Location

end ScriptSurvey
