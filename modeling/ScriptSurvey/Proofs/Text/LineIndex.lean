import Mathlib.Data.List.Induction
import ScriptSurvey.Text.Location

/-!
# Looking a location up

The location of an offset is looked up in the UTF-8 form of the text. The offsets at which lines start are
found once; the line of an offset is the last one that starts at or in front of it, and the column counts
the bytes from there on that begin a character.

Read from left to right, each character moves a location on by one step, to the next column or to the next
line, and so does the first byte of each character. The other bytes move it nowhere. So what is looked up
in the bytes in front of an offset is where the characters lead that begin there, whether or not the last
of them is cut.
-/

namespace ScriptSurvey

/-! ## The UTF-8 form -/

/-- The UTF-8 form of a text. -/
def Text.bytes (t : Text) : List UInt8 :=
  t.flatMap String.utf8EncodeChar

/-- Whether a byte begins a character; the other bytes of a character are `10xxxxxx`. -/
def beginsCharacter (b : UInt8) : Bool :=
  b < 0x80 || 0xC0 ≤ b

/-- A character has one byte that begins it, its first, and that is a line feed only if the character
is. -/
theorem exists_utf8EncodeChar (c : Char) : ∃ b bs, String.utf8EncodeChar c = b :: bs ∧
    beginsCharacter b = true ∧ (b = 10 ↔ c = '\n') ∧ ∀ d ∈ bs, beginsCharacter d = false := by
  have hfeed : c = '\n' ↔ c.val.toNat = 10 := by
    rw [← Char.toNat_inj]
    rfl
  have hbegins : ∀ n, beginsCharacter (UInt8.ofNat n) = true ↔ n % 256 < 128 ∨ 192 ≤ n % 256 := by
    intro n
    simp [beginsCharacter, UInt8.lt_iff_toNat_lt, UInt8.le_iff_toNat_le]
  have hten : ∀ n, UInt8.ofNat n = 10 ↔ n % 256 = 10 := by
    intro n
    simp [← UInt8.toNat_inj]
  rw [hfeed, String.utf8EncodeChar]
  generalize c.val.toNat = v
  -- by the number of bytes
  split
  · exact ⟨_, _, rfl, (hbegins _).mpr (by omega), (hten _).trans (by omega), by simp⟩
  · split
    · refine ⟨_, _, rfl, (hbegins _).mpr (by omega), (hten _).trans (by omega), ?_⟩
      simp only [List.forall_mem_cons, ← Bool.not_eq_true, hbegins]
      exact ⟨by omega, by simp⟩
    · split
      · refine ⟨_, _, rfl, (hbegins _).mpr (by omega), (hten _).trans (by omega), ?_⟩
        simp only [List.forall_mem_cons, ← Bool.not_eq_true, hbegins]
        exact ⟨by omega, by omega, by simp⟩
      · refine ⟨_, _, rfl, (hbegins _).mpr (by omega), (hten _).trans (by omega), ?_⟩
        simp only [List.forall_mem_cons, ← Bool.not_eq_true, hbegins]
        exact ⟨by omega, by omega, by omega, by simp⟩

/-! ## Reading on -/

namespace Location

/-- The location behind one more character. -/
def next (l : Location) (c : Char) : Location :=
  if c = '\n' then ⟨l.line + 1, 1⟩ else ⟨l.line, l.column + 1⟩

theorem after_concat (t : Text) (c : Char) : after (t ++ [c]) = (after t).next c := by
  by_cases hc : c = '\n'
  · subst hc
    simp [after, next]
  · simp [after, next, hc]

/-- **More characters** move a location on, one by one. -/
theorem after_append (s t : Text) : after (s ++ t) = t.foldl next (after s) := by
  induction t using List.reverseRecOn with
  | nil => rw [List.append_nil]; rfl
  | append_singleton t c ih =>
      rw [← List.append_assoc, after_concat, ih, List.foldl_append]
      rfl

/-- The location behind one more byte. -/
def nextByte (l : Location) (b : UInt8) : Location :=
  if b = 10 then ⟨l.line + 1, 1⟩
  else if beginsCharacter b then ⟨l.line, l.column + 1⟩
  else l

/-- The bytes of a character move a location as the character does, and the first of them alone does. -/
theorem foldl_nextByte_char (l : Location) (c : Char) {n : Nat} (hn : 0 < n) :
    ((String.utf8EncodeChar c).take n).foldl nextByte l = l.next c := by
  obtain ⟨b, bs, hbytes, hbegins, hfeed, hothers⟩ := exists_utf8EncodeChar c
  obtain ⟨k, rfl⟩ := Nat.exists_eq_add_one_of_ne_zero (Nat.ne_of_gt hn)
  have hstay : ∀ (ds : List UInt8) (l : Location), (∀ d ∈ ds, beginsCharacter d = false) →
      ds.foldl nextByte l = l := by
    intro ds
    induction ds with
    | nil => intro l _; rfl
    | cons d ds ih =>
        intro l hds
        have hd := hds d List.mem_cons_self
        have hne : d ≠ 10 := by
          rintro rfl
          exact absurd hd (by decide)
        rw [List.foldl_cons, nextByte, if_neg hne, hd, if_neg Bool.false_ne_true]
        exact ih l fun x hx => hds x (List.mem_cons_of_mem d hx)
  have hfirst : l.nextByte b = l.next c := by
    rw [nextByte, next, hbegins, if_pos rfl]
    simp only [hfeed]
  rw [hbytes, List.take_succ_cons, List.foldl_cons, hfirst]
  exact hstay _ _ fun d hd => hothers d (List.mem_of_mem_take hd)

/-- The bytes in front of an offset move a location as the characters do that begin there. -/
theorem foldl_nextByte_bytes (t : Text) (n : Nat) (l : Location) :
    (t.bytes.take n).foldl nextByte l = (Text.beginningBefore n t).foldl next l := by
  induction t generalizing n l with
  | nil => cases n <;> rfl
  | cons c t ih =>
      cases n with
      | zero => rfl
      | succ n =>
          rw [Text.bytes, List.flatMap_cons, List.take_append, List.foldl_append,
            foldl_nextByte_char l c (Nat.succ_pos n), String.length_utf8EncodeChar,
            Text.beginningBefore, List.foldl_cons]
          exact ih _ _

end Location

/-! ## The index -/

/-- The bytes of a text, and the offsets at which its lines start. -/
structure LineIndex where
  bytes : List UInt8
  starts : List Nat

namespace LineIndex

/-- The offsets behind the line feeds among some bytes, the first of which stands at `n`. -/
def startsBehind (n : Nat) : List UInt8 → List Nat
  | [] => []
  | b :: bs => if b = 10 then (n + 1) :: startsBehind (n + 1) bs else startsBehind (n + 1) bs

/-- The index of a text. -/
def ofText (t : Text) : LineIndex :=
  ⟨t.bytes, 0 :: startsBehind 0 t.bytes⟩

/-- The location that is looked up for an offset. Offsets past the end are at the end. -/
def locate (x : LineIndex) (offset : Nat) : Location :=
  let offset := min offset x.bytes.length
  let line := (x.starts.takeWhile (· ≤ offset)).length - 1
  let start := x.starts.getD line 0
  ⟨UInt32.ofNat line + 1, UInt32.ofNat (((x.bytes.take offset).drop start).countP beginsCharacter) + 1⟩

theorem startsBehind_concat (n : Nat) (bs : List UInt8) (b : UInt8) :
    startsBehind n (bs ++ [b]) =
      startsBehind n bs ++ if b = 10 then [n + bs.length + 1] else [] := by
  induction bs generalizing n with
  | nil => rfl
  | cons a bs ih =>
      rw [List.cons_append, startsBehind, startsBehind, ih, List.length_cons,
        Nat.add_right_comm n 1, Nat.add_assoc n]
      split <;> rfl

/-- The lines that start by an offset are those behind the line feeds in front of it. -/
theorem takeWhile_startsBehind (n offset : Nat) (bs : List UInt8) :
    (startsBehind n bs).takeWhile (· ≤ offset) = startsBehind n (bs.take (offset - n)) := by
  induction bs generalizing n with
  | nil => rw [List.take_nil]; rfl
  | cons b bs ih =>
      rcases Nat.lt_or_ge n offset with hlt | hge
      · obtain ⟨k, hk⟩ : ∃ k, offset - n = k + 1 := ⟨offset - n - 1, by omega⟩
        have hrest : offset - (n + 1) = k := by omega
        rw [hk, List.take_succ_cons, startsBehind, startsBehind]
        split
        · rw [List.takeWhile_cons_of_pos (by simpa using Nat.succ_le_of_lt hlt), ih, hrest]
        · rw [ih, hrest]
      · have hzero : offset - n = 0 := by omega
        have hnext : offset - (n + 1) = 0 := by omega
        have hlater := ih (n + 1)
        rw [hnext, List.take_zero] at hlater
        rw [hzero, List.take_zero, startsBehind.eq_2]
        split
        · exact List.takeWhile_cons_of_neg (by simpa using Nat.lt_succ_of_le hge)
        · exact hlater

/-- The start of the last line of some bytes. -/
def lastStart (bs : List UInt8) : Nat :=
  (startsBehind 0 bs).getLast?.getD 0

/-- The location behind some bytes. -/
def behind (bs : List UInt8) : Location :=
  ⟨UInt32.ofNat (startsBehind 0 bs).length + 1,
    UInt32.ofNat ((bs.drop (lastStart bs)).countP beginsCharacter) + 1⟩

/-- What is looked up is the location behind the bytes in front of the offset. -/
theorem locate_ofText_eq_behind (t : Text) (n : Nat) :
    (ofText t).locate n = behind (t.bytes.take n) := by
  have htake : t.bytes.take (min n t.bytes.length) = t.bytes.take n := by
    rw [← List.take_take, List.take_length]
  have hstarts : (0 :: startsBehind 0 t.bytes).takeWhile (· ≤ min n t.bytes.length) =
      0 :: startsBehind 0 (t.bytes.take n) := by
    rw [List.takeWhile_cons_of_pos (by simp), takeWhile_startsBehind,
      Nat.sub_zero, htake]
  have hstart : (0 :: startsBehind 0 t.bytes).getD (startsBehind 0 (t.bytes.take n)).length 0 =
      lastStart (t.bytes.take n) := by
    obtain ⟨more, hmore⟩ := List.takeWhile_prefix (l := 0 :: startsBehind 0 t.bytes)
      (fun x : Nat => decide (x ≤ min n t.bytes.length))
    rw [hstarts] at hmore
    rw [← hmore, List.getD_eq_getElem?_getD, List.getElem?_append_left (by simp), lastStart]
    cases startsBehind 0 (t.bytes.take n) using List.reverseRecOn with
    | nil => rfl
    | append_singleton l a => simp
  rw [locate, behind, ofText]
  simp only [hstarts, List.length_cons, Nat.add_sub_cancel, hstart, htake]

/-- A line starts within the bytes, or behind the last of them. -/
theorem lastStart_le (bs : List UInt8) : lastStart bs ≤ bs.length := by
  induction bs using List.reverseRecOn with
  | nil => exact Nat.le_refl 0
  | append_singleton bs b ih =>
      rw [lastStart, startsBehind_concat, List.length_append]
      split
      · simp
      · rw [List.append_nil]
        exact Nat.le_succ_of_le ih

theorem behind_concat (bs : List UInt8) (b : UInt8) :
    behind (bs ++ [b]) = (behind bs).nextByte b := by
  rw [Location.nextByte]
  split
  · next hfeed =>
      -- the new line is empty
      have hstart : lastStart (bs ++ [b]) = (bs ++ [b]).length := by
        rw [lastStart, startsBehind_concat, if_pos hfeed]
        simp
      rw [behind, hstart, List.drop_length, startsBehind_concat, if_pos hfeed, List.length_append,
        UInt32.ofNat_add]
      rfl
  · next hfeed =>
      have hstarts : startsBehind 0 (bs ++ [b]) = startsBehind 0 bs := by
        rw [startsBehind_concat, if_neg hfeed, List.append_nil]
      have hstart : lastStart (bs ++ [b]) = lastStart bs := by
        rw [lastStart, hstarts]
        rfl
      rw [behind, hstart, hstarts, List.drop_append_of_le_length (lastStart_le bs), List.countP_append,
        List.countP_singleton, UInt32.ofNat_add]
      split
      · rfl
      · simp [behind]

theorem behind_eq_foldl (bs : List UInt8) : behind bs = bs.foldl Location.nextByte ⟨1, 1⟩ := by
  induction bs using List.reverseRecOn with
  | nil => rfl
  | append_singleton bs b ih =>
      rw [behind_concat, ih, List.foldl_append]
      rfl

/-- **What is looked up is the location.** -/
theorem locate_ofText (t : Text) (n : Nat) : (ofText t).locate n = Location.locate t n := by
  rw [locate_ofText_eq_behind, behind_eq_foldl, Location.foldl_nextByte_bytes, Location.locate,
    ← List.nil_append (Text.beginningBefore n t), Location.after_append]
  rfl

end LineIndex

end ScriptSurvey
