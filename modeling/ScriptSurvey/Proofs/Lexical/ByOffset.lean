import Mathlib.Algebra.Group.Int.Defs
import Mathlib.Algebra.Group.Nat.Defs
import ScriptSurvey.Proofs.Lexical.Cropped
import ScriptSurvey.Proofs.Lexical.Depth
import ScriptSurvey.Proofs.Lexical.Offsets
import ScriptSurvey.Proofs.Lexical.Paired
import ScriptSurvey.Proofs.Lexical.Segments

/-!
# Walks by offset

The walks over nested runs take their pieces from a list, where nothing can go wrong. Here they are made
again **over the bytes of a text**: they keep offsets, look at what stands there and in front, and cut the
text at offsets that they have come by or have worked out from others. Each cut is checked. It is refused
when its ends are not in order, when one is past the end, and when one is inside a character; and a walk
that makes such a cut comes to nothing.

The brackets that are open are counted in a number of the machine. What it makes of a number that it is to
keep is left open here, in `count`: nothing for a machine without bounds, and for words of 32 bits a number
that has wrapped around.

No walk makes a cut that is refused: each comes to what the walk over runs does, for every text that is no
deeper than the machine can count. Words of 32 bits are enough for all texts of fewer than `2 ^ 31` bytes,
and of fewer than `2 ^ 32` bytes if what is opened in them is closed.
-/

namespace ScriptSurvey

open Run Nesting Cursor

/-- What a run adds to the number of brackets that are open. -/
def Shift.delta : Shift → Int
  | opens => 1
  | closes => -1
  | stays => 0

namespace ByOffset

/-! ## Counting -/

/-- The number that a signed word of 32 bits holds when it is to keep `n`. -/
def int32 (n : Int) : Int :=
  (Int32.ofInt n).toInt

/-- Whether the numbers up to `m` are kept as they are, and the one below zero. -/
def Keeps (count : Int → Int) (m : Nat) : Prop :=
  ∀ n : Int, -1 ≤ n → n ≤ m → count n = n

theorem keeps_id (m : Nat) : Keeps id m :=
  fun _ _ _ => rfl

theorem keeps_int32 {m : Nat} (h : m < 2 ^ 31) : Keeps int32 m :=
  fun _ hlow hhigh => Int32.toInt_ofInt_of_le (by omega) (by omega)

theorem Keeps.mono {count : Int → Int} {m k : Nat} (h : Keeps count m) (hk : k ≤ m) : Keeps count k :=
  fun n hlow hhigh => h n hlow (by omega)

-- one more than the largest number that a word holds
example : int32 (2 ^ 31 - 1) = 2 ^ 31 - 1 ∧ int32 (2 ^ 31) = -2 ^ 31 := by
  decide

/-! ## Looking and cutting -/

/-- The text between two offsets; `none` when they are not in order, when one is past the end, and when
one is inside a character. -/
def between? (t : Text) (a b : Nat) : Option Text :=
  if a ≤ b then (Span.mk a b).slice? t else none

/-- The character at an offset. -/
def charAt? (t : Text) (n : Nat) : Option Char :=
  (Text.cutAt? n t).bind fun p => p.2.head?

/-- What the character at an offset does to the nesting, given what stands in front of it. -/
def shiftAt? (t : Text) (n : Nat) : Option Shift :=
  (Text.cutAt? n t).bind fun p => p.2.head?.map fun c => (code c).shift (p.1.getLast? == some '=')

/-- The offsets that a scan from the cursor on finds code at. -/
def codeAhead (c : Cursor) : List Nat :=
  (c.scan.1.filter fun step => step.2.mode.isCode).map fun step => step.1.start

theorem between?_eq {t x y z : Text} {a b : Nat} (ht : t = x ++ (y ++ z)) (ha : a = Text.size x)
    (hb : b = Text.size x + Text.size y) : between? t a b = some y := by
  rw [ht, ha, hb, between?, if_pos (Nat.le_add_right _ _)]
  exact Span.slice?_append x y z

-- refused: an end inside a character, one past the end, and ends that are not in order
example : between? ['a', 'é'] 0 2 = none ∧ between? ['a', 'é'] 1 4 = none ∧
    between? ['a', 'é'] 1 0 = none := by
  decide

section Runs

variable {t : Text} {a b rs : List Run} {c : Char}

theorem eq_join_append (h : runs t = a ++ rs) : t = join a ++ join rs := by
  rw [← join_runs t, h, join_append]

theorem charAt?_eq (h : runs t = a ++ code c :: rs) : charAt? t (Text.size (join a)) = some c := by
  rw [charAt?, eq_join_append h, Text.cutAt?_append]
  rfl

theorem between?_runs {p : List Run} (h : runs t = a ++ (p ++ rs)) :
    between? t (Text.size (join a)) (Text.size (join (a ++ p))) = some (join p) := by
  refine between?_eq (z := join rs) ?_ rfl ?_
  · rw [eq_join_append h, join_append]
  · rw [join_append, Text.size_append]

theorem between?_from (h : runs t = a ++ rs) :
    between? t (Text.size (join a)) (Text.size t) = some (join rs) := by
  refine between?_eq (z := []) ?_ rfl ?_
  · rw [List.append_nil]
    exact eq_join_append h
  · conv => lhs; rw [eq_join_append h]
    exact Text.size_append _ _

theorem between?_upTo (h : runs t = a ++ rs) :
    between? t 0 (Text.size (join a)) = some (join a) :=
  between?_eq (x := []) (eq_join_append h) rfl (Nat.zero_add _).symm

/-- The character in front of a `>` is `=` exactly if it is code. -/
theorem getLast?_eq_equals_iff (h : runs t = a ++ code '>' :: rs) :
    ((join a).getLast? == some '=') = (outermost.after a).afterEquals := by
  rcases List.eq_nil_or_concat a with rfl | ⟨q, r, rfl⟩
  · rfl
  · rw [List.concat_eq_append] at h ⊢
    have hpair : Stable (r :: code '>' :: rs) := by
      have hstable := Run.stable_runs t
      rw [h, List.append_assoc] at hstable
      exact hstable.of_append_right
    have hlast : (join (q ++ [r])).getLast? = some r.terminator := by
      rw [join_append, join_cons, join_nil, List.append_nil, List.getLast?_append,
        getLast?_text hpair (by decide)]
      rfl
    rw [hlast, after_append]
    show (some r.terminator == some '=') = r.isChar '='
    rw [isChar, Bool.eq_iff_iff, beq_iff_eq, beq_iff_eq, Option.some_inj]
    constructor
    · intro hr
      rw [← hr]
      refine eq_code_of_isPlain ?_
      rw [hr]
      decide
    · intro hr
      rw [hr]
      rfl

theorem shift_of_ne {r : Run} (h : r ≠ code '>') (e e' : Bool) : r.shift e = r.shift e' := by
  unfold shift
  split <;> first | rfl | exact absurd rfl h

/-- The character at an offset of code does what the run does. -/
theorem shiftAt?_eq (h : runs t = a ++ code c :: rs) :
    shiftAt? t (Text.size (join a)) = some ((code c).shift (outermost.after a).afterEquals) := by
  have ht : t = join a ++ c :: join rs := eq_join_append h
  rw [shiftAt?, ht, Text.cutAt?_append]
  show some ((code c).shift ((join a).getLast? == some '=')) = _
  by_cases hc : c = '>'
  · rw [hc] at h
    rw [getLast?_eq_equals_iff h]
  · rw [shift_of_ne fun hr => hc (Run.code.inj hr)]

theorem codeAhead_place (h : runs t = a ++ rs) :
    codeAhead (place t (Text.size (join a))) = codeOffsets (Text.size (join a)) rs := by
  have hstable := Run.stable_runs t
  rw [h] at hstable
  rw [codeAhead, codeOffsets_scan, place_of_runs h, hstable.of_append_right, Cursor.offset, Text.size_reverse]

theorem codeAhead_ofText (t : Text) : codeAhead (ofText t) = codeOffsets 0 (runs t) :=
  codeOffsets_scan (ofText t)

theorem codeOffsets_cons_code (n : Nat) (c : Char) (rs : List Run) :
    codeOffsets n (code c :: rs) = n :: codeOffsets (n + Text.size (Run.text (code c))) rs := rfl

theorem codeOffsets_cons_of_not {r : Run} (h : r.mode.isCode = false) (n : Nat) (rs : List Run) :
    codeOffsets n (r :: rs) = codeOffsets (n + Text.size r.text) rs := by
  rw [codeOffsets, h]
  rfl

theorem size_join_concat (a : List Run) (r : Run) :
    Text.size (join (a ++ [r])) = Text.size (join a) + Text.size r.text := by
  rw [join_append, Text.size_append, join_cons, join_nil, List.append_nil]

end Runs

/-! ## Trimming -/

/-- Walk over the steps of a scan, with the offsets at which what is left begins, once there is some, and
ends. -/
def trimFrom? (t : Text) (start : Option Nat) (stop : Nat) : List (Span × Run) → Option Text
  | [] =>
    match start with
    | none => some []
    | some a => between? t a stop
  | (s, r) :: steps =>
    (between? t s.start s.stop).bind fun piece =>
      if r.mode.isComment || (r.mode.isCode && piece.all Text.isWhiteSpace) then
        trimFrom? t start stop steps
      else trimFrom? t (some (start.getD s.start)) s.stop steps

/-- The text without trivia at both ends. -/
def trimmed? (t : Text) : Option Text :=
  trimFrom? t none 0 (ofText t).scan.1

section Trim

variable {t : Text} {a rs : List Run} {r : Run}

theorem isTrivia_eq (r : Run) :
    (r.mode.isComment || (r.mode.isCode && r.text.all Text.isWhiteSpace)) = r.isTrivia := by
  cases r with
  | code c => simp [Run.mode, Mode.isComment, Mode.isCode, Run.text, isTrivia]
  | comment kind text => rfl
  | literal kind text => rfl

/-- One step of the walk. -/
theorem trimFrom?_cons (h : runs t = a ++ r :: rs) (start : Option Nat) (stop : Nat) :
    trimFrom? t start stop (placed (Text.size (join a)) (r :: rs)) =
      if r.isTrivia then trimFrom? t start stop (placed (Text.size (join (a ++ [r]))) rs)
      else trimFrom? t (some (start.getD (Text.size (join a)))) (Text.size (join (a ++ [r])))
        (placed (Text.size (join (a ++ [r]))) rs) := by
  have hpiece : between? t (Text.size (join a)) (Text.size (join a) + Text.size r.text) = some r.text := by
    have := between?_runs (p := [r]) h
    rwa [size_join_concat, join_cons, join_nil, List.append_nil] at this
  rw [placed, trimFrom?, hpiece, Option.bind_some, isTrivia_eq, size_join_concat]

/-- Once something is left, what stands behind it is, up to the last run that is no trivia. -/
theorem trimFrom?_some {front last trivia : List Run} (h : runs t = front ++ (last ++ (trivia ++ rs)))
    (hlast : ∀ r, last.getLast? = some r → r.isTrivia = false) (htrivia : ∀ r ∈ trivia, r.isTrivia = true) :
    trimFrom? t (some (Text.size (join front))) (Text.size (join (front ++ last)))
        (placed (Text.size (join (front ++ (last ++ trivia)))) rs) =
      some (join (Text.dropWhileEnd isTrivia (last ++ (trivia ++ rs)))) := by
  -- on the runs ahead: trivia joins what is put off, and anything else takes that into what is kept
  induction rs generalizing last trivia with
  | nil =>
      have hdrop : Text.dropWhileEnd isTrivia (last ++ trivia) = last := by
        rw [Text.dropWhileEnd, List.reverse_append,
          List.dropWhile_append_of_pos fun r hr => htrivia r (List.mem_reverse.mp hr)]
        exact Text.dropWhileEnd_of_getLast? hlast
      rw [List.append_nil, hdrop]
      exact between?_runs h
  | cons r rs ih =>
      have hruns : runs t = (front ++ (last ++ trivia)) ++ r :: rs := by
        rw [h]
        simp
      rw [trimFrom?_cons hruns]
      split
      · next hr =>
          have hmore : ∀ s ∈ trivia ++ [r], s.isTrivia = true := by
            intro s hs
            rcases List.mem_append.mp hs with hs | hs
            · exact htrivia s hs
            · rwa [List.mem_singleton.mp hs]
          have := ih (by rw [h]; simp) hlast hmore
          simpa using this
      · next hr =>
          have hmore : ∀ s, (last ++ (trivia ++ [r])).getLast? = some s → s.isTrivia = false := by
            intro s hs
            rw [← List.append_assoc, List.getLast?_concat] at hs
            rw [← Option.some.inj hs]
            simpa using hr
          have := ih (by rw [h]; simp) hmore fun s hs => absurd hs List.not_mem_nil
          simpa using this

theorem trimFrom?_none (h : runs t = a ++ rs) (ha : ∀ r ∈ a, r.isTrivia = true) (stop : Nat) :
    trimFrom? t none stop (placed (Text.size (join a)) rs) = some (join (trim rs)) := by
  -- trivia in front is passed; the first run that is none starts the piece
  induction rs generalizing a stop with
  | nil => rfl
  | cons r rs ih =>
      rw [trimFrom?_cons h]
      split
      · next hr =>
          have htrim : trim (r :: rs) = trim rs := by rw [trim, List.dropWhile_cons_of_pos hr, trim]
          rw [htrim]
          refine ih (by rw [h]; simp) (fun s hs => ?_) stop
          rcases List.mem_append.mp hs with hs | hs
          · exact ha s hs
          · rwa [List.mem_singleton.mp hs]
      · next hr =>
          have htrim : trim (r :: rs) = Text.dropWhileEnd isTrivia ([r] ++ ([] ++ rs)) := by
            rw [trim, List.dropWhile_cons_of_neg hr]
            rfl
          rw [htrim]
          have hlast : ∀ s, [r].getLast? = some s → s.isTrivia = false := by
            intro s hs
            rw [← Option.some.inj hs]
            simpa using hr
          exact trimFrom?_some h hlast fun s hs => absurd hs List.not_mem_nil

end Trim

/-- **Trimming by offset** makes no cut that is refused. -/
theorem trimmed?_eq (t : Text) : trimmed? t = some (trimTrivia t) := by
  rw [trimmed?, scan_ofText]
  exact trimFrom?_none (a := []) rfl (fun r hr => absurd hr List.not_mem_nil) 0

/-! ## The depth -/

section Depth

theorem after_concat (n : Nesting) (a : List Run) (r : Run) : n.after (a ++ [r]) = (n.after a).behind r := by
  rw [after_append]
  rfl

/-- The depth goes with the brackets, and stops at zero. -/
theorem depth_behind (n : Nesting) (r : Run) :
    ((n.behind r).depth : Int) = max (n.depth + (r.shift n.afterEquals).delta) 0 := by
  rw [behind]
  cases r.shift n.afterEquals with
  | opens =>
      show ((n.depth + 1 : Nat) : Int) = max ((n.depth : Int) + 1) 0
      omega
  | closes =>
      show ((n.depth - 1 : Nat) : Int) = max ((n.depth : Int) + -1) 0
      omega
  | stays =>
      show (n.depth : Int) = max ((n.depth : Int) + 0) 0
      omega

/-- A run that is no closing bracket for the first one changes the count of those that are open with it. -/
theorem add_delta_of_within {s : Shift} {d k : Nat} (h : s.within d = some k) :
    (d : Int) + 1 + s.delta = k + 1 := by
  cases s with
  | opens =>
      obtain rfl := Option.some.inj h
      rfl
  | stays =>
      obtain rfl := Option.some.inj h
      exact Int.add_zero _
  | closes =>
      rw [Shift.within] at h
      split at h
      · exact absurd h (by simp)
      · obtain rfl := Option.some.inj h
        show (d : Int) + 1 + -1 = _
        omega

/-- A count that is kept stops at zero as the depth does. -/
theorem max_count_eq {count : Int → Int} {m : Nat} (hcount : Keeps count m) {n : Nesting} {r : Run}
    (h : (n.behind r).depth ≤ m) :
    max (count (n.depth + (r.shift n.afterEquals).delta)) 0 = ((n.behind r).depth : Int) := by
  have hdepth := depth_behind n r
  have hdelta : -1 ≤ (r.shift n.afterEquals).delta := by
    cases r.shift n.afterEquals <;> decide
  rw [hcount _ (by omega) (by omega), hdepth]

theorem ne_code_of_not_code {r : Run} (h : r.mode.isCode = false) (c : Char) : r ≠ code c := by
  rintro rfl
  exact Bool.noConfusion h

theorem isChar_of_not_code {r : Run} (h : r.mode.isCode = false) (c : Char) :
    r.isChar c = false :=
  beq_eq_false_iff_ne.mpr (ne_code_of_not_code h c)

theorem depth_behind_of_not_code {r : Run} (h : r.mode.isCode = false) (n : Nesting) :
    (n.behind r).depth = n.depth := by
  rw [behind, shift_of_not_code h]

end Depth

/-! ## Splitting at commas -/

/-- The piece between two offsets without trivia at its ends, or nothing if nothing is left of it. -/
def segment? (t : Text) (a b : Nat) : Option (List Text) :=
  (between? t a b).bind fun piece =>
    (trimmed? piece).map fun segment => if segment.isEmpty then [] else [segment]

/-- Walk over offsets of code, with the one at which the piece begins that the walk is in. -/
def splitFrom? (count : Int → Int) (t : Text) (depth : Int) (start : Nat) : List Nat → Option (List Text)
  | [] => segment? t start (Text.size t)
  | p :: ps =>
    (charAt? t p).bind fun c =>
      if c = ',' ∧ depth = 0 then
        (segment? t start p).bind fun segment =>
          (splitFrom? count t depth (p + 1) ps).map fun others => segment ++ others
      else (shiftAt? t p).bind fun s => splitFrom? count t (max (count (depth + s.delta)) 0) start ps

/-- The pieces between the outermost commas. -/
def split? (count : Int → Int) (t : Text) : Option (List Text) :=
  splitFrom? count t 0 0 (codeAhead (ofText t))

section Split

variable {count : Int → Int} {m : Nat} {t : Text} {front piece rs : List Run}

theorem join_eq_nil_iff {p : List Run} (h : p <:+: runs t) : join p = [] ↔ p = [] := by
  cases p with
  | nil => exact iff_of_true rfl rfl
  | cons r p =>
      have hne := text_ne_nil_of_mem_runs (h.subset List.mem_cons_self)
      exact iff_of_false (fun hnil => hne (List.append_eq_nil_iff.mp hnil).1) (List.cons_ne_nil r p)

theorem segments_cons_eq_append (p : List Run) (ps : List (List Run)) :
    segments (p :: ps) = segments [p] ++ segments ps := by
  rw [segments_cons, segments_cons]
  split <;> rfl

theorem segment?_eq (h : runs t = front ++ (piece ++ rs)) :
    segment? t (Text.size (join front)) (Text.size (join (front ++ piece))) =
      some ((segments [piece]).map join) := by
  have hpart : piece <:+: runs t := ⟨front, rs, by rw [h, List.append_assoc]⟩
  have hagain : runs (join piece) = piece := (Run.stable_runs t).of_isInfix hpart
  have htrim : trimTrivia (join piece) = join (trim piece) := by rw [trimTrivia, hagain]
  rw [segment?, between?_runs h, Option.bind_some, trimmed?_eq, Option.map_some, htrim, segments_cons]
  have hnil := join_eq_nil_iff ((isInfix_trim piece).trans hpart)
  by_cases hp : trim piece = []
  · rw [if_pos hp, hnil.mpr hp]
    rfl
  · rw [if_neg hp, if_neg fun he => hp (hnil.mp (List.isEmpty_iff.mp he))]
    rfl

/-- The piece that the walk is in goes on up to the next comma. -/
theorem splitFrom?_eq (hcount : Keeps count m) (h : runs t = front ++ (piece ++ rs)) {n : Nesting}
    (hn : n = outermost.after (front ++ piece)) (hdeep : n.deepest rs ≤ m) {q : List Run}
    {qs : List (List Run)} (hq : n.pieces rs = q :: qs) :
    splitFrom? count t n.depth (Text.size (join front))
        (codeOffsets (Text.size (join (front ++ piece))) rs) =
      some ((segments ((piece ++ q) :: qs)).map join) := by
  -- on the runs ahead, with those of the piece so far in `piece`: a comma at depth zero closes it
  induction rs generalizing front piece n q qs with
  | nil =>
      obtain ⟨rfl, rfl⟩ := List.cons.inj hq
      have hsize : Text.size t = Text.size (join (front ++ piece)) := by
        conv => lhs; rw [← join_runs t, h]
        rw [List.append_nil]
      rw [codeOffsets, splitFrom?, hsize, segment?_eq h, List.append_nil]
  | cons r rs ih =>
      have hruns : runs t = (front ++ piece) ++ r :: rs := by rw [h, List.append_assoc]
      have hbehind : n.behind r = outermost.after (front ++ (piece ++ [r])) := by
        rw [hn, ← after_concat, List.append_assoc]
      have hdeeper := (deepest_behind_le n r rs).trans hdeep
      obtain ⟨x, xs, hx⟩ := List.exists_cons_of_ne_nil (pieces_ne_nil (n.behind r) rs)
      have hgoes (hcomma : ¬(n.depth = 0 ∧ r.isChar ',' = true)) :
          splitFrom? count t (n.behind r).depth (Text.size (join front))
              (codeOffsets (Text.size (join (front ++ piece)) + Text.size r.text) rs) =
            some ((segments ((piece ++ q) :: qs)).map join) := by
        rw [pieces, if_neg hcomma, hx] at hq
        obtain ⟨rfl, rfl⟩ := List.cons.inj hq
        have := ih (by rw [h]; simp) hbehind hdeeper hx
        rwa [← List.append_assoc, size_join_concat, List.append_assoc] at this
      cases hcode : r.mode.isCode with
      | false =>
          rw [codeOffsets_cons_of_not hcode, ← depth_behind_of_not_code hcode n]
          exact hgoes fun hcomma => by simp [isChar_of_not_code hcode] at hcomma
      | true =>
          obtain ⟨c, rfl⟩ := exists_eq_code hcode
          rw [codeOffsets_cons_code, splitFrom?, charAt?_eq hruns, Option.bind_some]
          by_cases hcomma : c = ',' ∧ (n.depth : Int) = 0
          · obtain ⟨rfl, hzero⟩ := hcomma
            rw [pieces, if_pos ⟨by omega, rfl⟩, hx] at hq
            obtain ⟨rfl, rfl⟩ := List.cons.inj hq
            have hdepth : (n.behind (code ',')).depth = n.depth := by rw [behind_of_isFlat rfl]
            have hsize : Text.size (join (front ++ piece)) + 1 =
                Text.size (join ((front ++ piece) ++ [code ','])) := by
              rw [size_join_concat]
              rfl
            have hnext : n.behind (code ',') = outermost.after (((front ++ piece) ++ [code ',']) ++ []) := by
              rw [hbehind]
              simp
            have := ih (by rw [h]; simp) hnext hdeeper hx
            rw [hdepth, List.append_nil, List.nil_append] at this
            rw [if_pos ⟨rfl, hzero⟩, segment?_eq h, Option.bind_some, hsize, ← size_join_concat, this,
              List.append_nil, segments_cons_eq_append piece (x :: xs), List.map_append]
            rfl
          · rw [if_neg hcomma, shiftAt?_eq hruns, Option.bind_some, ← hn,
              max_count_eq hcount ((depth_le_deepest _ rs).trans hdeeper)]
            refine hgoes fun hpiece => hcomma ⟨?_, by omega⟩
            simpa [isChar] using hpiece.2

/-- **Splitting at commas by offset** makes no cut that is refused. -/
theorem split?_eq (hcount : Keeps count t.depth) : split? count t = some (splitAtCommas t) := by
  obtain ⟨q, qs, hq⟩ := List.exists_cons_of_ne_nil (pieces_ne_nil outermost (runs t))
  have hruns : runs t = [] ++ ([] ++ runs t) := rfl
  have := splitFrom?_eq hcount hruns rfl (Nat.le_refl _) hq
  rw [split?, codeAhead_ofText, splitAtCommas, Run.splitAtCommas, hq]
  exact this

end Split

/-! ## The partner of a bracket -/

/-- The offset of a cut that is made behind some runs. -/
def cutOffset (a : List Run) (p : List Run × List Run) : Nat :=
  Text.size (join a) + Text.size (join p.1)

theorem map_cutOffset_cons (a : List Run) (r : Run) (cut : Option (List Run × List Run)) :
    (cut.map fun p => (r :: p.1, p.2)).map (cutOffset a) = cut.map (cutOffset (a ++ [r])) := by
  rw [Option.map_map]
  refine congrArg (Option.map · cut) (funext fun p => ?_)
  show Text.size (join a) + Text.size (r.text ++ join p.1) = _
  rw [cutOffset, size_join_concat, Text.size_append, Nat.add_assoc]

/-- Walk over offsets of code up to the one at which no bracket is open any more; the inner `none` when
there is no such offset. -/
def closeFrom? (count : Int → Int) (t : Text) (depth : Int) : List Nat → Option (Option Nat)
  | [] => some none
  | p :: ps =>
    (shiftAt? t p).bind fun s =>
      if count (depth + s.delta) ≤ 0 then some (some p) else closeFrom? count t (count (depth + s.delta)) ps

/-- The offset of the bracket that closes the one at an offset; the inner `none` when there is none. -/
def closing? (count : Int → Int) (t : Text) (n : Nat) : Option (Option Nat) :=
  match charAt? t n with
  | none => some none
  | some c =>
    if isOpeningBracket c then closeFrom? count t 0 (codeAhead (place t n)) else some none

section Close

variable {count : Int → Int} {m : Nat} {t : Text} {a rs : List Run}

/-- A run that does not close the bracket is passed, if the count behind it is kept. -/
theorem closeFrom?_cons {r : Run} (h : runs t = a ++ r :: rs) {d k : Nat} {e : Bool}
    (he : e = (outermost.after a).afterEquals) (hwithin : (r.shift e).within d = some k)
    (hkept : count (k + 1) = k + 1) :
    closeFrom? count t (d + 1) (codeOffsets (Text.size (join a)) (r :: rs)) =
      closeFrom? count t (k + 1) (codeOffsets (Text.size (join (a ++ [r]))) rs) := by
  rw [size_join_concat]
  cases hcode : r.mode.isCode with
  | false =>
      rw [shift_of_not_code hcode] at hwithin
      obtain rfl := Option.some.inj hwithin
      rw [codeOffsets_cons_of_not hcode]
  | true =>
      obtain ⟨c, rfl⟩ := exists_eq_code hcode
      rw [codeOffsets_cons_code, closeFrom?, shiftAt?_eq h, ← he, Option.bind_some,
        add_delta_of_within hwithin, hkept, if_neg (by omega)]

/-- A run that closes the bracket is found. -/
theorem closeFrom?_cons_of_none {r : Run} (h : runs t = a ++ r :: rs) {d : Nat} {e : Bool}
    (he : e = (outermost.after a).afterEquals) (hwithin : (r.shift e).within d = none)
    (hzero : count 0 = 0) :
    closeFrom? count t (d + 1) (codeOffsets (Text.size (join a)) (r :: rs)) =
      some (some (Text.size (join a))) := by
  have hcloses : r.shift e = .closes ∧ d = 0 := by
    cases hshift : r.shift e with
    | opens => exact absurd hwithin (by simp [hshift, Shift.within])
    | stays => exact absurd hwithin (by simp [hshift, Shift.within])
    | closes => exact ⟨rfl, by simpa [hshift, Shift.within] using hwithin⟩
  obtain ⟨hshift, rfl⟩ := hcloses
  cases hcode : r.mode.isCode with
  | false =>
      rw [shift_of_not_code hcode] at hshift
      exact absurd hshift (by simp)
  | true =>
      obtain ⟨c, rfl⟩ := exists_eq_code hcode
      have hstep : count (((0 : Nat) : Int) + 1 + Shift.closes.delta) = 0 := hzero
      rw [codeOffsets_cons_code, closeFrom?, shiftAt?_eq h, ← he, hshift, Option.bind_some, hstep,
        if_pos (by decide)]

theorem closeFrom?_eq (hcount : Keeps count m) (h : runs t = a ++ rs)
    (hdeep : (outermost.after a).deepest rs ≤ m) {d : Nat} (hd : d + 1 ≤ (outermost.after a).depth)
    {e : Bool} (he : e = (outermost.after a).afterEquals) :
    closeFrom? count t (d + 1) (codeOffsets (Text.size (join a)) rs) =
      some ((Run.enclosedFrom d e rs).map (cutOffset a)) := by
  -- on the runs ahead: the count by offset stays one above the depth of the search over runs, and is no
  -- higher than the depth in the text
  induction rs generalizing a d e with
  | nil => rfl
  | cons r rs ih =>
      have hhere : (outermost.after a).depth ≤ m := (depth_le_deepest _ _).trans hdeep
      rw [Run.enclosedFrom]
      cases hwithin : (r.shift e).within d with
      | some k =>
          have hruns : runs t = (a ++ [r]) ++ rs := by rw [h, List.append_assoc, List.singleton_append]
          have hnext : r.isChar '=' = (outermost.after (a ++ [r])).afterEquals := by
            rw [after_concat]
            rfl
          have hdeeper : (outermost.after (a ++ [r])).deepest rs ≤ m := by
            rw [after_concat]
            exact (deepest_behind_le _ r rs).trans hdeep
          have hopen : k + 1 ≤ (outermost.after (a ++ [r])).depth := by
            have hdelta := add_delta_of_within hwithin
            have hdepth := depth_behind (outermost.after a) r
            rw [← he] at hdepth
            rw [after_concat]
            omega
          have hkept : count (k + 1) = k + 1 := by
            have hle := (depth_le_deepest _ rs).trans hdeeper
            exact hcount _ (by omega) (by omega)
          rw [closeFrom?_cons h he hwithin hkept, ih hruns hdeeper hopen hnext, ← map_cutOffset_cons]
      | none =>
          rw [closeFrom?_cons_of_none h he hwithin (hcount 0 (by decide) (by omega))]
          rfl

/-- From a bracket that is code, one is open, if one can be counted. -/
theorem closing?_eq_closeFrom? (hone : count 1 = 1) {x : Char} (h : runs t = a ++ code x :: rs)
    (hx : isOpeningBracket x = true) :
    closing? count t (Text.size (join a)) =
      closeFrom? count t 1 (codeOffsets (Text.size (join (a ++ [code x]))) rs) := by
  have hstep : count (0 + Shift.opens.delta) = 1 := hone
  rw [closing?, charAt?_eq h]
  show (if isOpeningBracket x = true then _ else _) = _
  rw [if_pos hx, codeAhead_place h, codeOffsets_cons_code, closeFrom?, shiftAt?_eq h,
    shift_of_isOpeningBracket hx, Option.bind_some, ← size_join_concat, hstep, if_neg (by decide)]

/-- **The search for a closing bracket by offset** makes no cut that is refused, from each bracket that is
code. -/
theorem closing?_eq (hcount : Keeps count t.depth) {x : Char} (h : runs t = a ++ code x :: rs)
    (hx : isOpeningBracket x = true) :
    closing? count t (Text.size (join a)) = some (closingOffset t (Text.size (join a))) := by
  have hruns : runs t = (a ++ [code x]) ++ rs := by rw [h, List.append_assoc, List.singleton_append]
  have hequals : false = (outermost.after (a ++ [code x])).afterEquals := by
    rw [after_concat]
    exact (isChar_of_isOpeningBracket hx).symm
  have hsize : Text.size (join (a ++ [code x])) = Text.size (join a) + 1 := by
    rw [size_join_concat]
    exact congrArg (_ + ·) (utf8Size_of_isOpeningBracket hx)
  have hopen : 0 + 1 ≤ (outermost.after (a ++ [code x])).depth := by
    rw [after_concat, behind, shift_of_isOpeningBracket hx]
    exact Nat.succ_le_succ (Nat.zero_le _)
  have hdeep := Text.depth_after_le hruns
  rw [closing?_eq_closeFrom? (hcount 1 (by decide) (by omega)) h hx, closingOffset_eq h hx, ← hsize]
  exact closeFrom?_eq (d := 0) hcount hruns (Text.deepest_after_le hruns) hopen hequals

end Close

/-! ## Texts in brackets -/

/-- Whether a text begins with a bracket and ends in the one that closes it. -/
def wrapped? (count : Int → Int) (t : Text) (c : Char) : Option Bool :=
  match t with
  | [] => some false
  | x :: _ => if x = c then (closing? count t 0).map (· == some (Text.size t - 1)) else some false

section Wrapped

variable {count : Int → Int} {t : Text} {c : Char}

/-- The bracket that is found is the last byte exactly if no run follows it. -/
theorem size_cons_sub_one_iff {u : Text} {x : Char} {inner after : List Run} (hc : c.utf8Size = 1)
    (hx : x ∈ closers) (h : runs u = inner ++ code x :: after) :
    1 + Text.size (join inner) = Text.size (c :: u) - 1 ↔ after = [] := by
  have hsize : Text.size (c :: u) = 1 + (Text.size (join inner) + (1 + Text.size (join after))) := by
    have hu : u = join inner ++ (x :: join after) := eq_join_append h
    rw [hu, Text.size_cons, Text.size_append, Text.size_cons, hc, utf8Size_of_mem_closers hx]
  have hinfix : after <:+: runs u := by
    rw [h]
    exact ((List.suffix_cons _ _).trans (List.suffix_append _ _)).isInfix
  rw [← join_eq_nil_iff hinfix]
  constructor
  · intro heq
    by_contra hne
    have := Text.size_pos hne
    omega
  · intro hnil
    rw [hsize, hnil, Text.size_nil]
    omega

/-- A text that begins with another character has another first run. -/
theorem head_runs_ne {x : Char} (h : x ≠ c) (u : Text) : (Step.first x u).run ≠ code c := by
  intro hr
  have happend := Step.first_append x u
  rw [hr] at happend
  exact h (List.cons.inj happend).1.symm

theorem wrapped?_eq (hcount : Keeps count t.depth) (hc : isOpeningBracket c = true) :
    wrapped? count t c = some (Run.wrapped c (runs t)).isSome := by
  have hplain := isPlain_of_isOpeningBracket hc
  cases t with
  | nil =>
      rw [runs_nil]
      rfl
  | cons x u =>
      rw [wrapped?]
      by_cases hx : x = c
      · subst hx
        have hruns : runs (x :: u) = [] ++ code x :: runs u := Text.runs_cons_of_isPlain hplain u
        have hclosing : closing? count (x :: u) 0 = some ((enclosed (runs u)).map fun p =>
            0 + 1 + Text.size (join p.1)) :=
          (closing?_eq hcount hruns hc).trans (congrArg some (closingOffset_eq hruns hc))
        rw [if_pos rfl, hclosing, Option.map_some, Text.runs_cons_of_isPlain hplain, Run.wrapped,
          if_pos (by rw [isChar, beq_iff_eq])]
        cases henc : enclosed (runs u) with
        | none => rfl
        | some p =>
            obtain ⟨inner, after⟩ := p
            obtain ⟨z, hz, hsplit⟩ := eq_of_enclosed henc
            have hiff := size_cons_sub_one_iff (utf8Size_of_isOpeningBracket hc) hz hsplit
            refine congrArg some (Bool.eq_iff_iff.mpr ?_)
            rw [Option.map_some, Nat.zero_add, beq_iff_eq, Option.some_inj, hiff]
            cases after with
            | nil => exact iff_of_true rfl rfl
            | cons r after => exact iff_of_false (List.cons_ne_nil r after) Bool.noConfusion
      · rw [if_neg hx, runs_cons, wrapped_of_head (head_runs_ne hx u)]
        rfl

/-- In brackets: what stands between the first byte and the last. -/
theorem between?_of_wrapped {inner : List Run} (hc : isOpeningBracket c = true)
    (h : Run.wrapped c (runs t) = some inner) : between? t 1 (Text.size t - 1) = some (join inner) := by
  have hone := utf8Size_of_isOpeningBracket hc
  obtain ⟨rest, hruns, henc⟩ := eq_of_wrapped h
  obtain ⟨z, hz, rfl⟩ := eq_of_enclosed henc
  have ht : t = [c] ++ (join inner ++ [z]) := by
    rw [← join_runs t, hruns]
    simp [Run.text]
  have hsize : Text.size t = 1 + Text.size (join inner) + 1 := by
    rw [ht, Text.size_append, Text.size_append, Text.size_cons, Text.size_cons, Text.size_nil, hone,
      utf8Size_of_mem_closers hz]
    omega
  refine between?_eq ht ?_ ?_
  · rw [Text.size_cons, Text.size_nil, hone]
  · rw [hsize, Text.size_cons, Text.size_nil, hone]
    exact Nat.add_sub_cancel _ _

end Wrapped

/-! ## Words outside brackets -/

/-- Walk over offsets of code, and keep those outside brackets at which the text goes on with a word. -/
def foundFrom? (count : Int → Int) (word t : Text) (depth : Int) : List Nat → Option (List Nat)
  | [] => some []
  | p :: ps =>
    (between? t p (Text.size t)).bind fun ahead =>
      (shiftAt? t p).bind fun s =>
        (foundFrom? count word t (max (count (depth + s.delta)) 0) ps).map fun others =>
          if depth = 0 ∧ (List.isPrefixOf? word ahead).isSome then p :: others else others

/-- The offsets of code at which a word stands outside brackets. -/
def found? (count : Int → Int) (word t : Text) : Option (List Nat) :=
  foundFrom? count word t 0 (codeAhead (ofText t))

section Found

variable {count : Int → Int} {m : Nat} {word t : Text} {a rs : List Run}

/-- A word of plain characters stands in front of a text exactly if it does so in code. -/
theorem isPrefixOf?_join (hword : ∀ c ∈ word, Text.isPlain c = true) (h : Stable rs) :
    List.isPrefixOf? word (join rs) = (dropCode? word rs).map join := by
  induction word generalizing rs with
  | nil => cases rs <;> rfl
  | cons w word ih =>
      obtain ⟨hw, hword⟩ := List.forall_mem_cons.mp hword
      cases rs with
      | nil => rfl
      | cons r rs =>
          cases hcode : r.mode.isCode with
          | true =>
              obtain ⟨c, rfl⟩ := exists_eq_code hcode
              have hrs : Stable rs := h.of_append_right (p := [code c])
              show List.isPrefixOf? (w :: word) (c :: join rs) = _
              rw [List.isPrefixOf?, dropCode?, ih hword hrs]
              by_cases hc : w = c
              · rw [if_pos (beq_iff_eq.mpr hc), if_pos hc]
              · rw [if_neg (beq_iff_eq.not.mpr hc), if_neg hc]
                rfl
          | false =>
              -- a run that is no code begins with a character that no word holds
              obtain ⟨o, s, htext, ho⟩ := exists_text_eq_cons h hcode
              have hne : w ≠ o := by
                rintro rfl
                rw [hw] at ho
                exact Bool.noConfusion ho
              rw [dropCode?_of_ne (ne_code_of_not_code hcode w), join_cons, htext, List.cons_append,
                List.isPrefixOf?, if_neg (beq_iff_eq.not.mpr hne)]
              rfl

/-- Whether a word stands in front of the runs, outside brackets. -/
def standsAhead? (word : Text) (n : Nesting) (rs : List Run) : Option (List Run) :=
  if n.depth = 0 then dropCode? word rs else none

theorem cutAtFirst_cons (word : Text) (n : Nesting) (r : Run) (rs : List Run) :
    n.cutAtFirst word (r :: rs) = ((standsAhead? word n (r :: rs)).map fun after => ([], after)).or
      (((n.behind r).cutAtFirst word rs).map fun p => (r :: p.1, p.2)) := by
  rw [Nesting.cutAtFirst, ← standsAhead?]
  cases standsAhead? word n (r :: rs) <;> rfl

theorem cutAtLast_cons (word : Text) (n : Nesting) (r : Run) (rs : List Run) :
    n.cutAtLast word (r :: rs) = (((n.behind r).cutAtLast word rs).map fun p => (r :: p.1, p.2)).or
      ((standsAhead? word n (r :: rs)).map fun after => ([], after)) := by
  rw [Nesting.cutAtLast, ← standsAhead?]
  cases (n.behind r).cutAtLast word rs <;> rfl

theorem standsAhead?_of_not_code {n : Nesting} {r : Run} (hne : word ≠ []) (h : r.mode.isCode = false) :
    standsAhead? word n (r :: rs) = none := by
  obtain ⟨w, word, rfl⟩ := List.exists_cons_of_ne_nil hne
  rw [standsAhead?, dropCode?_of_ne (ne_code_of_not_code h w), ite_self]

/-- The first and the last offset that are found are those of the cuts. -/
theorem foundFrom?_eq (hcount : Keeps count m) (hword : ∀ c ∈ word, Text.isPlain c = true)
    (hne : word ≠ []) (h : runs t = a ++ rs) {n : Nesting} (hn : n = outermost.after a)
    (hdeep : n.deepest rs ≤ m) :
    ∃ ps, foundFrom? count word t n.depth (codeOffsets (Text.size (join a)) rs) = some ps ∧
      ps.head? = (n.cutAtFirst word rs).map (cutOffset a) ∧
      ps.getLast? = (n.cutAtLast word rs).map (cutOffset a) := by
  -- on the runs ahead: the depth by offset is that of the nesting behind the runs in front
  induction rs generalizing a n with
  | nil => exact ⟨[], rfl, rfl, rfl⟩
  | cons r rs ih =>
      have hruns : runs t = (a ++ [r]) ++ rs := by rw [h, List.append_assoc, List.singleton_append]
      have hdeeper := (deepest_behind_le n r rs).trans hdeep
      obtain ⟨ps, hps, hfirst, hlast⟩ := ih hruns (n := n.behind r) (by rw [hn, after_concat]) hdeeper
      rw [cutAtFirst_cons, cutAtLast_cons, Option.map_or, Option.map_or, map_cutOffset_cons,
        map_cutOffset_cons, ← hfirst, ← hlast]
      rw [size_join_concat] at hps
      cases hcode : r.mode.isCode with
      | false =>
          rw [codeOffsets_cons_of_not hcode, ← depth_behind_of_not_code hcode n,
            standsAhead?_of_not_code hne hcode]
          exact ⟨ps, hps, rfl, (Option.or_none).symm⟩
      | true =>
          obtain ⟨c, rfl⟩ := exists_eq_code hcode
          have hstable := Run.stable_runs t
          rw [h] at hstable
          have hahead : ((n.depth : Int) = 0 ∧ (List.isPrefixOf? word (join (code c :: rs))).isSome) ↔
              (standsAhead? word n (code c :: rs)).isSome = true := by
            rw [isPrefixOf?_join hword hstable.of_append_right, Option.isSome_map, standsAhead?]
            by_cases hz : n.depth = 0
            · rw [if_pos hz, and_iff_right (by omega)]
            · rw [if_neg hz]
              exact iff_of_false (fun hboth => hz (by omega)) Bool.noConfusion
          rw [codeOffsets_cons_code, foundFrom?, between?_from h, Option.bind_some, shiftAt?_eq h,
            Option.bind_some, ← hn, max_count_eq hcount ((depth_le_deepest _ rs).trans hdeeper), hps,
            Option.map_some]
          refine ⟨_, rfl, ?_⟩
          cases hstands : standsAhead? word n (code c :: rs) with
          | none =>
              rw [if_neg (by rw [hahead, hstands]; exact Bool.noConfusion)]
              exact ⟨rfl, (Option.or_none).symm⟩
          | some after =>
              rw [if_pos (by rw [hahead, hstands]; rfl)]
              refine ⟨rfl, ?_⟩
              rw [List.getLast?_cons]
              cases ps.getLast? <;> rfl

/-- **A search for a word by offset** makes no cut that is refused. The first offset that it finds is that
of the first cut at the word, and the last one that of the last. -/
theorem found?_eq (hcount : Keeps count t.depth) (w : Text) (hw : ∀ c ∈ w, Text.isPlain c = true)
    (hne : w ≠ []) :
    ∃ ps, found? count w t = some ps ∧
      ps.head? = (Run.cutAtFirst w (runs t)).map (fun p => Text.size (join p.1)) ∧
      ps.getLast? = (Run.cutAtLast w (runs t)).map fun p => Text.size (join p.1) := by
  have hoffset : cutOffset [] = fun p => Text.size (join p.1) := funext fun p => Nat.zero_add _
  rw [found?, codeAhead_ofText, ← hoffset]
  exact foundFrom?_eq (a := []) hcount hw hne rfl rfl (Nat.le_refl _)

end Found

/-! ## Characters of code -/

/-- The first of the offsets at which a character stands; the inner `none` when there is no such offset. -/
def firstFrom? (t : Text) (c : Char) : List Nat → Option (Option Nat)
  | [] => some none
  | p :: ps => (charAt? t p).bind fun d => if d = c then some (some p) else firstFrom? t c ps

/-- The first offset at which a character is code. -/
def firstCode? (t : Text) (c : Char) : Option (Option Nat) :=
  firstFrom? t c (codeAhead (ofText t))

section First

variable {t : Text} {c : Char} {a rs : List Run}

theorem firstFrom?_eq (h : runs t = a ++ rs) :
    firstFrom? t c (codeOffsets (Text.size (join a)) rs) = some ((cutAtChar c rs).map (cutOffset a)) := by
  induction rs generalizing a with
  | nil => rfl
  | cons r rs ih =>
      have hruns : runs t = (a ++ [r]) ++ rs := by rw [h, List.append_assoc, List.singleton_append]
      have hrest := ih hruns
      rw [size_join_concat, ← map_cutOffset_cons] at hrest
      rw [cutAtChar]
      cases hcode : r.mode.isCode with
      | false =>
          rw [codeOffsets_cons_of_not hcode, isChar_of_not_code hcode, if_neg Bool.false_ne_true]
          exact hrest
      | true =>
          obtain ⟨d, rfl⟩ := exists_eq_code hcode
          rw [codeOffsets_cons_code, firstFrom?, charAt?_eq h, Option.bind_some]
          by_cases hd : d = c
          · rw [if_pos hd, if_pos (by rw [isChar, hd, beq_iff_eq])]
            rfl
          · rw [if_neg hd, if_neg (by rwa [isChar, beq_iff_eq, Run.code.injEq])]
            exact hrest

theorem firstCode?_eq (t : Text) (c : Char) :
    firstCode? t c = some ((cutAtChar c (runs t)).map fun p => Text.size (join p.1)) := by
  have hoffset : cutOffset [] = fun p => Text.size (join p.1) := funext fun p => Nat.zero_add _
  rw [firstCode?, codeAhead_ofText, ← hoffset]
  exact firstFrom?_eq (a := []) rfl

end First

end ByOffset

end ScriptSurvey
