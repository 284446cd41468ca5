import ScriptSurvey.Text.Basic

/-!
# Reading JSON

A reader of JSON that knows what it expects: a text, a number or a list of texts, or a value of
any kind to be skipped.  It reads from left to right and reports the first fault it meets:

* the text is *truncated* where it ends inside a value;
* it is *malformed* where it is no JSON;
* it is *mismatched* where a value is not of the kind expected.

Scalars of the wrong kind are read to their end, so that a fault inside them comes first; lists
and objects of the wrong kind are faults where they open.  A value that is skipped is held to the
grammar alone: neither the range of its numbers nor the pairing of surrogates in its texts
matters, and nor does its depth.

Every reader returns the rest of the text, which is no longer than what it was given.
-/

namespace ScriptSurvey.Json

/-- Why a text is not what was expected. -/
inductive Fault where
  | truncated
  | malformed
  | mismatched
deriving DecidableEq, Repr

/-- What was read from the front of a text, and the rest. -/
structure Taken (α : Type) (t : Text) where
  value : α
  rest : Text
  le : rest.length ≤ t.length

/-- A reader's result on a text. -/
abbrev Result (α : Type) (t : Text) := Except Fault (Taken α t)

namespace Taken

/-- What was read from a part, read from the whole. -/
def widen {α : Type} {s t : Text} (h : s.length ≤ t.length) (r : Taken α s) : Taken α t :=
  ⟨r.value, r.rest, Nat.le_trans r.le h⟩

/-- The same reading with another value. -/
def map {α β : Type} {t : Text} (f : α → β) (r : Taken α t) : Taken β t :=
  ⟨f r.value, r.rest, r.le⟩

/-- Read on behind what was read. -/
def andThen {α β : Type} {t : Text} (r : Taken α t) (next : (s : Text) → Result β s) : Result β t :=
  (next r.rest).map (widen r.le)

end Taken

/-! ## White space -/

/-- The four characters that may stand between tokens. -/
def isSpace (c : Char) : Bool :=
  c == ' ' || c == '\t' || c == '\n' || c == '\r'

/-- The text behind white space. -/
def skipSpace (t : Text) : Text :=
  t.dropWhile isSpace

theorem length_skipSpace_le (t : Text) : (skipSpace t).length ≤ t.length :=
  (List.dropWhile_sublist _).length_le

theorem length_of_skipSpace_eq {t r : Text} {c : Char} (h : skipSpace t = c :: r) :
    r.length < t.length := by
  have := length_skipSpace_le t
  rw [h, List.length_cons] at this
  omega

/-! ## Texts -/

/-- The value of a hexadecimal digit. -/
def hexDigit? (c : Char) : Option Nat :=
  if c.isDigit then some (c.toNat - '0'.toNat)
  else if 'a' ≤ c ∧ c ≤ 'f' then some (c.toNat - 'a'.toNat + 10)
  else if 'A' ≤ c ∧ c ≤ 'F' then some (c.toNat - 'A'.toNat + 10)
  else none

/-- The number that four hexadecimal digits write.  Fewer than four bytes are truncated digits,
whatever they are. -/
def readFourDigits (t : Text) : Result Nat t :=
  if Text.size t < 4 then .error .truncated
  else
    match t with
    | a :: b :: c :: d :: rest =>
      match hexDigit? a, hexDigit? b, hexDigit? c, hexDigit? d with
      | some a, some b, some c, some d =>
        .ok ⟨((a * 16 + b) * 16 + c) * 16 + d, rest, by simp only [List.length_cons]; omega⟩
      | _, _, _, _ => .error .malformed
    | _ => .error .malformed

/-- Whether a unit is the first of a surrogate pair. -/
def isHighSurrogate (n : Nat) : Bool := 0xD800 ≤ n && n ≤ 0xDBFF

/-- Whether a unit is the second of a surrogate pair. -/
def isLowSurrogate (n : Nat) : Bool := 0xDC00 ≤ n && n ≤ 0xDFFF

/-- The second unit of a surrogate pair, with its `\u`. -/
def readLowSurrogate : (t : Text) → Result Nat t
  | [] => .error .truncated
  | '\\' :: [] => .error .truncated
  | '\\' :: 'u' :: t =>
    match readFourDigits t with
    | .error e => .error e
    | .ok r =>
      if isLowSurrogate r.value then .ok (r.widen (by simp only [List.length_cons]; omega))
      else .error .malformed
  | _ => .error .malformed

/-- The character of an escape, behind its `\u`.  In a text that is skipped a single unit is
enough, and which character it is does not matter. -/
def readUnit (skipping : Bool) (t : Text) : Result Char t :=
  match readFourDigits t with
  | .error e => .error e
  | .ok r =>
    if skipping then .ok (r.map Char.ofNat)
    else if isLowSurrogate r.value then .error .malformed
    else if isHighSurrogate r.value then
      r.andThen fun s => (readLowSurrogate s).map fun low =>
        low.map fun n => Char.ofNat (0x10000 + (r.value - 0xD800) * 0x400 + (n - 0xDC00))
    else .ok (r.map Char.ofNat)

/-- The character of an escape of one letter. -/
def escaped? (c : Char) : Option Char :=
  if c = '"' ∨ c = '\\' ∨ c = '/' then some c
  else if c = 'b' then some '\x08'
  else if c = 'f' then some '\x0C'
  else if c = 'n' then some '\n'
  else if c = 'r' then some '\r'
  else if c = 't' then some '\t'
  else none

/-- The character of an escape, behind its backslash. -/
def readEscape (skipping : Bool) : (t : Text) → Result Char t
  | [] => .error .truncated
  | c :: t =>
    if c = 'u' then (readUnit skipping t).map (Taken.widen (by simp))
    else
      match escaped? c with
      | some d => .ok ⟨d, t, by simp⟩
      | none => .error .malformed

/-- The contents of a text, behind its opening quote. -/
def readQuoted (skipping : Bool) (t : Text) : Result Text t :=
  match t with
  | [] => .error .truncated
  | c :: t =>
    if c = '"' then .ok ⟨[], t, by simp⟩
    else if c = '\\' then
      match readEscape skipping t with
      | .error e => .error e
      | .ok r =>
        have := r.le
        (readQuoted skipping r.rest).map fun s =>
          (s.map (r.value :: ·)).widen (by simp only [List.length_cons]; omega)
    else if c.toNat < 0x20 then .error .malformed
    else (readQuoted skipping t).map fun s => (s.map (c :: ·)).widen (by simp)
termination_by t.length
decreasing_by
  all_goals
    simp only [List.length_cons]
    omega

/-! ## Words and numbers -/

/-- The rest behind `word`, which should stand in front. -/
def readWord : (word t : Text) → Result Unit t
  | [], t => .ok ⟨(), t, Nat.le_refl _⟩
  | _ :: _, [] => .error .truncated
  | c :: word, d :: t =>
    if c = d then (readWord word t).map (Taken.widen (by simp)) else .error .malformed

/-- A number as it is kept: its sign, its leading digits as one number of at most 64 bits, the power
of ten that they count, and whether it is written with digits only, all of them kept. -/
structure Number where
  isNegative : Bool
  digits : Nat
  exponent : Int
  isWhole : Bool
deriving DecidableEq, Repr

/-- The fault of a number that breaks off.  At the end of the text, a number that is read is
truncated, but one that is skipped is malformed. -/
def breakOff (skipping : Bool) (t : Text) : Fault :=
  if t.isEmpty && !skipping then .truncated else .malformed

/-- The digits in front. -/
def takeDigits (t : Text) : Taken Text t :=
  ⟨t.takeWhile Char.isDigit, t.dropWhile Char.isDigit, (List.dropWhile_sublist _).length_le⟩

/-- A number with one more decimal digit behind it. -/
def appendDigit (n : Nat) (d : Char) : Nat :=
  n * 10 + (d.toNat - '0'.toNat)

/-- The number that decimal digits write. -/
def decimal (digits : Text) : Nat :=
  digits.foldl appendDigit 0

/-- A number with more digits behind it, as long as it has at most 64 bits, and how many of the
digits are left out: the first that does not fit, and all behind that. -/
def appendDigits (n : Nat) : Text → Nat × Nat
  | [] => (n, 0)
  | d :: ds =>
    if appendDigit n d < Nat.pow 2 64 then appendDigits (appendDigit n d) ds
    else (n, (d :: ds).length)

/-- At least one digit. -/
def readDigits (skipping : Bool) (t : Text) : Result Text t :=
  let r := takeDigits t
  if r.value.isEmpty then .error (breakOff skipping t) else .ok r

/-- The digits in front of the point: a zero, or digits that do not begin with one. -/
def readWhole (skipping : Bool) (t : Text) : Result Text t :=
  match readDigits skipping t with
  | .error e => .error e
  | .ok r =>
    match r.value with
    | '0' :: _ :: _ => .error .malformed
    | _ => .ok r

/-- The digits behind the point, if there is one. -/
def readFraction (skipping : Bool) : (t : Text) → Result (Option Text) t
  | '.' :: t => (readDigits skipping t).map fun r => (r.map some).widen (by simp)
  | t => .ok ⟨none, t, Nat.le_refl _⟩

/-- The sign of an exponent. -/
def takeSign : (t : Text) → Taken Bool t
  | '+' :: t => ⟨false, t, by simp⟩
  | '-' :: t => ⟨true, t, by simp⟩
  | t => ⟨false, t, Nat.le_refl _⟩

/-- The exponent, if there is one. -/
def readExponent (skipping : Bool) : (t : Text) → Result (Option Int) t
  | [] => .ok ⟨none, [], Nat.le_refl _⟩
  | c :: t =>
    if c = 'e' ∨ c = 'E' then
      let sign := takeSign t
      match readDigits skipping sign.rest with
      | .error e => .error e
      | .ok r =>
        let n : Int := decimal r.value
        .ok ((r.map fun _ => some (if sign.value then -n else n)).widen
          (Nat.le_succ_of_le sign.le))
    else .ok ⟨none, c :: t, Nat.le_refl _⟩

/-- The number of some digits, and of those behind the point and the exponent if there are any.
A digit left out in front of the point still counts as a place, and one behind it does not. -/
def Number.ofParts (isNegative : Bool) (whole : Text) (fraction : Option Text)
    (exponent : Option Int) : Number :=
  let kept := appendDigits 0 whole
  let behindPoint := fraction.getD []
  let all := appendDigits kept.1 behindPoint
  { isNegative
    digits := all.1
    exponent := exponent.getD 0 + kept.2 - (behindPoint.length - all.2 : Nat)
    isWhole := fraction.isNone && exponent.isNone && kept.2 == 0 }

/-- A number behind its sign. -/
def readNumber (skipping isNegative : Bool) (t : Text) : Result Number t :=
  match readWhole skipping t with
  | .error e => .error e
  | .ok whole =>
    whole.andThen fun t =>
      match readFraction skipping t with
      | .error e => .error e
      | .ok fraction =>
        fraction.andThen fun t =>
          (readExponent skipping t).map
            (Taken.map fun e => Number.ofParts isNegative whole.value fraction.value e)

theorem length_andThen {α β : Type} {t : Text} {r : Taken α t} {next : (s : Text) → Result β s}
    {x : Taken β t} (h : r.andThen next = .ok x) : x.rest.length ≤ r.rest.length := by
  unfold Taken.andThen at h
  cases hn : next r.rest with
  | error e => simp [hn, Except.map] at h
  | ok y =>
      simp only [hn, Except.map, Except.ok.injEq] at h
      subst h
      exact y.le

/-- A number that begins with a digit uses that up. -/
theorem length_readNumber {skipping isNegative : Bool} {c : Char} {t : Text}
    {x : Taken Number (c :: t)} (hc : c.isDigit = true)
    (h : readNumber skipping isNegative (c :: t) = .ok x) : x.rest.length ≤ t.length := by
  unfold readNumber at h
  split at h
  · simp at h
  · next whole hw =>
      refine Nat.le_trans (length_andThen h) ?_
      have hrest : whole.rest = t.dropWhile Char.isDigit := by
        unfold readWhole readDigits at hw
        simp only [takeDigits, List.takeWhile_cons, hc, if_true, List.isEmpty_cons,
          Bool.false_eq_true, if_false] at hw
        split at hw
        · simp at hw
        · simp only [Except.ok.injEq] at hw
          subst hw
          simp [hc]
      rw [hrest]
      exact (List.dropWhile_sublist _).length_le

namespace Number

/-- The nearest number with at most 53 significant bits.  Of two that are equally near it is the
one that is even in its last significant bit. -/
def roundToDouble (n : Nat) : Nat :=
  let unit := Nat.pow 2 (n.log2 + 1 - 53)
  let rest := n % unit
  if unit < 2 * rest ∨ 2 * rest = unit ∧ n / unit % 2 = 1 then (n / unit + 1) * unit
  else n / unit * unit

/-- The least number that rounds to no finite number of double precision: a half step above the
greatest. -/
def limit : Nat := Nat.pow 2 1024 - Nat.pow 2 970

/-- Whether the number is out of the range of double precision.  Its digits and its power of ten
are rounded before they are multiplied, so close to the limit this does not always agree with the
number as it is written.  A power of ten beyond the range is not computed. -/
def isOutOfRange (n : Number) : Bool :=
  if n.digits = 0 ∨ n.exponent < 0 then false
  else if 308 < n.exponent then true
  else limit ≤ roundToDouble n.digits * roundToDouble (Nat.pow 10 n.exponent.toNat)

/-- The number as a count of at most 64 bits, if it is written as one. -/
def count? (n : Number) : Option Nat :=
  if n.isWhole ∧ ¬n.isNegative then some n.digits else none

end Number

/-! ## Values of an expected kind -/

/-- The fault of a value that is not of the kind expected, given its first character. -/
def rejectValue (c : Char) (t : Text) : Fault :=
  let fault {α : Type} : Result α t → Fault
    | .error e => e
    | .ok _ => .mismatched
  let number (r : (s : Text) × Result Number s) : Fault :=
    match r.2 with
    | .error e => e
    | .ok n => if n.value.isOutOfRange then .malformed else .mismatched
  if c = 'n' then fault (readWord "ull".toList t)
  else if c = 't' then fault (readWord "rue".toList t)
  else if c = 'f' then fault (readWord "alse".toList t)
  else if c = '"' then fault (readQuoted false t)
  else if c = '-' then number ⟨t, readNumber false true t⟩
  else if c.isDigit then number ⟨c :: t, readNumber false false (c :: t)⟩
  else if c = '[' ∨ c = '\x7b' then .mismatched
  else .malformed

/-- A text. -/
def readText (t : Text) : Result Text t :=
  match h : skipSpace t with
  | [] => .error .truncated
  | c :: r =>
    if c = '"' then (readQuoted false r).map (Taken.widen (Nat.le_of_lt (length_of_skipSpace_eq h)))
    else .error (rejectValue c r)

/-- A count. -/
def readCount (t : Text) : Result Nat t :=
  match h : skipSpace t with
  | [] => .error .truncated
  | c :: r =>
    if c.isDigit then
      match readNumber false false (c :: r) with
      | .error e => .error e
      | .ok n =>
        if n.value.isOutOfRange then .error .malformed
        else
          match n.value.count? with
          | none => .error .mismatched
          | some k =>
            .ok ((n.map fun _ => k).widen (by rw [← h]; exact length_skipSpace_le t))
    else .error (rejectValue c r)

/-- What comes next in a list or an object: its end, or an item. -/
inductive Upcoming where
  | finish
  | item
deriving DecidableEq, Repr

/-- Go to the next item, or past the closing bracket.  A comma stands between items, and nowhere
else. -/
def nextItem (closing : Char) (isFirst : Bool) (t : Text) : Result Upcoming t :=
  match h : skipSpace t with
  | [] => .error .truncated
  | c :: r =>
    have hr := length_of_skipSpace_eq h
    if c = closing then .ok ⟨.finish, r, Nat.le_of_lt hr⟩
    else if isFirst then .ok ⟨.item, t, Nat.le_refl _⟩
    else if c = ',' then
      match skipSpace r with
      | [] => .error .truncated
      | d :: _ => if d = closing then .error .malformed else .ok ⟨.item, r, Nat.le_of_lt hr⟩
    else .error .malformed

/-- An item that is not the first uses up the comma in front of it. -/
theorem length_nextItem {closing : Char} {t : Text} {r : Taken Upcoming t}
    (h : nextItem closing false t = .ok r) : r.rest.length < t.length := by
  unfold nextItem at h
  split at h
  · simp at h
  · next c s hs =>
      have := length_of_skipSpace_eq hs
      dsimp only at h
      split at h
      · simp only [Except.ok.injEq] at h
        subst h
        exact this
      · simp only [Bool.false_eq_true, if_false] at h
        split at h
        · split at h
          · simp at h
          · split at h
            · simp at h
            · simp only [Except.ok.injEq] at h
              subst h
              exact this
        · simp at h

/-- The texts of a list, behind its opening bracket or an item. -/
def readTextItems (isFirst : Bool) (t : Text) : Result (List Text) t :=
  match _h : nextItem ']' isFirst t with
  | .error e => .error e
  | .ok next =>
    match next.value with
    | .finish => .ok (next.map fun _ => [])
    | .item =>
      match readText next.rest with
      | .error e => .error e
      | .ok item =>
        have := item.le
        have := next.le
        (readTextItems false item.rest).map fun more =>
          (more.map (item.value :: ·)).widen (by omega)
termination_by 2 * t.length + isFirst.toNat
decreasing_by
  cases isFirst with
  | true =>
      simp only [Bool.toNat_true, Bool.toNat_false]
      omega
  | false =>
      have := length_nextItem _h
      simp only [Bool.toNat_false]
      omega

/-- A list of texts. -/
def readTexts (t : Text) : Result (List Text) t :=
  match h : skipSpace t with
  | [] => .error .truncated
  | c :: r =>
    if c = '[' then
      (readTextItems true r).map (Taken.widen (Nat.le_of_lt (length_of_skipSpace_eq h)))
    else .error (rejectValue c r)

/-! ## Skipping -/

/-- What encloses a value. -/
inductive Enclosure where
  | list
  | object
deriving DecidableEq, Repr

/-- The bracket that ends an enclosure. -/
def Enclosure.closing : Enclosure → Char
  | list => ']'
  | object => '\x7d'

/-- Skip a value that is no list and no object, given its first character. -/
def skipScalar (c : Char) (t : Text) : Result Unit t :=
  if c = 'n' then readWord "ull".toList t
  else if c = 't' then readWord "rue".toList t
  else if c = 'f' then readWord "alse".toList t
  else if c = '"' then (readQuoted true t).map (Taken.map fun _ => ())
  else if c = '-' then (readNumber true false t).map (Taken.map fun _ => ())
  else .error .malformed

/-- Skip the colon behind a key. -/
def readColon (t : Text) : Result Unit t :=
  match h : skipSpace t with
  | [] => .error .truncated
  | c :: r =>
    if c = ':' then .ok ⟨(), r, Nat.le_of_lt (length_of_skipSpace_eq h)⟩ else .error .malformed

/-- A key, which is a text and nothing else. -/
def readKey (skipping : Bool) (t : Text) : Result Text t :=
  match h : skipSpace t with
  | [] => .error .truncated
  | c :: r =>
    if c = '"' then
      (readQuoted skipping r).map (Taken.widen (Nat.le_of_lt (length_of_skipSpace_eq h)))
    else .error .malformed

mutual

/-- Skip a value, and then what remains of the enclosures that it is in, innermost first. -/
def skipValue (outer : List Enclosure) (t : Text) : Result Unit t :=
  match _h : skipSpace t with
  | [] => .error .truncated
  | c :: r =>
    have hr := length_of_skipSpace_eq _h
    if c = '[' then (skipOpened .list outer r).map (Taken.widen (Nat.le_of_lt hr))
    else if c = '\x7b' then (skipOpened .object outer r).map (Taken.widen (Nat.le_of_lt hr))
    else if hd : c.isDigit then
      match hn : readNumber true false (c :: r) with
      | .error e => .error e
      | .ok s =>
        have hs := Nat.lt_of_le_of_lt (length_readNumber hd hn) hr
        (skipBehind outer s.rest).map (Taken.widen (Nat.le_of_lt hs))
    else
      match skipScalar c r with
      | .error e => .error e
      | .ok s =>
        have hs := Nat.lt_of_le_of_lt s.le hr
        (skipBehind outer s.rest).map (Taken.widen (Nat.le_of_lt hs))
termination_by 3 * t.length

/-- Skip the contents of an enclosure, behind its opening bracket. -/
def skipOpened (e : Enclosure) (outer : List Enclosure) (t : Text) : Result Unit t :=
  match _h : skipSpace t with
  | [] => .error .truncated
  | c :: r =>
    have hr := length_of_skipSpace_eq _h
    if c = e.closing then (skipBehind outer r).map (Taken.widen (Nat.le_of_lt hr))
    else skipItem e outer t
termination_by 3 * t.length + 2

/-- Skip an item of an enclosure, and what follows it. -/
def skipItem (e : Enclosure) (outer : List Enclosure) (t : Text) : Result Unit t :=
  match e with
  | .list => skipValue (.list :: outer) t
  | .object =>
    match readKey true t with
    | .error f => .error f
    | .ok key =>
      match readColon key.rest with
      | .error f => .error f
      | .ok colon =>
        have hc := Nat.le_trans colon.le key.le
        (skipValue (.object :: outer) colon.rest).map (Taken.widen hc)
termination_by 3 * t.length + 1

/-- Skip what remains of the enclosures behind an item. -/
def skipBehind (outer : List Enclosure) (t : Text) : Result Unit t :=
  match outer with
  | [] => .ok ⟨(), t, Nat.le_refl _⟩
  | e :: outer =>
    match _h : skipSpace t with
    | [] => .error .truncated
    | c :: r =>
      have hr := length_of_skipSpace_eq _h
      if c = ',' then (skipItem e outer r).map (Taken.widen (Nat.le_of_lt hr))
      else if c = e.closing then (skipBehind outer r).map (Taken.widen (Nat.le_of_lt hr))
      else .error .malformed
termination_by 3 * t.length

end

end ScriptSurvey.Json
