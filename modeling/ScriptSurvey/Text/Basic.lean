/-!
# Texts

A text is a list of characters.  Places in a text are counted in the bytes of its UTF-8 form, so
the size of a text is the sum of its characters' sizes, and a place is a boundary when some
front part of the text has exactly that size.

Cutting functions return what lies on both sides of the cut, so that a text is always its parts
put together again.
-/

namespace ScriptSurvey

/-- A text: source code, a name, a path, or a piece of one of them. -/
abbrev Text := List Char

namespace Text

/-- The number of bytes of the UTF-8 form. -/
def size : Text → Nat
  | [] => 0
  | c :: t => c.utf8Size + size t

@[simp] theorem size_nil : size [] = 0 := rfl

@[simp] theorem size_cons (c : Char) (t : Text) : size (c :: t) = c.utf8Size + size t := rfl

@[simp] theorem size_append (s t : Text) : size (s ++ t) = size s + size t := by
  induction s with
  | nil => simp
  | cons c s ih => simp [ih, Nat.add_assoc]

@[simp] theorem size_reverse (t : Text) : size t.reverse = size t := by
  induction t with
  | nil => rfl
  | cons c t ih => simp [ih, Nat.add_comm]

theorem length_le_size (t : Text) : t.length ≤ size t := by
  induction t with
  | nil => exact Nat.le_refl 0
  | cons c t ih =>
      rw [List.length_cons, size_cons, Nat.add_comm]
      exact Nat.add_le_add c.utf8Size_pos ih

/-- Cut after exactly `n` bytes; `none` when that is past the end or inside a character. -/
def cutAt? : Nat → Text → Option (Text × Text)
  | 0, t => some ([], t)
  | _ + 1, [] => none
  | n + 1, c :: t =>
    if c.utf8Size ≤ n + 1 then (cutAt? (n + 1 - c.utf8Size) t).map fun p => (c :: p.1, p.2) else none

/-- The characters that begin before byte `n`. -/
def beginningBefore : Nat → Text → Text
  | 0, _ => []
  | _ + 1, [] => []
  | n + 1, c :: t => c :: beginningBefore (n + 1 - c.utf8Size) t

/-- Cut at the first character that satisfies `p`, leaving it out. -/
def cutAtFirst (p : Char → Bool) : Text → Option (Text × Text)
  | [] => none
  | c :: t => if p c then some ([], t) else (cutAtFirst p t).map fun q => (c :: q.1, q.2)

/-- Cut at the last character that satisfies `p`, leaving it out. -/
def cutAtLast (p : Char → Bool) : Text → Option (Text × Text)
  | [] => none
  | c :: t =>
    match cutAtLast p t with
    | some q => some (c :: q.1, q.2)
    | none => if p c then some ([], t) else none

/-- Drop the longest end whose elements all satisfy `p`. -/
def dropWhileEnd {α : Type} (p : α → Bool) (t : List α) : List α :=
  (t.reverse.dropWhile p).reverse

/-- Whether the text ends in `c`. -/
def endsIn (c : Char) (t : Text) : Bool :=
  t.getLast? == some c

/-- The decimal digits of a number. -/
def ofNat (n : Nat) : Text :=
  Nat.toDigits 10 n

/-- ASCII letters in lower case, all else as it is. -/
def toLower (t : Text) : Text :=
  t.map Char.toLower

/-- The texts one after another with `", "` between neighbours. -/
def commaJoin (ts : List Text) : Text :=
  List.intercalate [',', ' '] ts

end Text

end ScriptSurvey
