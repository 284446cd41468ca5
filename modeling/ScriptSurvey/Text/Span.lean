import ScriptSurvey.Text.Basic

/-!
# Spans

A half-open range of byte offsets in a text.  A span stands for a piece of the text only when
both its ends are boundaries of the text.

Its ends are natural numbers here.  Words of 32 bits hold those of every span in a text of fewer than
`2 ^ 32` bytes (`Span.inWords_eq`), and what is found in such a text is the same with its places in
words (`declarations_inWords`, `ByOffset.calls?_int32`).
-/

namespace ScriptSurvey

/-- The bytes from `start` up to, and not with, `stop`. -/
structure Span where
  start : Nat
  stop : Nat
deriving DecidableEq, Repr

namespace Span

/-- The span without bytes at a place. -/
def empty (at_ : Nat) : Span := ⟨at_, at_⟩

/-- The number of bytes. -/
def length (s : Span) : Nat := s.stop - s.start

/-- Whether the span has no bytes. -/
def isEmpty (s : Span) : Bool := s.start == s.stop

/-- Whether the byte at `n` lies in the span. -/
def contains (s : Span) (n : Nat) : Bool := s.start ≤ n && n < s.stop

/-- The piece of `t` that the span covers; `none` when it reaches outside `t` or cuts a
character. -/
def slice? (s : Span) (t : Text) : Option Text :=
  (Text.cutAt? s.start t).bind fun p => (Text.cutAt? s.length p.2).map Prod.fst

/-- The interval notation `[start, stop)`. -/
def interval (s : Span) : Text :=
  ['['] ++ Text.ofNat s.start ++ [',', ' '] ++ Text.ofNat s.stop ++ [')']

/-- The short notation `start..stop`. -/
def dotted (s : Span) : Text :=
  Text.ofNat s.start ++ ['.', '.'] ++ Text.ofNat s.stop

end Span

end ScriptSurvey
