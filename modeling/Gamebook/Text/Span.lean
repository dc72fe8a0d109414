/-!
# Spans

Places in authored text are given in bytes of its UTF-8 form.
-/

namespace Gamebook

/-- The bytes from `start` up to, but not with, `stop`. -/
structure Span where
  start : Nat
  stop : Nat
  deriving DecidableEq, Repr, Inhabited

/-- The span of a text of `length` bytes at `start`. -/
def Span.ofLength (start length : Nat) : Span :=
  ⟨start, start + length⟩

/-- The same bytes seen from a text that starts `offset` bytes earlier. -/
def Span.shift (s : Span) (offset : Nat) : Span :=
  ⟨s.start + offset, s.stop + offset⟩

/-- Something with its place in the text. -/
structure Located (α : Type) where
  value : α
  span : Span
  deriving DecidableEq, Repr

end Gamebook
