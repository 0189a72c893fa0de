/-!
# Spans

A span is a half-open range of byte offsets into a source text.
-/

namespace LimitSyntax

/-- The bytes from `start` up to, and not including, `stop`. -/
structure Span where
  start : Nat
  stop : Nat
  deriving DecidableEq, Inhabited

namespace Span

/-- The span at `offset` that holds no byte. -/
def empty (offset : Nat) : Span := ⟨offset, offset⟩

/-- Number of bytes. -/
def length (s : Span) : Nat := s.stop - s.start

/-- Whether the span ends where it starts. -/
def isEmpty (s : Span) : Bool := s.start == s.stop

/-- The least span that covers both. -/
def cover (s t : Span) : Span := ⟨min s.start t.start, max s.stop t.stop⟩

/-- Whether `t` lies inside `s`. -/
def contains (s t : Span) : Bool := s.start ≤ t.start && t.stop ≤ s.stop

end Span

end LimitSyntax
