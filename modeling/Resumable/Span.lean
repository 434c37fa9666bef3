/-!
# Source spans

A span is the half-open range of byte offsets `[start, stop)` that a node covers in its source.
Nodes that a program makes cover nothing: their span is `Span.synthetic`.
-/

namespace Resumable

/-- The byte range `[start, stop)` of a source text. -/
structure Span where
  start : UInt32
  stop : UInt32
  deriving Repr, DecidableEq

namespace Span

/-- The span of a node that stands for no source text. -/
def synthetic : Span := ⟨0, 0⟩

/-- A span that covers no byte; one that ends before it starts counts as empty. -/
def isEmpty (s : Span) : Bool := s.stop ≤ s.start

/-- The number of bytes covered. -/
def length (s : Span) : UInt32 := if s.isEmpty then 0 else s.stop - s.start

theorem isEmpty_synthetic : synthetic.isEmpty = true := rfl

end Span

end Resumable
