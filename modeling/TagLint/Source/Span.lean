import TagLint.Text.Basic

/-!
Places in a source text: byte spans, and the line and column positions people read.
-/
namespace TagLint

/-- The half-open byte range from `start` to `stop`. -/
structure Span where
  start : Nat
  stop : Nat
  deriving DecidableEq, Repr

namespace Span

/-- The span between two ends, which must not be the wrong way round. -/
def ofEnds? (start stop : Nat) : Option Span :=
  if start ≤ stop then some ⟨start, stop⟩ else none

/-- The number of bytes covered. -/
def length (s : Span) : Nat :=
  s.stop - s.start

/-- Whether no byte is covered. -/
def isEmpty (s : Span) : Bool :=
  s.start == s.stop

/-- Whether `inner` lies inside `s`; the ends may coincide. -/
def contains (s inner : Span) : Bool :=
  s.start ≤ inner.start && inner.stop ≤ s.stop

/-- Whether two spans share more than a boundary. -/
def overlaps (a b : Span) : Bool :=
  a.start < b.stop && b.start < a.stop

/-- The gap from the end of `a` to the start of `b`, empty when `b` starts earlier. -/
def between (a b : Span) : Span :=
  ⟨a.stop, max b.start a.stop⟩

theorem overlaps_comm (a b : Span) : a.overlaps b = b.overlaps a := by
  simp [overlaps, Bool.and_comm]

end Span

/-- A line, counted from 1, and a column, counted in bytes from 0. -/
structure Position where
  line : Nat
  column : Nat
  deriving DecidableEq, Repr

/-- The positions of the two ends of a span. -/
structure Extent where
  start : Position
  stop : Position
  deriving DecidableEq, Repr

namespace Extent

def between (a b : Extent) : Extent :=
  ⟨a.stop, b.start⟩

end Extent

namespace Text

def select? (t : Text) (s : Span) : Option Text :=
  t.slice? s.start s.stop

end Text
end TagLint
