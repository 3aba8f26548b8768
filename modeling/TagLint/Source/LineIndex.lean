import TagLint.Source.Span

/-!
From byte offsets to positions.

The index holds the offsets at which lines start, in ascending order. A position is found by
halving the interval of candidate lines: the line is the last one that starts at or before the
offset.
-/
namespace TagLint

/-- The offsets at which the lines of a text start; the first line starts at 0. -/
structure LineIndex where
  starts : Array Nat

namespace LineIndex

def feedEnds (offset : Nat) : Text → List Nat
  | [] => []
  | c :: t =>
    if c == '\n' then (offset + 1) :: feedEnds (offset + 1) t
    else feedEnds (offset + c.utf8Size) t

def ofText (t : Text) : LineIndex :=
  ⟨(0 :: feedEnds 0 t).toArray⟩

def startOf (index : LineIndex) (i : Nat) : Nat :=
  index.starts[i]?.getD 0

/-- The last line from `low` up to, and without, `high` that starts at or before `offset`, where
line `low` does. -/
def search (index : LineIndex) (offset low high : Nat) : Nat :=
  if low + 1 < high then
    let middle := (low + high) / 2
    if index.startOf middle ≤ offset then search index offset middle high
    else search index offset low middle
  else low
termination_by high - low

/-- The position of a byte offset, which may lie past the end. -/
def position (index : LineIndex) (offset : Nat) : Position :=
  let line := index.search offset 0 index.starts.size
  ⟨line + 1, offset - index.startOf line⟩

/-- The positions of the ends of a span. -/
def extent (index : LineIndex) (span : Span) : Extent :=
  ⟨index.position span.start, index.position span.stop⟩

end LineIndex
end TagLint
