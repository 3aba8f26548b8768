import TagLint.Unicode.CharSet

/-!
Sets of characters as sequences of byte ranges.

The UTF-8 forms of the characters in a range are those of a few sequences of byte ranges: a sequence
stands for all ways to take one byte out of each of its ranges. The range is cut where the length
of the forms changes, at the surrogates, which have none, and where a byte in the middle would not
run through all its values.
-/
namespace TagLint.Unicode

def utf8Bytes (n : Nat) : List Nat :=
  if n < 0x80 then [n]
  else if n < 0x800 then [0xC0 + n / 64, 0x80 + n % 64]
  else if n < 0x10000 then [0xE0 + n / 4096, 0x80 + n / 64 % 64, 0x80 + n % 64]
  else [0xF0 + n / 262144, 0x80 + n / 4096 % 64, 0x80 + n / 64 % 64, 0x80 + n % 64]

/-- The end of the first part of a range that has to be cut because the last bytes, which hold
`2 ^ bits` values, do not run through all of them. -/
def cutAt? (low high bits : Nat) : Option Nat :=
  let size := 1 <<< bits
  if low / size == high / size then none
  else if low % size != 0 then some (low / size * size + (size - 1))
  else if high % size != size - 1 then some (high / size * size - 1)
  else none

/-- The sequences of byte ranges for the code points from `low` to `high`; `fuel` bounds how often
a range is cut. -/
def byteSequencesWith : Nat → Nat → Nat → List (List (Nat × Nat))
  | 0, _, _ => []
  | fuel + 1, low, high =>
    if low > high then []
    else if low < 0xE000 && high > 0xD7FF then
      byteSequencesWith fuel low 0xD7FF ++ byteSequencesWith fuel 0xE000 high
    else
      let byLength := [0x7F, 0x7FF, 0xFFFF].find? fun last => low ≤ last && last < high
      let cut :=
        if high ≤ 0x7F then none
        else byLength.or ([6, 12, 18].findSome? (cutAt? low high))
      match cut with
      | some last => byteSequencesWith fuel low last ++ byteSequencesWith fuel (last + 1) high
      | none => [(utf8Bytes low).zip (utf8Bytes high)]

end TagLint.Unicode

namespace TagLint.CharSet

/-- The sequences of byte ranges for a set, in ascending order. A range is cut less than ten times
from its start to any sequence. -/
def byteSequences (set : CharSet) : List (List (Nat × Nat)) :=
  set.ranges.flatMap fun range => Unicode.byteSequencesWith 32 range.1 range.2

end TagLint.CharSet
