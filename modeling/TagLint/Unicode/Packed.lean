import TagLint.Unicode.CharSet

/-!
Numbers packed into lines of letters and digits, the form in which the tables of code points stand,
and properties that give every code point one of some values.

Each of the 62 letters and digits carries a value below 31: the first 31 end a number and the other
31 are followed by its next digit in base 31. A line may end inside a number.
-/
namespace TagLint.Unicode.Packed

/-- The rank of a letter or digit: digits come first, then capital letters, then small ones. -/
def rank (c : Char) : Nat :=
  if c.isDigit then c.toNat - '0'.toNat
  else if c.isUpper then c.toNat - 'A'.toNat + 10
  else c.toNat - 'a'.toNat + 36

/-- The numbers read so far, the last first, and the value of the digits after them. -/
structure Reading where
  numbers : List Nat
  value : Nat

/-- Takes in one more letter or digit. -/
def Reading.add (reading : Reading) (c : Char) : Reading :=
  let digit := rank c
  if digit < 31 then ⟨(reading.value * 31 + digit) :: reading.numbers, 0⟩
  else ⟨reading.numbers, reading.value * 31 + (digit - 31)⟩

def Reading.addLine (reading : Reading) (line : String) : Reading :=
  line.toList.foldl Reading.add reading

def numbers (lines : List String) : List Nat :=
  (lines.foldl Reading.addLine ⟨[], 0⟩).numbers.reverse

/-- Pairs of a value and the number of code points that have it, less one. -/
def pairsOf : List Nat → List (Nat × Nat)
  | value :: less :: rest => (value, less + 1) :: pairsOf rest
  | _ => []

/-- Runs of a value and the number of code points that have it. -/
def pairs (lines : List String) : List (Nat × Nat) :=
  pairsOf (numbers lines)

/-- Ranges from the gaps before them and their lengths less one. -/
def rangesFrom (start : Nat) : List Nat → List (Nat × Nat)
  | gap :: less :: rest =>
    (start + gap, start + gap + less) :: rangesFrom (start + gap + less + 1) rest
  | _ => []

def set (lines : List String) : CharSet :=
  ⟨rangesFrom 0 (numbers lines)⟩

/-- Ranges from the gaps before them and their lengths less one, each with the number after
these. -/
def labelledFrom (start : Nat) : List Nat → List ((Nat × Nat) × Nat)
  | gap :: less :: label :: rest =>
    ((start + gap, start + gap + less), label) :: labelledFrom (start + gap + less + 1) rest
  | _ => []

/-- The ranges in some lines with the numbers that belong to them. -/
def labelled (lines : List String) : List ((Nat × Nat) × Nat) :=
  labelledFrom 0 (numbers lines)

/-- Lists of numbers, each after its length; `size` more numbers belong to the list that is being
read, the last first. -/
def listsFrom (size : Nat) (list : List Nat) : List Nat → List (List Nat)
  | [] => []
  | n :: rest =>
    match size with
    | 0 => listsFrom n [] rest
    | 1 => (n :: list).reverse :: listsFrom 0 [] rest
    | size + 2 => listsFrom (size + 1) (n :: list) rest

/-- The lists of numbers in some lines; none of them is empty. -/
def lists (lines : List String) : List (List Nat) :=
  listsFrom 0 [] (numbers lines)

end TagLint.Unicode.Packed

namespace TagLint.Unicode

/-- A property of code points. -/
structure Enumerated where
  /-- The names of each value, in lower case and without separators. A value without names cannot
  be asked for. -/
  values : List (List String)
  /-- The values of all code points, as runs of a value's number and a count of code points. -/
  runs : List (Nat × Nat)

def runRanges (accepts : Nat → Bool) (start : Nat) : List (Nat × Nat) → List (Nat × Nat)
  | [] => []
  | (value, count) :: runs =>
    if accepts value then (start, start + count - 1) :: runRanges accepts (start + count) runs
    else runRanges accepts (start + count) runs

namespace Enumerated

def indexOf? (property : Enumerated) (name : String) : Option Nat :=
  property.values.findIdx? fun names => names.contains name

/-- The code points whose value is accepted. -/
def select (property : Enumerated) (accepts : Nat → Bool) : CharSet :=
  ⟨CharSet.join (runRanges accepts 0 property.runs)⟩

/-- The code points that have the value with a name. -/
def set? (property : Enumerated) (name : String) : Option CharSet :=
  (property.indexOf? name).map fun index => property.select (· == index)

end Enumerated
end TagLint.Unicode
