import TagLint.Text.Basic

/-!
Sets of code points.

A set is kept as its ranges in ascending order. Every operation joins ranges that overlap or touch,
so a set has one form only.
-/
namespace TagLint

/-- A set of code points, as ranges in ascending order that neither overlap nor touch. -/
structure CharSet where
  ranges : List (Nat × Nat)
  deriving DecidableEq, Repr

namespace CharSet

/-- The greatest code point. -/
def lastCode : Nat :=
  0x10FFFF

/-- No code point. -/
def empty : CharSet :=
  ⟨[]⟩

/-- All code points. -/
def all : CharSet :=
  ⟨[(0, lastCode)]⟩

/-- Whether a number lies in one of some ranges in ascending order. -/
def covers : List (Nat × Nat) → Nat → Bool
  | [], _ => false
  | (low, high) :: ranges, n => if n < low then false else n ≤ high || covers ranges n

def contains (set : CharSet) (c : Char) : Bool :=
  covers set.ranges c.toNat

/-- Joins ranges that overlap or touch the one before them, where the ranges are in the order of
their starts; `low` and `high` are the ends of the range that is being joined. -/
def joinFrom (low high : Nat) : List (Nat × Nat) → List (Nat × Nat)
  | [] => [(low, high)]
  | (next, last) :: ranges =>
    if next ≤ high + 1 then joinFrom low (max high last) ranges
    else (low, high) :: joinFrom next last ranges

/-- Joins ranges in the order of their starts. -/
def join : List (Nat × Nat) → List (Nat × Nat)
  | [] => []
  | (low, high) :: ranges => joinFrom low high ranges

/-- The order of ranges by their starts. -/
def startsBefore (a b : Nat × Nat) : Bool :=
  a.1 ≤ b.1

def ofRanges (ranges : List (Nat × Nat)) : CharSet :=
  ⟨join (ranges.mergeSort startsBefore)⟩

def range (low high : Char) : CharSet :=
  ⟨[(low.toNat, high.toNat)]⟩

/-- One character. -/
def single (c : Char) : CharSet :=
  range c c

/-- The code points in one set or the other. -/
def union (a b : CharSet) : CharSet :=
  ⟨join (a.ranges.merge b.ranges startsBefore)⟩

/-- The code points in one of some sets. -/
def unions (sets : List CharSet) : CharSet :=
  ofRanges (sets.flatMap ranges)

/-- The ranges between some ranges in ascending order, from a code point on. -/
def gapsFrom (start : Nat) : List (Nat × Nat) → List (Nat × Nat)
  | [] => if start ≤ lastCode then [(start, lastCode)] else []
  | (low, high) :: ranges =>
    if start < low then (start, low - 1) :: gapsFrom (high + 1) ranges
    else gapsFrom (high + 1) ranges

/-- The code points that are not in a set. -/
def complement (set : CharSet) : CharSet :=
  ⟨gapsFrom 0 set.ranges⟩

/-- The code points in both sets. -/
def inter (a b : CharSet) : CharSet :=
  (a.complement.union b.complement).complement

/-- The code points in the first set only. -/
def diff (a b : CharSet) : CharSet :=
  (a.complement.union b).complement

/-- The code points in one of the sets only. -/
def symmDiff (a b : CharSet) : CharSet :=
  (a.union b).diff (a.inter b)

/-- Whether all code points are ASCII. -/
def isAscii (set : CharSet) : Bool :=
  set.ranges.all fun range => range.2 < 0x80

def only? (set : CharSet) : Option Char :=
  match set.ranges with
  | [(low, high)] => if low == high then some (Char.ofNat low) else none
  | _ => none

end CharSet
end TagLint
