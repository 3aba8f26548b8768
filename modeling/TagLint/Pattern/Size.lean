import TagLint.Pattern.Basic
import TagLint.Unicode.ByteRanges

/-!
How large a pattern is.

A pattern counts as the memory that the states of two automata for it would take: one reads a text
byte by byte forward and remembers where groups begin and end, the other reads it backward. A state
has a fixed size, and more for each of its transitions. A pattern that is larger than the limit is
refused, however few texts it is used on.
-/
namespace TagLint

/-- The direction in which an automaton reads. -/
inductive Direction where
  | forward
  | backward
  deriving DecidableEq, Repr

namespace Automaton

def stateSize : Nat :=
  32

/-- The size of a state with a choice of transitions without a byte. -/
def choiceSize (count : Nat) : Nat :=
  stateSize + 4 * count

def rangesSize (count : Nat) : Nat :=
  stateSize + 8 * count

/-- The size of some parts together. -/
def totalSize (sizes : List Nat) : Nat :=
  sizes.foldr (· + ·) 0

def commonLength {α : Type} [BEq α] : List α → List α → Nat
  | a :: as, b :: bs => if a == b then commonLength as bs + 1 else 0
  | _, _ => 0

/-- The number of different starts of some sequences, of which those with a common start stand side
by side; `last` is the sequence before them. -/
def startCount {α : Type} [BEq α] (last : List α) : List (List α) → Nat
  | [] => 0
  | sequence :: others => sequence.length - commonLength last sequence + startCount sequence others

/-- The sequences that start with each of some ranges, without it; those with the same start stand
side by side. -/
def byFirst {α : Type} [BEq α] (sequences : List (List α)) : List (List (List α)) :=
  (sequences.splitBy fun a b => a.head? == b.head?).map fun group => group.map (List.drop 1)

/-- The choices between what follows, at all points of some sequences of at most `depth` ranges. -/
def choices {α : Type} [BEq α] : Nat → List (List α) → List (List (List α))
  | 0, _ => []
  | depth + 1, sequences =>
    if sequences.all List.isEmpty then []
    else sequences :: (byFirst sequences).flatMap (choices depth)

/-- The size of an automaton for one character of a set. All ends of sequences that are alike are
shared forward, and all their starts backward. -/
def setSize (direction : Direction) (set : CharSet) : Nat :=
  if set.isAscii then stateSize + rangesSize set.ranges.length
  else
    let sequences := set.byteSequences
    match direction with
    | .forward =>
      let states := (choices 4 sequences).eraseDups
      stateSize + totalSize (states.map fun state => rangesSize (byFirst state).length)
    | .backward =>
      stateSize + choiceSize sequences.length + stateSize * startCount [] sequences

/-- A text as the bytes that an automaton reads. -/
def bytes (direction : Direction) (t : Text) : List Nat :=
  let forward := t.flatMap fun c => Unicode.utf8Bytes c.toNat
  match direction with
  | .forward => forward
  | .backward => forward.reverse

/-- The texts before, between and after those that end at this point of a tree of texts. -/
def untilEnds : List (List Nat) → List (List (List Nat))
  | [] => [[]]
  | [] :: others => [] :: untilEnds others
  | t :: others =>
    match untilEnds others with
    | first :: rest => (t :: first) :: rest
    | [] => [[t]]

/-- How often texts end at this point. It counts once before any text goes on. -/
def endCount (texts : List (List Nat)) : Nat :=
  min 1 (texts.takeWhile List.isEmpty).length +
    ((texts.dropWhile List.isEmpty).filter List.isEmpty).length

/-- The texts that start with each byte, without it, in the order of the bytes. -/
def byByte (texts : List (List Nat)) : List (List (List Nat)) :=
  let firsts := (texts.filterMap List.head?).eraseDups
  firsts.map fun byte => (texts.filter fun t => t.head? == some byte).map (List.drop 1)

/-- The size of the tree of some texts below a point; `depth` bounds their lengths. -/
def treeSize : Nat → List (List Nat) → Nat
  | 0, _ => 0
  | depth + 1, texts =>
    if texts.all List.isEmpty then 0
    else
      let groups := (untilEnds texts).map byByte
      let own := groups.map fun group =>
        match group.length with
        | 0 => 0
        | 1 => stateSize
        | count => rangesSize count
      let filled := (groups.filter fun group => !group.isEmpty).length
      totalSize own + choiceSize (filled + endCount texts) +
        totalSize (groups.flatten.map (treeSize depth))

/-- The size of an automaton for a choice of texts, which share their starts. -/
def textsSize (direction : Direction) (texts : List Text) : Nat :=
  let all := texts.map (bytes direction)
  stateSize + treeSize ((all.map List.length).max?.getD 0 + 1) all

end Automaton

namespace Pattern

open Automaton

mutual

/-- The least length of a match; `none` where a part of the pattern matches nothing. -/
def leastLength? : Pattern → Option Nat
  | text chars => some chars.byteLength
  | char set => if set.ranges.isEmpty then none else some 1
  | assert _ => some 0
  | seq items => leastSum? items
  | alt branches => leastMin? branches
  | rep inner least _ => (leastLength? inner).map (· * least)
  | group inner => leastLength? inner

def leastSum? : List Pattern → Option Nat
  | [] => some 0
  | pattern :: patterns =>
    (leastLength? pattern).bind fun n => (leastSum? patterns).map (n + ·)

def leastMin? : List Pattern → Option Nat
  | [] => none
  | [pattern] => leastLength? pattern
  | pattern :: patterns =>
    (leastLength? pattern).bind fun n => (leastMin? patterns).map (min n)

end

def someText? : Pattern → Option Text
  | text chars => if chars.isEmpty then none else some chars
  | _ => none

def copiesSize (size : Nat) (takesSome : Bool) (least : Nat) (most : Option Nat) : Nat :=
  match least, most with
  | 0, some 1 => choiceSize 2 + size + stateSize
  | 0, none =>
    if takesSome then choiceSize 2 + size else size + 2 * choiceSize 2 + stateSize
  | least, none => least * size + choiceSize 2
  | least, some most =>
    let required := if least == 0 then stateSize else least * size
    if least == most then required
    else required + stateSize + (most - least) * (choiceSize 2 + size)

mutual

def automatonSize (direction : Direction) : Pattern → Nat
  | text chars => if chars.isEmpty then stateSize else stateSize * chars.byteLength
  | char set => setSize direction set
  | assert _ => stateSize
  | seq items => sizeSum direction items
  | alt branches =>
    match branches.mapM someText? with
    | some texts => textsSize direction texts
    | none => choiceSize branches.length + stateSize + sizeSum direction branches
  | rep inner least most =>
    copiesSize (automatonSize direction inner) ((leastLength? inner).any (· > 0)) least most
  | group inner =>
    automatonSize direction inner + if direction == .forward then 2 * stateSize else 0

def sizeSum (direction : Direction) : List Pattern → Nat
  | [] => 0
  | pattern :: patterns => automatonSize direction pattern + sizeSum direction patterns

end

/-- The size of the whole automaton: it skips any bytes before a match, and has a last state.
Forward, the match itself is a group. -/
def searchSize (direction : Direction) (pattern : Pattern) : Nat :=
  let skip := choiceSize 2 + stateSize + rangesSize 1
  skip + automatonSize direction (group pattern) + stateSize

def sizeLimit : Nat :=
  10 <<< 20

/-- Whether a pattern keeps within the limit in both directions. -/
def isWithinLimit (pattern : Pattern) : Bool :=
  pattern.searchSize .forward ≤ sizeLimit && pattern.searchSize .backward ≤ sizeLimit

end Pattern
end TagLint
