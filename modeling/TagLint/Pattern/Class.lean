import TagLint.Pattern.Escape

/-!
Bracketed classes in patterns.

A class holds characters, ranges, sets and further classes. Two signs in a row between such lists
are an operator between sets; operators are applied from left to right. Letters are made to stand
for both cases before a set is negated or put into an operator. The depth of the nesting in a part
of a pattern is kept, since it is limited.
-/
namespace TagLint

/-- A part of a pattern, and how deep groups, classes, repetitions and lists of several items are
nested in it. -/
structure Nested (α : Type) where
  value : α
  depth : Nat
  deriving DecidableEq, Repr

namespace Nested

/-- A part with nothing nested in it. -/
def flat {α : Type} (value : α) : Nested α :=
  ⟨value, 0⟩

/-- A part that contains another one. -/
def around {α β : Type} (inner : Nested α) (value : β) : Nested β :=
  ⟨value, inner.depth + 1⟩

/-- The depth of a list of parts with the given depths, which is one more if they are several. -/
def listDepth (depths : List Nat) : Nat :=
  let most := depths.foldl max 0
  if depths.length ≥ 2 then most + 1 else most

/-- The greatest depth of a pattern. -/
def limit : Nat :=
  250

end Nested

/-- The operators between sets inside brackets. -/
inductive SetOperator where
  | inter
  | diff
  | symmDiff
  deriving DecidableEq, Repr

namespace SetOperator

def ofText? : Text → Option SetOperator
  | '&' :: '&' :: _ => some inter
  | '-' :: '-' :: _ => some diff
  | '~' :: '~' :: _ => some symmDiff
  | _ => none

def apply : SetOperator → CharSet → CharSet → CharSet
  | inter => CharSet.inter
  | diff => CharSet.diff
  | symmDiff => CharSet.symmDiff

end SetOperator

/-- What is read of the inside of brackets: the operand before the last operator with that operator,
and the items after it, of which the last one comes first. -/
structure ClassReading where
  left : Option (Nested CharSet × SetOperator)
  items : List (Nested CharSet)

namespace ClassReading

def add (reading : ClassReading) (item : Nested CharSet) : ClassReading :=
  { reading with items := item :: reading.items }

/-- The items after the last operator. -/
def operand (reading : ClassReading) : Nested CharSet :=
  ⟨.unions (reading.items.map Nested.value), Nested.listDepth (reading.items.map Nested.depth)⟩

def close (flags : PatternFlags) (reading : ClassReading) : Nested CharSet :=
  let right := reading.operand
  match reading.left with
  | none => right
  | some (left, operator) =>
    ⟨operator.apply (flags.fold left.value) (flags.fold right.value),
      max left.depth right.depth + 1⟩

def operate (flags : PatternFlags) (reading : ClassReading) (operator : SetOperator) :
    ClassReading :=
  ⟨some (reading.close flags, operator), []⟩

def bracketed? (flags : PatternFlags) (isNot : Bool) (inside : Nested CharSet) :
    Option (Nested CharSet) :=
  (flags.negate? isNot (flags.fold inside.value)).map inside.around

end ClassReading

namespace CharClass

def asciiRanges? (name : String) : Option (List (Nat × Nat)) :=
  match name with
  | "alnum" => some [(0x30, 0x39), (0x41, 0x5A), (0x61, 0x7A)]
  | "alpha" => some [(0x41, 0x5A), (0x61, 0x7A)]
  | "ascii" => some [(0x0, 0x7F)]
  | "blank" => some [(0x9, 0x9), (0x20, 0x20)]
  | "cntrl" => some [(0x0, 0x1F), (0x7F, 0x7F)]
  | "digit" => some [(0x30, 0x39)]
  | "graph" => some [(0x21, 0x7E)]
  | "lower" => some [(0x61, 0x7A)]
  | "print" => some [(0x20, 0x7E)]
  | "punct" => some [(0x21, 0x2F), (0x3A, 0x40), (0x5B, 0x60), (0x7B, 0x7E)]
  | "space" => some [(0x9, 0xD), (0x20, 0x20)]
  | "upper" => some [(0x41, 0x5A)]
  | "word" => some [(0x30, 0x39), (0x41, 0x5A), (0x5F, 0x5F), (0x61, 0x7A)]
  | "xdigit" => some [(0x30, 0x39), (0x41, 0x46), (0x61, 0x66)]
  | _ => none

/-- What follows an opening bracket inside brackets, if it is the name of an ASCII class. -/
inductive Named where
  /-- It is none. -/
  | no
  | yes (set : Option CharSet) (rest : Text)

def readNamed (flags : PatternFlags) : Text → Named
  | ':' :: r =>
    let isNot := r.head? == some '^'
    let named := if isNot then r.drop 1 else r
    let name := named.takeWhile (· != ':')
    match asciiRanges? (String.ofList name), named.drop name.length with
    | some ranges, ':' :: ']' :: rest => .yes (flags.negate? isNot (flags.fold ⟨ranges⟩)) rest
    | _, _ => .no
  | _ => .no

def readAtom? (flags : PatternFlags) : Text → Option (PatternAtom × Text)
  | [] => none
  | '\\' :: t => PatternAtom.readEscape? flags t
  | c :: t => some (.literal c, t)

def setOf? (flags : PatternFlags) : PatternAtom → Option CharSet
  | .literal c => flags.range? c c
  | .set chars => some chars
  | .assertion _ => none

def readRange? (flags : PatternFlags) (t : Text) : Option (CharSet × Text) :=
  (readAtom? flags t).bind fun (first, rest) =>
    let alone := fun rest => (setOf? flags first).map fun set => (set, rest)
    match flags.skip rest with
    | '-' :: r =>
      let next := flags.afterHyphen r
      if next == some ']' || next == some '-' then alone ('-' :: r)
      else
        (readAtom? flags (flags.skip r)).bind fun (second, rest) =>
          match first, second with
          | .literal low, .literal high => (flags.range? low high).map fun set => (set, rest)
          | _, _ => none
    | r => alone r

/-- Reads the start of brackets after the opening one: the negation, and the hyphens or the closing
bracket that stand first and mean themselves. -/
def readStart (flags : PatternFlags) (t : Text) : Bool × ClassReading × Text :=
  let t := flags.skip t
  let isNot := t.head? == some '^'
  let t := if isNot then flags.skip (t.drop 1) else t
  let (hyphens, rest) := flags.takeWhile (· == '-') t
  let itself (c : Char) : Nested CharSet := .flat (.single c)
  if hyphens.isEmpty && t.head? == some ']' then
    (isNot, ⟨none, [itself ']']⟩, t.drop 1)
  else (isNot, ⟨none, hyphens.map itself⟩, rest)

/-- Reads the inside of brackets after their start, up to and with the closing bracket. -/
def readInside? (flags : PatternFlags) :
    Nat → ClassReading → Text → Option (Nested CharSet × Text)
  | 0, _, _ => none
  | fuel + 1, reading, t =>
    match flags.skip t with
    | [] => none
    | '[' :: r =>
      match readNamed flags r with
      | .yes set rest =>
        set.bind fun set => readInside? flags fuel (reading.add (.flat set)) rest
      | .no =>
        let (isNot, inner, rest) := readStart flags r
        (readInside? flags fuel inner rest).bind fun (inside, rest) =>
          (ClassReading.bracketed? flags isNot inside).bind fun item =>
            readInside? flags fuel (reading.add item) rest
    | ']' :: r => some (reading.close flags, r)
    | c :: r =>
      match SetOperator.ofText? (c :: r) with
      | some operator => readInside? flags fuel (reading.operate flags operator) (r.drop 1)
      | none =>
        (readRange? flags (c :: r)).bind fun (set, rest) =>
          readInside? flags fuel (reading.add (.flat set)) rest

/-- Reads a bracketed class after its opening bracket. -/
def read? (flags : PatternFlags) (t : Text) : Option (Nested CharSet × Text) :=
  let (isNot, reading, rest) := readStart flags t
  (readInside? flags (t.length + 1) reading rest).bind fun (inside, rest) =>
    (ClassReading.bracketed? flags isNot inside).map fun item => (item, rest)

end CharClass
end TagLint
