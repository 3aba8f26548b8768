import TagLint.Pattern.Class
import TagLint.Pattern.Size
import TagLint.Unicode.Binary

/-!
Reading patterns.

Operators bind in the usual order: a repetition takes the item before it, items stand one after
the other, and a bar separates alternatives. A text that is no pattern is refused as a whole, and so
is a pattern that is nested too deeply or is too large.
-/
namespace TagLint

namespace Pattern

/-- Reads a decimal numeral with white space around it. -/
def readCount? (flags : PatternFlags) (t : Text) : Option (Nat × Text) :=
  let (digits, rest) := flags.takeWhile Char.isDigit (t.dropWhile isBlankChar)
  let value := digits.foldl (fun n c => n * 10 + (c.toNat - '0'.toNat)) 0
  if digits.isEmpty || value ≥ UInt32.size then none
  else some (value, flags.skip (rest.dropWhile isBlankChar))

/-- Reads the bounds of a counted repetition after the opening brace. -/
def readBounds? (flags : PatternFlags) (t : Text) : Option ((Nat × Option Nat) × Text) :=
  (readCount? flags (flags.skip t)).bind fun (least, rest) =>
    match rest with
    | '\x7d' :: r => some ((least, some least), r)
    | ',' :: r =>
      match flags.skip r with
      | '\x7d' :: r => some ((least, none), r)
      | r =>
        (readCount? flags r).bind fun (most, rest) =>
          match rest with
          | '\x7d' :: r => if least ≤ most then some ((least, some most), r) else none
          | _ => none
    | _ => none

/-- The letters in names of groups. -/
def nameLetters : CharSet :=
  Unicode.alphabetic.union Unicode.addedAlphabetic

/-- The numbers in names of groups. -/
def nameNumbers : CharSet :=
  (Unicode.ofCategories Unicode.Category.numbers).union Unicode.addedNumbers

def isGroupNameChar (isFirst : Bool) (c : Char) : Bool :=
  c == '_' || nameLetters.contains c ||
    (!isFirst && (c == '.' || c == '[' || c == ']' || nameNumbers.contains c))

def readGroupName? (t : Text) : Option (Text × Text) :=
  let name := t.takeWhile (· != '>')
  match name with
  | [] => none
  | first :: others =>
    if name.length < t.length && isGroupNameChar true first && others.all (isGroupNameChar false)
    then some (name, t.drop (name.length + 1))
    else none

/-- How a parenthesis opens. -/
inductive GroupStart where
  | group (name : Option Text)
  /-- A group that only holds its parts together, with the flags inside it. -/
  | plain (flags : PatternFlags)
  /-- Flags for the rest of the group around. -/
  | flags (flags : PatternFlags)

/-- Reads what follows an opening parenthesis, before the inside of the group. -/
def readGroupStart? (flags : PatternFlags) (t : Text) : Option (GroupStart × Text) :=
  match t with
  | '?' :: 'P' :: '<' :: r => (readGroupName? r).map fun (name, rest) => (.group name, rest)
  | '?' :: '<' :: r => (readGroupName? r).map fun (name, rest) => (.group name, rest)
  | '?' :: ')' :: _ => none
  | '?' :: r =>
    (flags.read? [] r).bind fun (inner, rest) =>
      match rest with
      | ':' :: r => some (.plain inner, r)
      | ')' :: r => some (.flags inner, r)
      | _ => none
  | _ => some (.group none, t)

/-- What is read of a group. -/
structure Reading where
  flags : PatternFlags
  /-- The alternatives before the last bar, the last first. -/
  branches : List (Nested Pattern)
  /-- The items after the last bar, the last first; flags leave a gap, which is not repeated. -/
  items : List (Option (Nested Pattern))
  names : List Text

namespace Reading

def start (flags : PatternFlags) (names : List Text) : Reading :=
  ⟨flags, [], [], names⟩

def sequence (reading : Reading) : Nested Pattern :=
  let depths := reading.items.map fun item => (item.map Nested.depth).getD 0
  ⟨inSequence (reading.items.reverse.filterMap fun item => item.map Nested.value),
    Nested.listDepth depths⟩

def add (reading : Reading) (item : Nested Pattern) : Reading :=
  { reading with items := some item :: reading.items }

def setFlags (reading : Reading) (flags : PatternFlags) : Reading :=
  { reading with flags := flags, items := none :: reading.items }

def close (reading : Reading) : Nested Pattern :=
  let branches := (reading.sequence :: reading.branches).reverse
  ⟨alternatives (branches.map Nested.value), Nested.listDepth (branches.map Nested.depth)⟩

/-- Starts the next alternative. -/
def nextBranch (reading : Reading) : Reading :=
  { reading with branches := reading.sequence :: reading.branches, items := [] }

/-- Repeats the last item. -/
def repeat? (reading : Reading) (least : Nat) (most : Option Nat) : Option Reading :=
  match reading.items with
  | some last :: others =>
    some { reading with items := some (last.around (last.value.copies least most)) :: others }
  | _ => none

def addGroup? (reading inside : Reading) (wrap : Pattern → Pattern) :
    Text → Option (Reading × Text)
  | ')' :: rest =>
    let inner := inside.close
    some ({ reading.add (inner.around (wrap inner.value)) with names := inside.names }, rest)
  | _ => none

end Reading

def ofChar (flags : PatternFlags) (c : Char) : Pattern :=
  if flags.isUnicode || c.toNat < 0x80 then ofSet (flags.fold (.single c)) else text [c]

def ofAtom (flags : PatternFlags) : PatternAtom → Pattern
  | .literal c => ofChar flags c
  | .set chars => ofSet chars
  | .assertion condition => assert condition

/-- The pattern of a character that is no operator. The dot stands for more than ASCII. -/
def ofPlain? (flags : PatternFlags) (c : Char) : Option Pattern :=
  match c with
  | '.' =>
    if !flags.isUnicode then none
    else some (char (if flags.dotTakesFeed then .all else (CharSet.single '\n').complement))
  | '^' => some (assert (if flags.isMultiLine then .lineStart else .textStart))
  | '$' => some (assert (if flags.isMultiLine then .lineEnd else .textEnd))
  | _ => some (ofChar flags c)

/-- Drops the mark of a lazy repetition, which finds in the same texts. -/
def dropLazy (t : Text) : Text :=
  if t.head? == some '?' then t.drop 1 else t

/-- Reads items up to the end of the group, which stays. -/
def readItems? : Nat → Reading → Text → Option (Reading × Text)
  | 0, _, _ => none
  | fuel + 1, reading, t =>
    let flags := reading.flags
    match flags.skip t with
    | [] => some (reading, [])
    | ')' :: r => some (reading, ')' :: r)
    | '|' :: r => readItems? fuel reading.nextBranch r
    | '*' :: r => (reading.repeat? 0 none).bind fun next => readItems? fuel next (dropLazy r)
    | '+' :: r => (reading.repeat? 1 none).bind fun next => readItems? fuel next (dropLazy r)
    | '?' :: r =>
      (reading.repeat? 0 (some 1)).bind fun next => readItems? fuel next (dropLazy r)
    | '\x7b' :: r =>
      (readBounds? flags r).bind fun (bounds, rest) =>
        (reading.repeat? bounds.1 bounds.2).bind fun next =>
          readItems? fuel next (dropLazy (flags.skip rest))
    | '\\' :: r =>
      (PatternAtom.readEscape? flags r).bind fun (atom, rest) =>
        readItems? fuel (reading.add (.flat (ofAtom flags atom))) rest
    | '[' :: r =>
      (CharClass.read? flags r).bind fun (set, rest) =>
        readItems? fuel (reading.add ⟨ofSet set.value, set.depth⟩) rest
    | '(' :: r =>
      (readGroupStart? flags (flags.skip r)).bind fun (opened, rest) =>
        match opened with
        | .flags inner => readItems? fuel (reading.setFlags inner) rest
        | .plain inner =>
          (readItems? fuel (.start inner reading.names) rest).bind fun (inside, rest) =>
            (reading.addGroup? inside id rest).bind fun (next, rest) => readItems? fuel next rest
        | .group name =>
          if name.any reading.names.contains then none
          else
            (readItems? fuel (.start flags (name.toList ++ reading.names)) rest).bind
              fun (inside, rest) =>
                (reading.addGroup? inside .group rest).bind fun (next, rest) =>
                  readItems? fuel next rest
    | c :: r =>
      (ofPlain? flags c).bind fun pattern =>
        readItems? fuel (reading.add (.flat pattern)) r
/-- The pattern that a text is written for, if it is one. -/
def read? (t : Text) : Option Pattern :=
  (readItems? (t.length + 1) (.start .initial []) t).bind fun (reading, rest) =>
    let pattern := reading.close
    if rest.isEmpty && pattern.depth ≤ Nested.limit && pattern.value.isWithinLimit then
      some pattern.value
    else none

end Pattern
end TagLint
