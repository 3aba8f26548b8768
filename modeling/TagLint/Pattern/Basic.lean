import TagLint.Unicode.CharSet

/-!
Patterns of text.

Patterns are built by functions that keep them simple: texts that stand one after the other are one
text, sequences hold no sequences, alternatives between characters are one set, and what the
alternatives have in common at their start stands before them. How large a pattern counts as being
depends on this form.
-/
namespace TagLint

/-- What is asked of the characters around a point. -/
inductive WordCondition where
  | boundary
  | noBoundary
  | start
  | stop
  /-- No word character stands before. -/
  | startHalf
  /-- No word character stands after. -/
  | stopHalf
  deriving DecidableEq, Repr

/-- A condition on a point of the text. -/
inductive Assertion where
  | textStart
  | textEnd
  | lineStart
  | lineEnd
  | word (condition : WordCondition) (isAscii : Bool)
  deriving DecidableEq, Repr

/-- A pattern. -/
inductive Pattern where
  /-- Some characters one after the other; none for the empty pattern. -/
  | text (chars : Text)
  | char (set : CharSet)
  | assert (condition : Assertion)
  | seq (items : List Pattern)
  | alt (branches : List Pattern)
  | rep (inner : Pattern) (least : Nat) (most : Option Nat)
  /-- A group whose place in the text is of interest. -/
  | group (inner : Pattern)

namespace Pattern

/-- The pattern that takes nothing. -/
def empty : Pattern :=
  text []

def ofSet (set : CharSet) : Pattern :=
  match set.only? with
  | some c => text [c]
  | none => char set

mutual

def takesNothing : Pattern → Bool
  | text chars => chars.isEmpty
  | char _ => false
  | assert _ => true
  | seq items => allTakeNothing items
  | alt branches => allTakeNothing branches
  | rep inner _ _ => takesNothing inner
  | group inner => takesNothing inner

def allTakeNothing : List Pattern → Bool
  | [] => true
  | pattern :: patterns => takesNothing pattern && allTakeNothing patterns

end

/-- Copies of a pattern. More than one copy of what takes nothing is of no use. -/
def copies (inner : Pattern) (least : Nat) (most : Option Nat) : Pattern :=
  let isIdle := inner.takesNothing
  let least := if isIdle then min least 1 else least
  let most := if isIdle then some (min (most.getD 1) 1) else most
  if most == some 0 then empty
  else if least == 1 && most == some 1 then inner
  else rep inner least most

def pieces : Pattern → List Pattern
  | text [] => []
  | seq items => items
  | pattern => [pattern]

def joinTexts : List Pattern → List Pattern
  | [] => []
  | text chars :: patterns =>
    match joinTexts patterns with
    | text more :: rest => text (chars ++ more) :: rest
    | rest => text chars :: rest
  | pattern :: patterns => pattern :: joinTexts patterns

def inSequence (patterns : List Pattern) : Pattern :=
  match joinTexts (patterns.flatMap pieces) with
  | [] => empty
  | [pattern] => pattern
  | items => seq items

mutual

/-- Whether two patterns are the same; groups of interest never are. -/
def same : Pattern → Pattern → Bool
  | text a, text b => a == b
  | char a, char b => a == b
  | assert a, assert b => a == b
  | seq a, seq b => allSame a b
  | alt a, alt b => allSame a b
  | rep a least most, rep b least' most' => least == least' && most == most' && same a b
  | _, _ => false

def allSame : List Pattern → List Pattern → Bool
  | [], [] => true
  | a :: as, b :: bs => same a b && allSame as bs
  | _, _ => false

end

def commonStart : List Pattern → List Pattern → List Pattern
  | a :: as, b :: bs => if same a b then a :: commonStart as bs else []
  | _, _ => []

def items? : Pattern → Option (List Pattern)
  | seq items => some items
  | _ => none

/-- What two or more sequences start with in common, and what is left of each. -/
def split? (branches : List Pattern) : Option (List Pattern × List (List Pattern)) :=
  (branches.mapM items?).bind fun sequences =>
    match sequences with
    | first :: second :: others =>
      let start := (second :: others).foldl commonStart first
      if start.isEmpty then none else some (start, sequences.map (List.drop start.length))
    | _ => none

def branches : Pattern → List Pattern
  | alt branches => branches
  | pattern => [pattern]

def singleSet? : Pattern → Option CharSet
  | text [c] => some (.single c)
  | _ => none

def set? : Pattern → Option CharSet
  | char set => some set
  | _ => none

def unionOf? (patterns : List Pattern) : Option CharSet :=
  ((patterns.mapM singleSet?).or (patterns.mapM set?)).map CharSet.unions

/-- The alternative between some patterns with nothing in common at their start. -/
def plainAlternatives (patterns : List Pattern) : Pattern :=
  match patterns.flatMap branches with
  | [pattern] => pattern
  | branches => ((unionOf? branches).map ofSet).getD (alt branches)

/-- The alternative between some patterns. What they start with in common is taken as long as it
can be, so nothing in common is left. -/
def alternatives (patterns : List Pattern) : Pattern :=
  let branches := patterns.flatMap branches
  match unionOf? branches, split? branches with
  | none, some (start, rests) =>
    inSequence (start ++ [plainAlternatives (rests.map inSequence)])
  | _, _ => plainAlternatives branches

end Pattern
end TagLint
