import TagLint.Pattern.Basic
import TagLint.Unicode.Binary

/-!
The search for patterns in a text.

The points of a text are the places before each of its characters and the one after the last; they
are counted from zero, and a set of points is the number with these bits. For one text a pattern
becomes a `Matcher`, which takes all points at which a match may stand and gives all at which it may
end. So all readings of a pattern are followed at once.
-/
namespace TagLint

namespace WordCondition

def holds (before after : Bool) : WordCondition → Bool
  | boundary => before != after
  | noBoundary => before == after
  | start => !before && after
  | stop => before && !after
  | startHalf => !before
  | stopHalf => !after

end WordCondition

namespace Assertion

/-- Whether the condition holds between two characters, which are missing at the ends of the
text. -/
def holds (last next : Option Char) : Assertion → Bool
  | textStart => last.isNone
  | textEnd => next.isNone
  | lineStart => last.all (· == '\n')
  | lineEnd => next.all (· == '\n')
  | word condition isAscii =>
    let isPart := if isAscii then isAsciiWordChar else isWordChar
    condition.holds (last.any isPart) (next.any isPart)

/-- Whether the condition holds at each point of a text, where `last` stands before it. -/
def atPoints (condition : Assertion) (last : Option Char) : Text → List Bool
  | [] => [condition.holds last none]
  | c :: t => condition.holds last (some c) :: condition.atPoints (some c) t

end Assertion

/-- Whether `chars` stands at each point of a text. -/
def Text.isPrefixAt (chars : Text) : Text → List Bool
  | [] => [chars.isEmpty]
  | c :: t => chars.isPrefixOf (c :: t) :: chars.isPrefixAt t

/-- A set of points, as the number with these bits. -/
abbrev Points := Nat

namespace Points

/-- The points at which a list holds `true`. -/
def ofFlags (flags : List Bool) : Points :=
  flags.foldr (fun flag points => 2 * points + flag.toNat) 0

def upTo (last : Nat) : Points :=
  (1 <<< (last + 1)) - 1

def without (a b : Points) : Points :=
  a ^^^ (a &&& b)

/-- Exactly `count` steps. -/
def iterate (step : Points → Points) : Nat → Points → Points
  | 0, points => points
  | count + 1, points => iterate step count (step points)

/-- The points found, with those that at most `count` steps lead to from the points in `fresh`. -/
def reach (step : Points → Points) : Nat → Points → Points → Points
  | 0, found, _ => found
  | count + 1, found, fresh =>
    let next := without (step fresh) found
    if next == 0 then found else reach step count (found ||| next) next

/-- The union of the sets at those places of a list that are among some points. -/
def gather : List Points → Points → Points
  | [], _ => 0
  | set :: sets, points =>
    let others := gather sets (points / 2)
    if points % 2 == 1 then set ||| others else others

end Points

/-- A pattern as it applies to one text. -/
inductive Matcher where
  /-- Takes `count` characters at one of some points. -/
  | step (points : Points) (count : Nat)
  | stay (points : Points)
  | seq (first second : Matcher)
  | alt (first second : Matcher)
  /-- Exactly `least` copies, and up to `more` after them. -/
  | rep (inner : Matcher) (least more : Nat)
  /-- Ends at one of the points that are listed for the point at which it stands. -/
  | listed (ends : List Points)
  deriving DecidableEq, Repr

namespace Matcher

def ends : Matcher → Points → Points
  | step points count, starts => (starts &&& points) <<< count
  | stay points, starts => starts &&& points
  | seq first second, starts => second.ends (first.ends starts)
  | alt first second, starts => first.ends starts ||| second.ends starts
  | rep inner least more, starts =>
    let start := Points.iterate inner.ends least starts
    Points.reach inner.ends more start start
  | listed ends, starts => Points.gather ends starts

/-- How deep repetitions are nested. -/
def depth : Matcher → Nat
  | seq first second => max first.depth second.depth
  | alt first second => max first.depth second.depth
  | rep inner _ _ => inner.depth + 1
  | _ => 0

/-- The same matcher by a list of where it may end from each point of a text. -/
def tabulate (t : Text) (m : Matcher) : Matcher :=
  listed ((List.range (t.length + 1)).map fun point => m.ends (1 <<< point))

/-- Copies of a matcher. A repetition inside is gone through anew in each round of the one around
it, so one that is nested itself is tabulated, lest the rounds multiply with each level. -/
def copies (t : Text) (inner : Matcher) (least more : Nat) : Matcher :=
  rep (if inner.depth > 1 then inner.tabulate t else inner) least more

/-- Stays everywhere in a text. -/
def idle (t : Text) : Matcher :=
  stay (Points.upTo t.length)

/-- Takes one of some characters. -/
def ofTest (t : Text) (accepts : Char → Bool) : Matcher :=
  step (Points.ofFlags (t.map accepts)) 1

/-- Takes the given characters one after the other. -/
def ofText (t chars : Text) : Matcher :=
  step (Points.ofFlags (chars.isPrefixAt t)) chars.length

end Matcher

namespace Pattern

mutual

/-- The pattern as it applies to a text. No match takes more characters than the text has, so of
more copies than that each could be left out. -/
def matcher (t : Text) : Pattern → Matcher
  | text chars => .ofText t chars
  | char set => .ofTest t set.contains
  | assert condition => .stay (Points.ofFlags (condition.atPoints none t))
  | seq items => sequenceMatcher t items
  | alt branches => branchMatcher t branches
  | rep inner least most =>
    let more := (most.map fun most => most - least).getD (t.length + 1)
    .copies t (matcher t inner) (min least (t.length + 1)) (min more (t.length + 1))
  | group inner => matcher t inner

def sequenceMatcher (t : Text) : List Pattern → Matcher
  | [] => .idle t
  | pattern :: patterns => .seq (matcher t pattern) (sequenceMatcher t patterns)

def branchMatcher (t : Text) : List Pattern → Matcher
  | [] => .stay 0
  | pattern :: patterns => .alt (matcher t pattern) (branchMatcher t patterns)

end

/-- Whether the pattern matches somewhere in the text. -/
def occursIn (pattern : Pattern) (t : Text) : Bool :=
  (pattern.matcher t).ends (Points.upTo t.length) != 0

end Pattern
end TagLint
