import TagLint.Text.Blank
import TagLint.Unicode.CaseFold

/-!
The flags of a pattern, and what they mean for its text and its characters.

Flags hold to the end of the group that they stand in. A text under the flag for spacing may hold
white space and comments between its signs, which are skipped.
-/
namespace TagLint

/-- What the flags of a pattern say. -/
structure PatternFlags where
  /-- Letters stand for both cases. -/
  ignoresCase : Bool
  /-- Line starts and ends count as those of the text. -/
  isMultiLine : Bool
  dotTakesFeed : Bool
  /-- White space and comments are skipped. -/
  isSpaced : Bool
  /-- Classes of characters hold more than ASCII. -/
  isUnicode : Bool
  deriving DecidableEq, Repr

namespace PatternFlags

def initial : PatternFlags :=
  ⟨false, false, false, false, true⟩

/-- Sets or clears the flag with the given letter. Greed, and carriage returns as line ends, make no
difference to what is found in a name. -/
def set? (flags : PatternFlags) (letter : Char) (value : Bool) : Option PatternFlags :=
  match letter with
  | 'i' => some { flags with ignoresCase := value }
  | 'm' => some { flags with isMultiLine := value }
  | 's' => some { flags with dotTakesFeed := value }
  | 'x' => some { flags with isSpaced := value }
  | 'u' => some { flags with isUnicode := value }
  | 'U' => some flags
  | 'R' => some flags
  | _ => none

/-- Reads letters of flags up to a colon or the closing parenthesis, which stays. `seen` holds the
letters before; a minus sign turns the rest off and may not stand last. -/
def read? (flags : PatternFlags) (seen : Text) : Text → Option (PatternFlags × Text)
  | [] => none
  | c :: t =>
    if c == ':' || c == ')' then
      if seen.head? == some '-' then none else some (flags, c :: t)
    else if seen.contains c then none
    else if c == '-' then flags.read? (c :: seen) t
    else (flags.set? c (!seen.contains '-')).bind fun flags => flags.read? (c :: seen) t

/-! ### Spacing -/

/-- Skips white space and comments; a comment goes on to the end of its line. -/
def skipFrom (inComment : Bool) : Text → Text
  | [] => []
  | c :: t =>
    if inComment then skipFrom (c != '\n') t
    else if c == '#' then skipFrom true t
    else if isBlankChar c then skipFrom false t
    else c :: t

/-- Skips white space and comments, where the flags ask for it. -/
def skip (flags : PatternFlags) (t : Text) : Text :=
  if flags.isSpaced then skipFrom false t else t

/-- Reads the characters up to the first that is not accepted. What may be skipped is skipped after
each of them. -/
def takeWhileWith (flags : PatternFlags) (accepts : Char → Bool) : Nat → Text → Text × Text
  | 0, t => ([], t)
  | _ + 1, [] => ([], [])
  | fuel + 1, c :: t =>
    if accepts c then
      let (taken, rest) := flags.takeWhileWith accepts fuel (flags.skip t)
      (c :: taken, rest)
    else ([], c :: t)

/-- Reads the characters up to the first that is not accepted, and skips what may be skipped. -/
def takeWhile (flags : PatternFlags) (accepts : Char → Bool) (t : Text) : Text × Text :=
  flags.takeWhileWith accepts t.length t

/-- The character after white space and the signs that comments begin with. The end of a line does
not end a comment here. -/
def nextBeyond (inComment : Bool) : Text → Option Char
  | [] => none
  | c :: t =>
    if isBlankChar c then nextBeyond inComment t
    else if !inComment && c == '#' then nextBeyond true t
    else some c

/-- The character by which it is decided whether a hyphen before a text makes a range. -/
def afterHyphen (flags : PatternFlags) (t : Text) : Option Char :=
  if flags.isSpaced then (nextBeyond false t).or t.head? else t.head?

/-! ### Characters -/

def ascii : CharSet :=
  ⟨[(0, 0x7F)]⟩

/-- A set with both cases of its letters, where the flags ask for it. -/
def fold (flags : PatternFlags) (set : CharSet) : CharSet :=
  if !flags.ignoresCase then set
  else if flags.isUnicode then set.folded
  else set.folded.inter ascii

/-- All but a set. It would hold more than ASCII characters. -/
def negate? (flags : PatternFlags) (isNot : Bool) (set : CharSet) : Option CharSet :=
  if !isNot then some set
  else if flags.isUnicode then some set.complement
  else none

def range? (flags : PatternFlags) (low high : Char) : Option CharSet :=
  if low ≤ high && (flags.isUnicode || high.toNat < 0x80) then some (.range low high) else none

end PatternFlags
end TagLint
