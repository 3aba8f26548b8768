import TagLint.Pattern.Basic
import TagLint.Pattern.Flags
import TagLint.Text.Letter
import TagLint.Unicode.Property

/-!
Escapes in patterns.

An escape is a character, a set of characters or a condition. A letter or digit without a meaning of
its own may not be escaped.
-/
namespace TagLint

/-- What an escape, or a character that is no operator, stands for. -/
inductive PatternAtom where
  | literal (c : Char)
  | set (chars : CharSet)
  | assertion (condition : Assertion)
  deriving DecidableEq, Repr

namespace PatternAtom

/-- The character with the given code in hexadecimal digits. -/
def ofHex? (digits : Text) : Option Char :=
  if digits.isEmpty then none
  else
    (digits.mapM hexValue?).bind fun values =>
      let n := values.foldl (fun n digit => n * 16 + digit) 0
      if n.isValidChar then some (Char.ofNat n) else none

def readDigits? (flags : PatternFlags) : Nat → Text → Option (Text × Text)
  | 0, t => some ([], t)
  | _ + 1, [] => none
  | count + 1, c :: t =>
    (readDigits? flags count (flags.skip t)).map fun (digits, rest) => (c :: digits, rest)

/-- Reads a hexadecimal escape after its letter: digits between braces, or a fixed number of them.
Two digits alone are a byte, which has to be a character where the flags ask for ASCII. -/
def readHex? (flags : PatternFlags) (size : Nat) (t : Text) : Option (PatternAtom × Text) :=
  match flags.skip t with
  | '\x7b' :: r =>
    match flags.takeWhile (· != '\x7d') (flags.skip r) with
    | (digits, '\x7d' :: rest) => (ofHex? digits).map fun c => (literal c, flags.skip rest)
    | _ => none
  | r =>
    (readDigits? flags size r).bind fun (digits, rest) =>
      (ofHex? digits).bind fun c =>
        if size == 2 && !flags.isUnicode && c.toNat ≥ 0x80 then none
        else some (literal c, rest)

/-- The set that the name of a property stands for; a value follows it after an equals sign, which
may be written with an exclamation mark, or after a colon. -/
def ofProperty? (name : Text) : Option CharSet :=
  match Text.find? "!=".toList name, Text.find? [':'] name, Text.find? ['='] name with
  | some (key, value), _, _ => Unicode.setValued? key (value.drop 2)
  | none, some (key, value), _ => Unicode.setValued? key (value.drop 1)
  | none, none, some (key, value) => Unicode.setValued? key (value.drop 1)
  | none, none, none => Unicode.setNamed? name

/-- Reads the name of a property: between braces, or one character. -/
def readName? (flags : PatternFlags) (t : Text) : Option (Text × Text) :=
  match flags.skip t with
  | [] => none
  | '\\' :: _ => none
  | '\x7b' :: r =>
    match flags.takeWhile (· != '\x7d') (flags.skip r) with
    | (name, '\x7d' :: rest) => some (name, rest)
    | _ => none
  | c :: rest => some ([c], flags.skip rest)

def readProperty? (flags : PatternFlags) (isNot : Bool) (t : Text) :
    Option (PatternAtom × Text) :=
  if !flags.isUnicode then none
  else
    (readName? flags t).bind fun (name, rest) =>
      (ofProperty? name).bind fun chars =>
        (flags.negate? isNot (flags.fold chars)).map fun chars => (set chars, rest)

def boundaries : List (String × WordCondition) :=
  [("start", .start), ("end", .stop), ("start-half", .startHalf), ("end-half", .stopHalf)]

def ofWord (flags : PatternFlags) (condition : WordCondition) : PatternAtom :=
  assertion (.word condition !flags.isUnicode)

/-- Whether a character may stand in the name of a word boundary. -/
def isBoundaryChar (c : Char) : Bool :=
  c.isAlpha || c == '-'

/-- Reads what follows a word boundary: the name of a side between braces. Where the braces begin
with no letter or hyphen, they are a repetition and stay. -/
def readBoundary? (flags : PatternFlags) (t : Text) : Option (PatternAtom × Text) :=
  match t with
  | '\x7b' :: r =>
    match flags.skip r with
    | [] => none
    | c :: inside =>
      if isBoundaryChar c then
        match flags.takeWhile isBoundaryChar (c :: inside) with
        | (name, '\x7d' :: rest) =>
          (boundaries.lookup (String.ofList name)).map fun condition =>
            (ofWord flags condition, rest)
        | _ => none
      else some (ofWord flags .boundary, t)
  | _ => some (ofWord flags .boundary, t)

/-- A set that has a narrower form for ASCII. -/
def ofClass? (flags : PatternFlags) (isNot : Bool) (wide narrow : CharSet) (t : Text) :
    Option (PatternAtom × Text) :=
  (flags.negate? isNot (if flags.isUnicode then wide else narrow)).map fun chars => (set chars, t)

def readDigit? (flags : PatternFlags) (isNot : Bool) (t : Text) : Option (PatternAtom × Text) :=
  ofClass? flags isNot Unicode.decimalDigits ⟨[(0x30, 0x39)]⟩ t

/-- Reads an escape for white space after its letter. -/
def readBlank? (flags : PatternFlags) (isNot : Bool) (t : Text) : Option (PatternAtom × Text) :=
  ofClass? flags isNot Unicode.whiteSpace ⟨[(0x9, 0xD), (0x20, 0x20)]⟩ t

def readWord? (flags : PatternFlags) (isNot : Bool) (t : Text) : Option (PatternAtom × Text) :=
  ofClass? flags isNot Unicode.wordCharacters
    ⟨[(0x30, 0x39), (0x41, 0x5A), (0x5F, 0x5F), (0x61, 0x7A)]⟩ t

def readEscape? (flags : PatternFlags) : Text → Option (PatternAtom × Text)
  | [] => none
  | c :: t =>
    match c with
    | 'd' => readDigit? flags false t
    | 'D' => readDigit? flags true t
    | 's' => readBlank? flags false t
    | 'S' => readBlank? flags true t
    | 'w' => readWord? flags false t
    | 'W' => readWord? flags true t
    | 'p' => readProperty? flags false t
    | 'P' => readProperty? flags true t
    | 'A' => some (assertion .textStart, t)
    | 'z' => some (assertion .textEnd, t)
    | 'b' => readBoundary? flags t
    | 'B' => some (ofWord flags .noBoundary, t)
    | '<' => some (ofWord flags .start, t)
    | '>' => some (ofWord flags .stop, t)
    | 'a' => some (literal '\x07', t)
    | 'f' => some (literal '\x0c', t)
    | 't' => some (literal '\t', t)
    | 'n' => some (literal '\n', t)
    | 'r' => some (literal '\r', t)
    | 'v' => some (literal '\x0b', t)
    | 'x' => readHex? flags 2 t
    | 'u' => readHex? flags 4 t
    | 'U' => readHex? flags 8 t
    | _ => if c.toNat < 128 && !c.isAlphanum then some (literal c, t) else none

end PatternAtom
end TagLint
