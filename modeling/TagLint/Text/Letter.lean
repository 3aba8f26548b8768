import TagLint.Text.Basic

/-!
The characters that markup itself knows: ASCII letters, ASCII white space, and hexadecimal digits.

Tag and attribute names are compared without regard to ASCII case; every other character stands
only for itself.
-/
namespace TagLint

/-- White space inside markup: space, tab, line feed, form feed and carriage return. -/
def isMarkupSpace (c : Char) : Bool :=
  c == ' ' || c == '\t' || c == '\n' || c == '\x0c' || c == '\r'

/-- The value of a hexadecimal digit. -/
def hexValue? (c : Char) : Option Nat :=
  if c.isDigit then some (c.toNat - '0'.toNat)
  else if 'a' ≤ c && c ≤ 'f' then some (c.toNat - 'a'.toNat + 10)
  else if 'A' ≤ c && c ≤ 'F' then some (c.toNat - 'A'.toNat + 10)
  else none

namespace Text

def lower (t : Text) : Text :=
  t.map Char.toLower

/-- Equality without regard to ASCII case. -/
def sameName (s t : Text) : Bool :=
  s.lower == t.lower

def startsWithName (needle t : Text) : Bool :=
  sameName (t.take needle.length) needle

/-- Whether `name` is in the list, without regard to ASCII case. -/
def isNamedIn (name : Text) (names : List Text) : Bool :=
  names.any (sameName name)

/-- Whether the first character is an ASCII letter. -/
def startsWithLetter : Text → Bool
  | [] => false
  | c :: _ => c.isAlpha

end Text
end TagLint
