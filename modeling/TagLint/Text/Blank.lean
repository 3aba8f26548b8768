import TagLint.Text.Basic

/-!
White space of text content: the characters with the Unicode property `White_Space`, and the
trimming of text by it.
-/
namespace TagLint

/-- The Unicode property `White_Space`. -/
def isBlankChar (c : Char) : Bool :=
  let n := c.toNat
  (0x9 ≤ n && n ≤ 0xD) || n == 0x20 || n == 0x85 || n == 0xA0 || n == 0x1680 ||
    (0x2000 ≤ n && n ≤ 0x200A) || n == 0x2028 || n == 0x2029 || n == 0x202F || n == 0x205F ||
    n == 0x3000

namespace Text

def leadingBlanks (t : Text) : Text :=
  t.takeWhile isBlankChar

def trailingBlanks (t : Text) : Text :=
  (t.reverse.takeWhile isBlankChar).reverse

/-- The text after its leading blanks. -/
def trimStart (t : Text) : Text :=
  t.dropWhile isBlankChar

/-- The text before its trailing blanks. -/
def trimEnd (t : Text) : Text :=
  (t.reverse.dropWhile isBlankChar).reverse

/-- The text between its leading and its trailing blanks. -/
def trim (t : Text) : Text :=
  t.trimStart.trimEnd

/-- Whether there is nothing but blanks. -/
def isBlank (t : Text) : Bool :=
  t.all isBlankChar

end Text
end TagLint
