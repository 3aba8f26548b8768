import TagLint.Json.Basic

/-!
Writing JSON.

The compact layout has no white space. The indented layout puts each item on a line of its own,
two spaces deeper than its container, and a space after each colon; an empty container stays on
one line. Inside strings the quote, the backslash and the control characters are escaped, and
where the output is to be ASCII, every character above the tilde as its UTF-16 units.
-/
namespace TagLint.Json

/-- Which characters of a string are written as themselves. -/
inductive Charset where
  | unicode
  | ascii
  deriving DecidableEq, Repr

/-- Four hexadecimal digits. -/
def hexUnit (n : Nat) : Text :=
  [12, 8, 4, 0].map fun shift => Nat.digitChar ((n >>> shift) % 16)

def unitEscape (n : Nat) : Text :=
  '\\' :: 'u' :: hexUnit n

/-- A character above the tilde, as one or two UTF-16 units. -/
def asciiChar (c : Char) : Text :=
  if c.toNat < 0x10000 then unitEscape c.toNat
  else
    unitEscape (0xD800 + (c.toNat - 0x10000) / 0x400) ++
      unitEscape (0xDC00 + (c.toNat - 0x10000) % 0x400)

/-- A character inside a string. -/
def stringChar (charset : Charset) (c : Char) : Text :=
  match c with
  | '"' => ['\\', '"']
  | '\\' => ['\\', '\\']
  | '\n' => ['\\', 'n']
  | '\r' => ['\\', 'r']
  | '\t' => ['\\', 't']
  | '\x08' => ['\\', 'b']
  | '\x0c' => ['\\', 'f']
  | c =>
    if c.toNat < 0x20 then unitEscape c.toNat
    else if charset == .ascii && c.toNat > 0x7E then asciiChar c
    else [c]

def stringText (charset : Charset) (s : String) : Text :=
  '"' :: s.toList.flatMap (stringChar charset) ++ ['"']

/-- A line break and `depth` steps of indentation. -/
def newline (depth : Nat) : Text :=
  '\n' :: List.replicate (2 * depth) ' '

mutual

/-- The value in the compact layout. -/
def compact (charset : Charset) : Json → Text
  | null => "null".toList
  | bool true => "true".toList
  | bool false => "false".toList
  | number literal => literal
  | string s => stringText charset s
  | array items => '[' :: compactItems charset true items ++ [']']
  | object members => '\x7b' :: compactMembers charset true members ++ ['\x7d']

/-- Items with commas between them. -/
def compactItems (charset : Charset) (isFirst : Bool) : List Json → Text
  | [] => []
  | item :: items =>
    (if isFirst then [] else [',']) ++ compact charset item ++ compactItems charset false items

/-- Members with commas between them. -/
def compactMembers (charset : Charset) (isFirst : Bool) : List (String × Json) → Text
  | [] => []
  | (key, value) :: members =>
    (if isFirst then [] else [',']) ++ stringText charset key ++ ':' :: compact charset value ++
      compactMembers charset false members

end

mutual

/-- The value in the indented layout, `depth` steps deep. -/
def indented (depth : Nat) : Json → Text
  | null => "null".toList
  | bool true => "true".toList
  | bool false => "false".toList
  | number literal => literal
  | string s => stringText .unicode s
  | array [] => "[]".toList
  | array (item :: items) =>
    '[' :: indentedItems (depth + 1) true (item :: items) ++ newline depth ++ [']']
  | object [] => ['\x7b', '\x7d']
  | object (member :: members) =>
    '\x7b' :: indentedMembers (depth + 1) true (member :: members) ++ newline depth ++ ['\x7d']

/-- Items on lines of their own. -/
def indentedItems (depth : Nat) (isFirst : Bool) : List Json → Text
  | [] => []
  | item :: items =>
    (if isFirst then [] else [',']) ++ newline depth ++ indented depth item ++
      indentedItems depth false items

/-- Members on lines of their own. -/
def indentedMembers (depth : Nat) (isFirst : Bool) : List (String × Json) → Text
  | [] => []
  | (key, value) :: members =>
    (if isFirst then [] else [',']) ++ newline depth ++ stringText .unicode key ++ ':' :: ' ' ::
      indented depth value ++ indentedMembers depth false members

end

end TagLint.Json
