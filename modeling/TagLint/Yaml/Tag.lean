import TagLint.Text.Letter
import TagLint.Yaml.Basic

/-! Reading the names, tags and directives of YAML. -/
namespace TagLint.Yaml

/-- Whether a character may stand in the name of an anchor, a handle or a directive. -/
def isNameChar (c : Char) : Bool :=
  c.isAlphanum || c == '_' || c == '-'

def splitName (t : Text) : Text × Text :=
  (t.takeWhile isNameChar, t.dropWhile isNameChar)

/-- Reads the name of an anchor or reference, after which a blank or an indicator stands. -/
def readAnchorName? (t : Text) : Option (Text × Text) :=
  let (name, rest) := splitName t
  let ends := atSpace rest || rest.head?.any fun c => "?:,]%@\x60\x7d".toList.contains c
  if !name.isEmpty && ends then some (name, rest) else none

/-- Whether a character may stand in the text of a tag, apart from escapes. Only verbatim tags and
directives may hold the indicators of flow collections. -/
def isTagChar (isVerbatim : Bool) (c : Char) : Bool :=
  isNameChar c || ";/?:@&=+$.!~*'()".toList.contains c || (isVerbatim && ",[]".toList.contains c)

/-- The byte of an escape: a percent sign and two hexadecimal digits. -/
def escapedByte? : Text → Option (Nat × Text)
  | '%' :: a :: b :: t =>
    match hexValue? a, hexValue? b with
    | some high, some low => some (high * 16 + low, t)
    | _, _ => none
  | _ => none

/-- Reads the continuation bytes of an escaped character. -/
def escapedTail? : Nat → Nat → Text → Option (Nat × Text)
  | 0, value, t => some (value, t)
  | count + 1, value, t =>
    (escapedByte? t).bind fun (byte, rest) =>
      if byte / 64 == 2 then escapedTail? count (value * 64 + byte % 64) rest else none

/-- Reads an escaped character, byte by byte of its UTF-8 form. -/
def escapedTagChar? (t : Text) : Option (Char × Text) :=
  (escapedByte? t).bind fun (byte, rest) =>
    let start : Option (Nat × Nat) :=
      if byte < 0x80 then some (0, byte)
      else if byte / 32 == 6 then some (1, byte % 32)
      else if byte / 16 == 14 then some (2, byte % 16)
      else if byte / 8 == 30 then some (3, byte % 8)
      else none
    start.bind fun (count, value) =>
      (escapedTail? count value rest).map fun (value, rest) => (Char.ofNat value, rest)

def readTagTextWith? (isVerbatim : Bool) : Nat → Text → Text → Option (Text × Text)
  | 0, _, _ => none
  | _ + 1, read, [] => some (read.reverse, [])
  | fuel + 1, read, c :: t =>
    if c == '%' then
      (escapedTagChar? (c :: t)).bind fun (d, rest) =>
        readTagTextWith? isVerbatim fuel (d :: read) rest
    else if isTagChar isVerbatim c then readTagTextWith? isVerbatim fuel (c :: read) t
    else some (read.reverse, c :: t)

def readTagText? (isVerbatim : Bool) (t : Text) : Option (Text × Text) :=
  readTagTextWith? isVerbatim (t.length + 1) [] t

def readSomeTagText? (isVerbatim : Bool) (t : Text) : Option (Text × Text) :=
  (readTagText? isVerbatim t).filter fun (text, _) => !text.isEmpty

/-- Reads the tag after its exclamation mark, as handle and suffix. -/
def readTagParts? : Text → Option ((Text × Text) × Text)
  | '<' :: t =>
    (readSomeTagText? true t).bind fun (text, rest) =>
      if rest.head? == some '>' then some (([], text), rest.drop 1) else none
  | t =>
    let (name, rest) := splitName t
    if rest.head? == some '!' then
      (readSomeTagText? false (rest.drop 1)).map fun (text, rest) =>
        ((['!'] ++ name ++ ['!'], text), rest)
    else
      (readTagText? false rest).map fun (text, rest) =>
        let suffix := name ++ text
        (if suffix.isEmpty then ([], ['!']) else (['!'], suffix), rest)

/-- Reads a tag after its exclamation mark. A blank follows it, or a comma inside a flow
collection. -/
def readTag? (inFlow : Bool) (t : Text) : Option (Token × Text) :=
  (readTagParts? t).bind fun ((handle, suffix), rest) =>
    if atSpace rest || (inFlow && rest.head? == some ',') then some (.tag handle suffix, rest)
    else none

def readVersionNumber? (t : Text) : Option (Nat × Text) :=
  let digits := t.takeWhile Char.isDigit
  if digits.isEmpty || digits.length > 9 then none
  else some (digits.foldl (fun n c => n * 10 + (c.toNat - '0'.toNat)) 0, t.drop digits.length)

def readVersion? (t : Text) : Option (Token × Text) :=
  (readVersionNumber? (t.dropWhile isBlank)).bind fun (major, rest) =>
    if rest.head? == some '.' then
      (readVersionNumber? (rest.drop 1)).map fun (minor, rest) => (.version major minor, rest)
    else none

/-- Reads the handle in a tag directive: one exclamation mark, or a name between two. -/
def readHandle? : Text → Option (Text × Text)
  | '!' :: t =>
    let (name, rest) := splitName t
    if rest.head? == some '!' then some (['!'] ++ name ++ ['!'], rest.drop 1)
    else if name.isEmpty then some (['!'], rest)
    else none
  | _ => none

def readTagHandle? (t : Text) : Option (Token × Text) :=
  (readHandle? (t.dropWhile isBlank)).bind fun (handle, rest) =>
    if rest.head?.any isBlank then
      (readSomeTagText? true (rest.dropWhile isBlank)).bind fun (meaning, rest) =>
        if atSpace rest then some (.tagHandle handle meaning, rest) else none
    else none

/-- Skips the rest of a line that holds at most a comment. -/
def skipLineEnd? (t : Text) : Option Text :=
  let rest := t.dropWhile isBlank
  let rest := if rest.head? == some '#' then rest.dropWhile fun c => !isBreak c else rest
  match rest with
  | [] => some []
  | _ => (splitBreak? rest).map Prod.snd

/-- Reads a directive after its percent sign, with its line. -/
def readDirective? (t : Text) : Option (Token × Text) :=
  let (name, rest) := splitName t
  let read :=
    if !atSpace rest then none
    else if name == "YAML".toList then readVersion? rest
    else if name == "TAG".toList then readTagHandle? rest
    else none
  read.bind fun (token, rest) => (skipLineEnd? rest).map fun rest => (token, rest)

end TagLint.Yaml
