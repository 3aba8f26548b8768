import TagLint.Yaml.Tag

/-!
Reading YAML scalars.

White space inside a scalar is held back until it is known what follows it. A single line break
between two parts is read as a space, and of several the first one is dropped.
-/
namespace TagLint.Yaml

/-- White space that is held back. -/
inductive Pending where
  | none
  /-- Blanks inside a line, the last first. -/
  | blanks (text : Text)
  | breaks (first : Text) (others : Text)
  deriving DecidableEq, Repr

namespace Pending

/-- Adds a blank. Blanks around line breaks are dropped. -/
def addBlank (c : Char) : Pending → Pending
  | none => blanks [c]
  | blanks text => blanks (c :: text)
  | breaks first others => breaks first others

def addBreak (text : Text) : Pending → Pending
  | breaks first others => breaks first (others ++ text)
  | _ => breaks text []

/-- What the white space is read as when more text follows. -/
def text : Pending → Text
  | none => []
  | blanks text => text.reverse
  | breaks first others =>
    if first == ['\n'] then (if others.isEmpty then [' '] else others) else first ++ others

/-- Whether a line break is among it. -/
def isBroken : Pending → Bool
  | breaks _ _ => true
  | _ => false

end Pending

def isFlowIndicator (c : Char) : Bool :=
  c == ',' || c == '[' || c == ']' || c == '\x7b' || c == '\x7d'

/-- A scalar that has been read: its text, the rest, and whether the rest starts on a later
line. -/
structure ScalarReading where
  text : Text
  rest : Text
  isBroken : Bool
  deriving DecidableEq, Repr

/-- Reads a plain scalar. `column` is where the text stands, and lines that continue the scalar
start at column `indent` or later. `read` is what is read before, the last first. -/
def readPlain? (inFlow : Bool) (indent : Nat) (column : Nat) (read : Text) (pending : Pending) :
    Text → Option ScalarReading
  | [] => some ⟨read.reverse, [], pending.isBroken⟩
  | '\r' :: '\n' :: t => readPlain? inFlow indent 0 read (pending.addBreak ['\n']) t
  | c :: t =>
    let done : ScalarReading := ⟨read.reverse, c :: t, pending.isBroken⟩
    if isBreak c then
      let text := if c == '\u2028' || c == '\u2029' then [c] else ['\n']
      readPlain? inFlow indent 0 read (pending.addBreak text) t
    else if isBlank c then
      if pending.isBroken && column < indent && c == '\t' then none
      else readPlain? inFlow indent (column + 1) read (pending.addBlank c) t
    else if pending.isBroken && !inFlow && column < indent then some done
    else if column == 0 && atDocumentMark (c :: t) then some done
    else if c == '#' && pending != .none then some done
    else if inFlow && c == ':' && t.head?.any fun d => isFlowIndicator d || d == '?' then none
    else if (c == ':' && atSpace t) || (inFlow && isFlowIndicator c) then some done
    else
      readPlain? inFlow indent (column + 1) (c :: pending.text.reverse ++ read) .none t

/-- The character of a one-letter escape. -/
def escapedChar? : Char → Option Char
  | '0' => some '\x00'
  | 'a' => some '\x07'
  | 'b' => some '\x08'
  | 't' => some '\t'
  | '\t' => some '\t'
  | 'n' => some '\n'
  | 'v' => some '\x0b'
  | 'f' => some '\x0c'
  | 'r' => some '\r'
  | 'e' => some '\x1b'
  | ' ' => some ' '
  | '"' => some '"'
  | '/' => some '/'
  | '\\' => some '\\'
  | 'N' => some '\x85'
  | '_' => some '\xa0'
  | 'L' => some '\u2028'
  | 'P' => some '\u2029'
  | _ => none

/-- The number of digits of a hexadecimal escape. -/
def hexLength? : Char → Option Nat
  | 'x' => some 2
  | 'u' => some 4
  | 'U' => some 8
  | _ => none

/-- How far an escape has been read. -/
inductive EscapeStage where
  | none
  /-- After the backslash. -/
  | started
  /-- After a backslash, a carriage return and perhaps a line feed. -/
  | broken
  | hex (missing value : Nat)
  deriving DecidableEq, Repr

def readQuoted? (quote : Char) (column : Nat) (read : Text) (pending : Pending) :
    EscapeStage → Text → Option ScalarReading
  | _, [] => none
  | .none, c :: t =>
    let joined := pending.text.reverse ++ read
    if isBreak c then
      if c == '\r' && t.head? == some '\n' then
        readQuoted? quote column read pending .none t
      else
        let text := if c == '\u2028' || c == '\u2029' then [c] else ['\n']
        readQuoted? quote 0 read (pending.addBreak text) .none t
    else if isBlank c then readQuoted? quote (column + 1) read (pending.addBlank c) .none t
    else if column == 0 && atDocumentMark (c :: t) then none
    else if c == quote then
      if quote == '\'' && t.head? == some '\'' then
        readQuoted? quote (column + 1) joined .none .started t
      else some ⟨joined.reverse, t, false⟩
    else if c == '\\' && quote == '"' then
      readQuoted? quote (column + 1) joined .none .started t
    else readQuoted? quote (column + 1) (c :: joined) .none .none t
  | .started, c :: t =>
    if quote == '\'' then readQuoted? quote (column + 1) (c :: read) .none .none t
    else if isBreak c then
      if c == '\r' && t.head? == some '\n' then
        readQuoted? quote column read .none .broken t
      else readQuoted? quote 0 read (.breaks [] []) .none t
    else match escapedChar? c, hexLength? c with
      | some d, _ => readQuoted? quote (column + 1) (d :: read) .none .none t
      | none, some length => readQuoted? quote (column + 1) read .none (.hex length 0) t
      | none, none => none
  | .broken, _ :: t => readQuoted? quote 0 read (.breaks [] []) .none t
  | .hex missing value, c :: t =>
    match hexValue? c with
    | none => none
    | some digit =>
      let next := value * 16 + digit
      if missing ≤ 1 then
        if next.isValidChar then
          readQuoted? quote (column + 1) (Char.ofNat next :: read) .none .none t
        else none
      else readQuoted? quote (column + 1) read .none (.hex (missing - 1) next) t

/-- What becomes of the line breaks at the end of a block scalar. -/
inductive Chomping where
  | strip
  | clip
  | keep
  deriving DecidableEq, Repr

/-- The first line of a block scalar: the chomping and the explicit indentation. -/
structure BlockHeader where
  chomping : Chomping
  increment : Option Nat
  deriving DecidableEq, Repr

namespace BlockHeader

/-- Reads the signs after the indicator, in either order. -/
def read? (header : BlockHeader) : Nat → Text → Option (BlockHeader × Text)
  | 0, t => some (header, t)
  | fuel + 1, c :: t =>
    if (c == '+' || c == '-') && header.chomping == .clip then
      ({ header with chomping := if c == '+' then .keep else .strip } : BlockHeader).read? fuel t
    else if c.isDigit && header.increment.isNone then
      if c == '0' then none
      else ({ header with increment := some (c.toNat - '0'.toNat) } : BlockHeader).read? fuel t
    else some (header, c :: t)
  | _, [] => some (header, [])

end BlockHeader

/-- Skips empty lines and indentation inside a block scalar, up to `indent` columns where that is
known: the breaks skipped, the greatest column met, the column reached, and the rest. -/
def skipIndentation? (indent : Option Nat) :
    Nat → Nat → Nat → Text → Text → Option (Text × Nat × Nat × Text)
  | 0, _, _, _, _ => none
  | fuel + 1, widest, column, breaks, t =>
    match t with
    | [] => some (breaks, max widest column, column, [])
    | c :: r =>
      let isInside := indent.all (column < ·)
      if isInside && c == ' ' then skipIndentation? indent fuel widest (column + 1) breaks r
      else if isInside && c == '\t' then none
      else match splitBreak? (c :: r) with
        | some (text, rest) =>
          skipIndentation? indent fuel (max widest column) 0 (breaks ++ text) rest
        | none => some (breaks, max widest column, column, c :: r)

/-- Reads the lines of a block scalar that stand at column `indent`. `isLiteral` tells whether line
breaks stay; `wasBlank` whether the line before starts with a blank. -/
def readBlockLines? (isLiteral : Bool) (indent : Nat) (chomping : Chomping) :
    Nat → Text → Text → Text → Bool → Nat → Text → Option ScalarReading
  | 0, _, _, _, _, _, _ => none
  | fuel + 1, read, lead, trail, wasBlank, column, t =>
    if column == indent && !t.isEmpty then
      let isBlankLine := t.head?.any isBlank
      let joint :=
        if !isLiteral && lead == ['\n'] && !wasBlank && !isBlankLine then
          (if trail.isEmpty then [' '] else [])
        else lead
      let line := t.takeWhile fun c => !isBreak c
      let (newLead, rest) := (splitBreak? (t.drop line.length)).getD ([], [])
      (skipIndentation? (some indent) (rest.length + 1) 0 0 [] rest).bind
        fun (breaks, _, column, rest) =>
          readBlockLines? isLiteral indent chomping fuel (read ++ joint ++ trail ++ line) newLead
            breaks isBlankLine column rest
    else
      let tail := match chomping with
        | .strip => []
        | .clip => lead
        | .keep => lead ++ trail
      some ⟨read ++ tail, t, true⟩

/-- Reads a block scalar after its indicator; `outer` is the indentation around it, one more than
its column. -/
def readBlock? (isLiteral : Bool) (outer : Nat) (t : Text) : Option ScalarReading :=
  (BlockHeader.read? ⟨.clip, none⟩ 2 t).bind fun (header, rest) =>
    (skipLineEnd? rest).bind fun rest =>
      let known := header.increment.map fun n => (if outer > 0 then outer - 1 else 0) + n
      (skipIndentation? known (rest.length + 1) 0 0 [] rest).bind
        fun (breaks, widest, column, rest) =>
          let indent := known.getD (max (max widest outer) 1)
          readBlockLines? isLiteral indent header.chomping (rest.length + 1) [] [] breaks false
            column rest

end TagLint.Yaml
