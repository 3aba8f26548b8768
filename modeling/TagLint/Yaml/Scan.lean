import TagLint.Yaml.Scalar

/-!
The tokens of a YAML text.

A node that starts a line, or follows an indicator, may turn out to be the key of a mapping when a
colon follows it on the same line. Its place in the token list is kept until then, and the tokens
that open a key are put there afterwards.
-/
namespace TagLint.Yaml

/-- A node that may turn out to be a key. -/
structure PossibleKey where
  /-- Whether nothing but a key can stand there. -/
  isRequired : Bool
  /-- The number of tokens before it. -/
  tokensBefore : Nat
  mark : Mark
  deriving DecidableEq, Repr

/-- How far a text has been scanned. -/
structure Scanner where
  rest : Text
  mark : Mark
  /-- The columns of the open block collections, the innermost first. -/
  indents : List Nat
  /-- The possible key in the innermost open flow collection, or outside them. -/
  key : Option PossibleKey
  /-- The possible keys around the open flow collections, the innermost first. -/
  outerKeys : List (Option PossibleKey)
  /-- Whether a key may start here. -/
  allowsKey : Bool
  /-- The tokens so far, the last first. -/
  tokens : List Token
  deriving DecidableEq, Repr

namespace Scanner

def ofText (t : Text) : Scanner :=
  ⟨t, ⟨0, 0, 0⟩, [], none, [], true, []⟩

/-- Whether a flow collection is open. -/
def inFlow (s : Scanner) : Bool :=
  !s.outerKeys.isEmpty

/-- The column at which the next inner collection can stand. -/
def innerIndent (s : Scanner) : Nat :=
  (s.indents.head?.map (· + 1)).getD 0

def push (token : Token) (s : Scanner) : Scanner :=
  { s with tokens := token :: s.tokens }

/-- Adds a token after the first `before` ones. -/
def insert (before : Nat) (token : Token) (s : Scanner) : Scanner :=
  let later := s.tokens.length - before
  { s with tokens := s.tokens.take later ++ token :: s.tokens.drop later }

def moveTo (rest : Text) (s : Scanner) : Scanner :=
  { s with rest := rest, mark := s.mark.after (s.rest.take (s.rest.length - rest.length)) }

/-- Goes on after some characters. -/
def skip (count : Nat) (s : Scanner) : Scanner :=
  s.moveTo (s.rest.drop count)

/-- Says whether a key may start at the next token. -/
def allowKey (allows : Bool) (s : Scanner) : Scanner :=
  { s with allowsKey := allows }

def openBlock (column before : Nat) (token : Token) (s : Scanner) : Scanner :=
  if s.inFlow || column < s.innerIndent then s
  else { s.insert before token with indents := column :: s.indents }

def closeBlocks (column : Option Nat) (s : Scanner) : Scanner :=
  if s.inFlow then s
  else
    let isInner (indent : Nat) : Bool := column.all (· < indent)
    { s with
      indents := s.indents.dropWhile isInner
      tokens := (s.indents.takeWhile isInner).map (fun _ => .blockEnd) ++ s.tokens }

/-- Gives up the possible key. -/
def forgetKey? (s : Scanner) : Option Scanner :=
  if s.key.any PossibleKey.isRequired then none else some { s with key := none }

/-- Notes that the next token may start a key. -/
def noteKey? (s : Scanner) : Option Scanner :=
  if s.allowsKey then
    let isRequired := !s.inFlow && s.indents.head? == some s.mark.column
    s.forgetKey?.map fun s => { s with key := some ⟨isRequired, s.tokens.length, s.mark⟩ }
  else some s

/-- Drops a possible key that lies on an earlier line or too far back. -/
def renewKey? (mark : Mark) : Option PossibleKey → Option (Option PossibleKey)
  | none => some none
  | some key =>
    if key.mark.line < mark.line || key.mark.index + 1024 < mark.index then
      if key.isRequired then none else some none
    else some (some key)

/-- Skips white space and comments: whether a key may start now, and the rest. In block
collections, tabs do not count as white space where a key may start. A mark of the byte order may
start a line, and takes a column of it. -/
def skipSpace (inFlow : Bool) (column : Nat) (allowsKey inComment : Bool) : Text → Bool × Text
  | [] => (allowsKey, [])
  | '\r' :: '\n' :: t => skipSpace inFlow 0 (allowsKey || !inFlow) false t
  | c :: t =>
    if isBreak c then skipSpace inFlow 0 (allowsKey || !inFlow) false t
    else if inComment then skipSpace inFlow (column + 1) allowsKey true t
    else if c == ' ' || (c == '\t' && (inFlow || !allowsKey)) || (c == '\ufeff' && column == 0) then
      skipSpace inFlow (column + 1) allowsKey false t
    else if c == '#' then skipSpace inFlow (column + 1) allowsKey true t
    else (allowsKey, c :: t)

/-- Goes on to the next token: possible keys that lie too far back are dropped, and block
collections that are further in are closed. -/
def settle? (s : Scanner) : Option Scanner := do
  let (allows, rest) := skipSpace s.inFlow s.mark.column s.allowsKey false s.rest
  let s := (s.moveTo rest).allowKey allows
  let key ← renewKey? s.mark s.key
  let outerKeys ← s.outerKeys.mapM (renewKey? s.mark)
  return closeBlocks (some s.mark.column) { s with key := key, outerKeys := outerKeys }

/-- The end of the text. -/
def finish? (s : Scanner) : Option (List Token) :=
  (s.closeBlocks none).forgetKey?.map fun s => s.tokens.reverse

def scanNode? (s : Scanner) (read : Text → Option (Token × Text)) : Option Scanner := do
  let s ← s.noteKey?
  let (token, rest) ← read s.rest
  return ((s.allowKey false).push token).moveTo rest

/-- Scans the directive or document indicator that ends a document. -/
def scanBoundary? (s : Scanner) (read : Text → Option (Token × Text)) : Option Scanner := do
  let s ← (s.closeBlocks none).forgetKey?
  let (token, rest) ← read s.rest
  return ((s.allowKey false).push token).moveTo rest

def scanFlowStart? (s : Scanner) (token : Token) : Option Scanner := do
  let s ← s.noteKey?
  let s := { s with outerKeys := s.key :: s.outerKeys, key := none }
  return ((s.allowKey true).push token).skip 1

def scanFlowEnd? (s : Scanner) (token : Token) : Option Scanner := do
  let s ← s.forgetKey?
  let s := match s.outerKeys with
    | [] => s
    | key :: others => { s with outerKeys := others, key := key }
  return ((s.allowKey false).push token).skip 1

/-- Scans the comma between the items of a flow collection. -/
def scanFlowEntry? (s : Scanner) : Option Scanner :=
  s.forgetKey?.map fun s => ((s.allowKey true).push .flowEntry).skip 1

def startBlock? (s : Scanner) (token : Token) : Option Scanner :=
  if s.inFlow then some s
  else if s.allowsKey then some (s.openBlock s.mark.column s.tokens.length token)
  else none

def scanBlockEntry? (s : Scanner) : Option Scanner := do
  let s ← (← s.startBlock? .blockSequenceStart).forgetKey?
  return ((s.allowKey true).push .blockEntry).skip 1

def scanKey? (s : Scanner) : Option Scanner := do
  let s ← (← s.startBlock? .blockMappingStart).forgetKey?
  return ((s.allowKey !s.inFlow).push .key).skip 1

/-- Scans the indicator of a value, which tells that the node before it is a key. -/
def scanValue? (s : Scanner) : Option Scanner :=
  match s.key with
  | some key =>
    let s := (s.insert key.tokensBefore .key).openBlock key.mark.column key.tokensBefore
      .blockMappingStart
    some (((({ s with key := none } : Scanner).allowKey false).push .value).skip 1)
  | none => do
    let s ← s.startBlock? .blockMappingStart
    return ((s.allowKey !s.inFlow).push .value).skip 1

/-- Scans a block scalar, after whose lines a key may start. -/
def scanBlockScalar? (s : Scanner) (style : YamlStyle) : Option Scanner := do
  let s ← s.forgetKey?
  let reading ← readBlock? (style == .literal) s.innerIndent (s.rest.drop 1)
  return ((s.allowKey true).push (.scalar style reading.text)).moveTo reading.rest

/-- Scans a plain scalar, after which a key may start if it ends on an earlier line. -/
def scanPlain? (s : Scanner) : Option Scanner := do
  let s ← s.noteKey?
  let reading ← readPlain? s.inFlow s.innerIndent s.mark.column [] .none s.rest
  return ((s.allowKey reading.isBroken).push (.scalar .plain reading.text)).moveTo reading.rest

def indicator (token : Token) (length : Nat) (t : Text) : Option (Token × Text) :=
  some (token, t.drop length)

def quotedScalar? (quote : Char) (column : Nat) (t : Text) : Option (Token × Text) :=
  (readQuoted? quote (column + 1) [] .none .none (t.drop 1)).map fun reading =>
    (.scalar .quoted reading.text, reading.rest)

/-- The token of a name after its indicator. -/
def named? (token : Text → Token) (t : Text) : Option (Token × Text) :=
  (readAnchorName? (t.drop 1)).map fun (name, rest) => (token name, rest)

/-- Whether a plain scalar can start with a character before a text. -/
def startsPlain (inFlow : Bool) (c : Char) (next : Text) : Bool :=
  (!isBlank c && !"-?:,[]#&*!|>'\"%@\x60\x7b\x7d".toList.contains c) ||
    (c == '-' && !next.head?.any isBlank) ||
    (!inFlow && (c == '?' || c == ':') && !atSpace next)

/-- Scans the token at the start of the rest, whose first character is given. -/
def scanToken? (s : Scanner) (c : Char) (next : Text) : Option Scanner :=
  let isIndicator := s.inFlow || atSpace next
  if s.mark.column == 0 && c == '%' then s.scanBoundary? fun t => readDirective? (t.drop 1)
  else if s.mark.column == 0 && atDocumentMark s.rest then
    s.scanBoundary? (indicator (if c == '-' then .documentStart else .documentEnd) 3)
  else if c == '[' then s.scanFlowStart? .flowSequenceStart
  else if c == '\x7b' then s.scanFlowStart? .flowMappingStart
  else if c == ']' then s.scanFlowEnd? .flowSequenceEnd
  else if c == '\x7d' then s.scanFlowEnd? .flowMappingEnd
  else if c == ',' then s.scanFlowEntry?
  else if c == '-' && atSpace next then s.scanBlockEntry?
  else if c == '?' && isIndicator then s.scanKey?
  else if c == ':' && isIndicator then s.scanValue?
  else if c == '*' then s.scanNode? (named? .reference)
  else if c == '&' then s.scanNode? (named? .anchor)
  else if c == '!' then s.scanNode? fun t => readTag? s.inFlow (t.drop 1)
  else if c == '|' && !s.inFlow then s.scanBlockScalar? .literal
  else if c == '>' && !s.inFlow then s.scanBlockScalar? .folded
  else if c == '\'' || c == '"' then s.scanNode? (quotedScalar? c s.mark.column)
  else if startsPlain s.inFlow c next then s.scanPlain?
  else none

/-- Scans the rest; every token takes at least one character. -/
def scanWith? : Nat → Scanner → Option (List Token)
  | 0, _ => none
  | fuel + 1, s =>
    s.settle?.bind fun s =>
      match s.rest with
      | [] => s.finish?
      | c :: next => (s.scanToken? c next).bind (scanWith? fuel)

end Scanner

/-- The tokens of a text, unless it is malformed. -/
def scan? (t : Text) : Option (List Token) :=
  if t.all isAllowed then (Scanner.ofText t).scanWith? (t.length + 1) else none

end TagLint.Yaml
