import TagLint.Yaml.Scan

/-!
The node that a YAML text holds.

A text holds one document. An anchor has a number, the count of the names that anchors before it
have, and a reference the number of the last anchor of its name. So a name that is used again shares
its new number with the next new name.
-/
namespace TagLint.Yaml

/-- Where a node stands. -/
inductive Place where
  | block
  /-- As key or value in a block mapping, where a sequence needs no indentation of its own. -/
  | blockMember
  | flow
  deriving DecidableEq, Repr

/-- How far the tokens have been read. -/
structure Reader where
  tokens : List Token
  /-- What the tag handles stand for. -/
  handles : List (Text × Text)
  /-- The names of anchors with their numbers, each name once. -/
  names : List (Text × Nat)

namespace Reader

def goTo (r : Reader) (tokens : List Token) : Reader :=
  { r with tokens := tokens }

def nextNumber (r : Reader) : Nat :=
  r.names.length

def number (r : Reader) (name : Text) : Reader :=
  { r with names := (name, r.nextNumber) :: r.names.filter fun other => other.1 != name }

def numberIfAny (r : Reader) (anchor : Option Text) : Reader :=
  (anchor.map r.number).getD r

def anchor (r : Reader) (anchor : Option Text) (node : Yaml) : Yaml :=
  if anchor.isSome then .anchored r.nextNumber node else node

/-- The full text of a tag. -/
def resolve? (r : Reader) : Option (Text × Text) → Option (Option Text)
  | none => some none
  | some ([], suffix) => some (some suffix)
  | some (handle, suffix) => (r.handles.lookup handle).map fun meaning => some (meaning ++ suffix)

end Reader

/-- The anchor and the tag before a node, in either order, and the tokens after them. -/
def properties : List Token → Option Text × Option (Text × Text) × List Token
  | .anchor name :: .tag handle suffix :: ts => (some name, some (handle, suffix), ts)
  | .tag handle suffix :: .anchor name :: ts => (some name, some (handle, suffix), ts)
  | .anchor name :: ts => (some name, none, ts)
  | .tag handle suffix :: ts => (none, some (handle, suffix), ts)
  | ts => (none, none, ts)

def isNext (stops : List Token) (tokens : List Token) : Bool :=
  tokens.head?.any stops.contains

mutual

def node? (place : Place) : Nat → Reader → Option (Yaml × Reader)
  | 0, _ => none
  | fuel + 1, r =>
    match r.tokens with
    | .reference name :: ts =>
      (r.names.lookup name).map fun number => (.reference number, r.goTo ts)
    | tokens =>
      let (anchor, tag, ts) := properties tokens
      let outer := r
      (outer.resolve? tag).bind fun tag =>
        let r := (outer.goTo ts).numberIfAny anchor
        let read : Option (Yaml × Reader) :=
          match ts with
          | .scalar style text :: ts => some (.scalar tag style text, r.goTo ts)
          | .flowSequenceStart :: ts =>
            (flowItems? true fuel (r.goTo ts)).map fun (items, r) => (.sequence items, r)
          | .flowMappingStart :: ts =>
            (flowMembers? true fuel (r.goTo ts)).map fun (members, r) => (.mapping members, r)
          | first :: ts =>
            if first == .blockSequenceStart && place != .flow then
              (blockItems? fuel (r.goTo ts)).map fun (items, r) => (.sequence items, r)
            else if first == .blockMappingStart && place != .flow then
              (blockMembers? fuel (r.goTo ts)).map fun (members, r) => (.mapping members, r)
            else if first == .blockEntry && place == .blockMember then
              (openItems? fuel r).map fun (items, r) => (.sequence items, r)
            else if anchor.isSome || tag.isSome then some (.scalar tag .plain [], r)
            else none
          | [] => if anchor.isSome || tag.isSome then some (.scalar tag .plain [], r) else none
        read.map fun (node, r) => (outer.anchor anchor node, r)

def optionalNode? (place : Place) (stops : List Token) : Nat → Reader → Option (Yaml × Reader)
  | 0, _ => none
  | fuel + 1, r => if isNext stops r.tokens then some (nothing, r) else node? place fuel r

def blockItems? : Nat → Reader → Option (List Yaml × Reader)
  | 0, _ => none
  | fuel + 1, r =>
    match r.tokens with
    | .blockEntry :: ts =>
      (optionalNode? .block [.blockEntry, .blockEnd] fuel (r.goTo ts)).bind fun (item, r) =>
        (blockItems? fuel r).map fun (items, r) => (item :: items, r)
    | .blockEnd :: ts => some ([], r.goTo ts)
    | _ => none

/-- Reads the items of a block sequence that has no indentation of its own. -/
def openItems? : Nat → Reader → Option (List Yaml × Reader)
  | 0, _ => none
  | fuel + 1, r =>
    match r.tokens with
    | .blockEntry :: ts =>
      (optionalNode? .block [.blockEntry, .key, .value, .blockEnd] fuel (r.goTo ts)).bind
        fun (item, r) => (openItems? fuel r).map fun (items, r) => (item :: items, r)
    | _ => some ([], r)

/-- Reads the value that may stand after a key. -/
def value? (place : Place) (stops : List Token) : Nat → Reader → Option (Yaml × Reader)
  | 0, _ => none
  | fuel + 1, r =>
    match r.tokens with
    | .value :: ts => optionalNode? place stops fuel (r.goTo ts)
    | _ => some (nothing, r)

def blockMembers? : Nat → Reader → Option (List (Yaml × Yaml) × Reader)
  | 0, _ => none
  | fuel + 1, r =>
    let stops : List Token := [.key, .value, .blockEnd]
    match r.tokens with
    | .key :: ts =>
      (optionalNode? .blockMember stops fuel (r.goTo ts)).bind fun (key, r) =>
        (value? .blockMember stops fuel r).bind fun (value, r) =>
          (blockMembers? fuel r).map fun (members, r) => ((key, value) :: members, r)
    | .blockEnd :: ts => some ([], r.goTo ts)
    | _ => none

/-- Reads the rest of a flow sequence. Commas separate its items, and one may stand after the
last. -/
def flowItems? (isFirst : Bool) : Nat → Reader → Option (List Yaml × Reader)
  | 0, _ => none
  | fuel + 1, r =>
    match r.tokens with
    | .flowSequenceEnd :: ts => some ([], r.goTo ts)
    | tokens =>
      if !isFirst && !isNext [.flowEntry] tokens then none
      else
        let stops : List Token := [.value, .flowEntry, .flowSequenceEnd]
        let r := r.goTo (if isFirst then tokens else tokens.drop 1)
        match r.tokens with
        | .flowSequenceEnd :: ts => some ([], r.goTo ts)
        | .key :: ts =>
          (optionalNode? .flow stops fuel (r.goTo ts)).bind fun (key, r) =>
            (value? .flow [.flowEntry, .flowSequenceEnd] fuel r).bind fun (value, r) =>
              (flowItems? false fuel r).map fun (items, r) => (.mapping [(key, value)] :: items, r)
        | _ =>
          (node? .flow fuel r).bind fun (item, r) =>
            (flowItems? false fuel r).map fun (items, r) => (item :: items, r)

/-- Reads the rest of a flow mapping. Commas separate its members, and one may stand after the
last. -/
def flowMembers? (isFirst : Bool) : Nat → Reader → Option (List (Yaml × Yaml) × Reader)
  | 0, _ => none
  | fuel + 1, r =>
    match r.tokens with
    | .flowMappingEnd :: ts => some ([], r.goTo ts)
    | tokens =>
      if !isFirst && !isNext [.flowEntry] tokens then none
      else
        let stops : List Token := [.value, .flowEntry, .flowMappingEnd]
        let r := r.goTo (if isFirst then tokens else tokens.drop 1)
        match r.tokens with
        | .flowMappingEnd :: ts => some ([], r.goTo ts)
        | .key :: ts =>
          (optionalNode? .flow stops fuel (r.goTo ts)).bind fun (key, r) =>
            (value? .flow [.flowEntry, .flowMappingEnd] fuel r).bind fun (value, r) =>
              (flowMembers? false fuel r).map fun (members, r) => ((key, value) :: members, r)
        | _ =>
          (node? .flow fuel r).bind fun (key, r) =>
            (flowMembers? false fuel r).map fun (members, r) => ((key, nothing) :: members, r)

end

/-- The directives before a document. -/
structure Directives where
  hasVersion : Bool
  handles : List (Text × Text)
  deriving DecidableEq, Repr

/-- Reads the directives before a document: at most one version, and no handle twice. -/
def readDirectives? (directives : Directives) : List Token → Option (Directives × List Token)
  | .version major minor :: ts =>
    if !directives.hasVersion && major == 1 && (minor == 1 || minor == 2) then
      readDirectives? { directives with hasVersion := true } ts
    else none
  | .tagHandle handle meaning :: ts =>
    if (directives.handles.lookup handle).isSome then none
    else readDirectives? { directives with handles := directives.handles ++ [(handle, meaning)] } ts
  | ts => some (directives, ts)

/-- The handles that every document has, unless it says otherwise. -/
def commonHandles : List (Text × Text) :=
  [("!".toList, "!".toList), ("!!".toList, "tag:yaml.org,2002:".toList)]

def isContentMissing : List Token → Bool
  | .version _ _ :: _ => true
  | .tagHandle _ _ :: _ => true
  | ts => ts.isEmpty || isNext [.documentStart, .documentEnd] ts

/-- The node of the only document in some tokens. -/
def ofTokens? (tokens : List Token) : Option Yaml :=
  if tokens.isEmpty then some nothing
  else do
    let (directives, rest) ← readDirectives? ⟨false, []⟩ tokens
    let hasDirectives := directives.hasVersion || !directives.handles.isEmpty
    let hasStart := isNext [.documentStart] rest
    if hasDirectives && !hasStart then none
    else
      let content := if hasStart then rest.drop 1 else rest
      let reader : Reader := ⟨content, directives.handles ++ commonHandles, []⟩
      let (node, reader) ←
        if hasStart && isContentMissing content then some (nothing, reader)
        else node? .block (2 * content.length + 2) reader
      if (reader.tokens.dropWhile (· == .documentEnd)).isEmpty then some node else none

/-- The node of the only document in a text; `nothing` where there is none. -/
def read? (t : Text) : Option Yaml :=
  (scan? t).bind ofTokens?

end TagLint.Yaml
