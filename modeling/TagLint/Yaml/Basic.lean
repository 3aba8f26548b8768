import TagLint.Text.Basic

/-!
YAML documents, their nodes together with what the references in them stand for, and the tokens
that they are written with.
-/
namespace TagLint

/-- How a scalar is written. -/
inductive YamlStyle where
  | plain
  | quoted
  /-- A block whose line breaks stay. -/
  | literal
  /-- A block whose lines are joined. -/
  | folded
  deriving DecidableEq, Repr

/-- A YAML node. -/
inductive Yaml where
  | scalar (tag : Option Text) (style : YamlStyle) (text : Text)
  | sequence (items : List Yaml)
  | mapping (members : List (Yaml × Yaml))
  | anchored (number : Nat) (node : Yaml)
  /-- What stands for the node whose anchor has a number. -/
  | reference (number : Nat)

namespace Yaml

/-- The scalar that stands where nothing is written. -/
def nothing : Yaml :=
  scalar none .plain []

mutual

/-- The nodes with anchors in a node, itself included, the one that starts last first. -/
def anchors : Yaml → List (Nat × Yaml)
  | scalar _ _ _ => []
  | sequence items => anchorsOfItems items
  | mapping members => anchorsOfMembers members
  | anchored number node => anchors node ++ [(number, node)]
  | reference _ => []

def anchorsOfItems : List Yaml → List (Nat × Yaml)
  | [] => []
  | item :: items => anchorsOfItems items ++ anchors item

def anchorsOfMembers : List (Yaml × Yaml) → List (Nat × Yaml)
  | [] => []
  | (key, value) :: members => anchorsOfMembers members ++ anchors value ++ anchors key

end

/-- A unit of YAML text. -/
inductive Token where
  /-- The version that a directive asks for. -/
  | version (major minor : Nat)
  | tagHandle (handle meaning : Text)
  | documentStart
  | documentEnd
  | blockSequenceStart
  | blockMappingStart
  | blockEnd
  | flowSequenceStart
  | flowSequenceEnd
  | flowMappingStart
  | flowMappingEnd
  | blockEntry
  | flowEntry
  | key
  | value
  | reference (name : Text)
  | anchor (name : Text)
  /-- A tag; a verbatim one has no handle. -/
  | tag (handle suffix : Text)
  | scalar (style : YamlStyle) (text : Text)
  deriving DecidableEq, Repr

/-- Whether a character breaks a line. -/
def isBreak (c : Char) : Bool :=
  c == '\n' || c == '\r' || c == '\x85' || c == '\u2028' || c == '\u2029'

/-- Whether a character is a blank inside a line. -/
def isBlank (c : Char) : Bool :=
  c == ' ' || c == '\t'

/-- Whether there is a blank, a break or the end at the start of a text. -/
def atSpace : Text → Bool
  | [] => true
  | c :: _ => isBlank c || isBreak c

/-- Whether a document indicator stands at the start of a text. -/
def atDocumentMark (t : Text) : Bool :=
  ("---".toList.isPrefixOf t || "...".toList.isPrefixOf t) && atSpace (t.drop 3)

/-- The line break at the start of a text: what it stands for, and the rest. -/
def splitBreak? : Text → Option (Text × Text)
  | '\r' :: '\n' :: t => some (['\n'], t)
  | c :: t =>
    if c == '\u2028' || c == '\u2029' then some ([c], t)
    else if isBreak c then some (['\n'], t)
    else none
  | [] => none

/-- Whether a character may stand in a document at all. -/
def isAllowed (c : Char) : Bool :=
  let n := c.toNat
  n == 0x9 || n == 0xA || n == 0xD || (0x20 ≤ n && n ≤ 0x7E) || n == 0x85 ||
    (0xA0 ≤ n && n ≤ 0xFFFD) || 0x10000 ≤ n

/-- A place in the text. -/
structure Mark where
  index : Nat
  line : Nat
  column : Nat
  deriving DecidableEq, Repr

def Mark.after (mark : Mark) : Text → Mark
  | [] => mark
  | '\r' :: '\n' :: t => Mark.after ⟨mark.index + 2, mark.line + 1, 0⟩ t
  | c :: t =>
    if isBreak c then Mark.after ⟨mark.index + 1, mark.line + 1, 0⟩ t
    else Mark.after ⟨mark.index + 1, mark.line, mark.column + 1⟩ t

end Yaml

/-- A node of a document, and the nodes of the document that have anchors. -/
structure YamlPart where
  anchors : List (Nat × Yaml)
  node : Yaml

namespace YamlPart

/-- A whole document. -/
def ofRoot (root : Yaml) : YamlPart :=
  ⟨root.anchors, root⟩

/-- Another node of the same document. -/
def goTo (part : YamlPart) (node : Yaml) : YamlPart :=
  { part with node := node }

/-- The node without its anchor, or the node that a reference stands for. Where anchors share a
number, that is the one that starts last, whether the reference stands before or after it. -/
def content (part : YamlPart) : Yaml :=
  match part.node with
  | .anchored _ node => node
  | .reference number => (part.anchors.lookup number).getD .nothing
  | node => node

end YamlPart
end TagLint
