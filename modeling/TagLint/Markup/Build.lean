import TagLint.Markup.Document
import TagLint.Written.Scan

/-!
From pieces to the document tree.

Pieces are located by adding up their lengths. The builder keeps the elements that wait for their
closing tag, innermost first. A closing tag closes the innermost of them that has its name; those
inside it stay unclosed and end with their last child. A closing tag without such an element is
dropped. Nothing waits behind a self-closing tag or a void element, except that a closing tag
written right after a void element belongs to it; inside foreign subtrees no element is void.
-/
namespace TagLint

namespace LineIndex

def tokenAt (index : LineIndex) (offset : Nat) (text : Text) : Token :=
  let span : Span := ⟨offset, offset + text.byteLength⟩
  ⟨text, span, index.extent span⟩

def templateSpans (index : LineIndex) (offset : Nat) : List Part → List TemplateSpan
  | [] => []
  | part :: parts =>
    let span : Span := ⟨offset, offset + part.text.byteLength⟩
    ⟨part.isTemplate, span, index.extent span⟩ :: templateSpans index span.stop parts

def contentAt (index : LineIndex) (offset : Nat) (fragment : Fragment) : Content :=
  let span : Span := ⟨offset, offset + fragment.text.byteLength⟩
  ⟨fragment.text, span, index.extent span, index.templateSpans offset fragment.parts⟩

def attributeAt (index : LineIndex) (offset : Nat) (written : Written.Attribute) : Attribute :=
  let span : Span := ⟨offset, offset + written.render.byteLength⟩
  { key := written.key.map (index.contentAt offset)
    value := written.assignment.map fun assignment =>
      index.contentAt
        (offset + written.keyText.byteLength + assignment.beforeSign.byteLength + 1 +
          assignment.afterSign.byteLength + assignment.quoteText.byteLength)
        assignment.value
    span := span
    extent := index.extent span }

/-- Attributes with the separators before them, of which the first starts at `offset`; and the
offset after them. -/
def attributesAt (index : LineIndex) (offset : Nat) :
    List (Text × Written.Attribute) → List Attribute × Nat
  | [] => ([], offset)
  | (gap, written) :: others =>
    let first := index.attributeAt (offset + gap.byteLength) written
    let after := index.attributesAt first.span.stop others
    (first :: after.1, after.2)

/-- The tags of an element whose opening tag starts at `offset`. -/
def tagAt (index : LineIndex) (offset : Nat) (written : Written.OpenTag) (close : Option Token) :
    Tag :=
  let openStart := index.tokenAt offset ('<' :: written.name)
  let attributes := index.attributesAt openStart.span.stop written.attributes
  { name := written.name
    attributes := attributes.1
    isSelfClosing := written.isSelfClosing
    openStart := openStart
    openEnd := index.tokenAt (attributes.2 + written.gap.byteLength) written.ending.render
    close := close }

end LineIndex

def Written.Piece.locate (offset : Nat) : List Written.Piece → List (Nat × Written.Piece)
  | [] => []
  | piece :: pieces => (offset, piece) :: locate (offset + piece.render.byteLength) pieces

/-- An element that waits for its closing tag, with the trees read inside it, the last one first. -/
structure OpenElement where
  id : Nat
  parent : Nat
  tag : Tag
  children : List Tree

namespace OpenElement

/-- Where the element ends when it has no closing tag: with its last child, if it has any. -/
def unclosedStop (element : OpenElement) : Nat :=
  match element.children with
  | [] => element.tag.openEnd.span.stop
  | last :: _ => max element.tag.openEnd.span.stop last.node.span.stop

def finish (element : OpenElement) (index : LineIndex) (close : Option Token) : Tree :=
  let stop := match close with
    | some token => token.span.stop
    | none => element.unclosedStop
  let span : Span := ⟨element.tag.openStart.span.start, stop⟩
  { node :=
      { id := element.id
        parent := some element.parent
        span := span
        extent := index.extent span
        kind := .element { element.tag with close := close } }
    inside := Forest.ofTrees element.children.reverse }

end OpenElement

/-- A document under construction. -/
structure Builder where
  nextId : Nat
  /-- The elements that wait for their closing tag, innermost first. -/
  waiting : List OpenElement
  /-- The finished trees outside all waiting elements, the last one first. -/
  finished : List Tree
  /-- The dropped closing tags, the last one first. -/
  strays : List Stray

namespace Builder

/-- Nothing but the document node. -/
def empty : Builder :=
  ⟨1, [], [], []⟩

/-- The id of the node that the next node will be inside of. -/
def parentId (b : Builder) : Nat :=
  match b.waiting with
  | [] => 0
  | element :: _ => element.id

/-- Whether the builder stands inside a foreign subtree. -/
def isForeign (b : Builder) : Bool :=
  b.waiting.any fun element => isForeignRoot element.tag.name

/-- Adds a finished tree where the builder stands. -/
def place (b : Builder) (tree : Tree) : Builder :=
  match b.waiting with
  | [] => { b with finished := tree :: b.finished }
  | element :: outer =>
    { b with waiting := { element with children := tree :: element.children } :: outer }

/-- Adds a node with nothing inside it. -/
def addLeaf (b : Builder) (index : LineIndex) (span : Span) (kind : Kind) : Builder :=
  let node : Node := ⟨b.nextId, some b.parentId, span, index.extent span, kind⟩
  { b.place ⟨node, .nil⟩ with nextId := b.nextId + 1 }

def addOpen (b : Builder) (tag : Tag) : Builder :=
  { b with
    nextId := b.nextId + 1
    waiting := ⟨b.nextId, b.parentId, tag, []⟩ :: b.waiting }

def finishInnermost (b : Builder) (index : LineIndex) (close : Option Token) : Builder :=
  match b.waiting with
  | [] => b
  | element :: outer => { b with waiting := outer }.place (element.finish index close)

/-- Finishes the `count` innermost waiting elements without closing tags. -/
def finishUnclosed (b : Builder) (index : LineIndex) : Nat → Builder
  | 0 => b
  | count + 1 => (b.finishInnermost index none).finishUnclosed index count

/-- Closes the innermost waiting element named `name`, or drops the closing tag. -/
def close (b : Builder) (index : LineIndex) (name : Text) (token : Token) : Builder :=
  match b.waiting.findIdx? fun element => Text.sameName element.tag.name name with
  | none => { b with strays := ⟨name, token.span⟩ :: b.strays }
  | some depth => (b.finishUnclosed index depth).finishInnermost index (some token)

/-- Whether the element is void where the builder stands. -/
def isVoid (b : Builder) (name : Text) : Bool :=
  !b.isForeign && isVoidName name

def add (b : Builder) (index : LineIndex) (offset : Nat) (piece : Written.Piece) : Builder :=
  let span : Span := ⟨offset, offset + piece.render.byteLength⟩
  match piece with
  | .text content => b.addLeaf index span (.text (index.contentAt offset content))
  | .comment body _ => b.addLeaf index span (.comment (index.contentAt (offset + 4) body))
  | .doctype body _ => b.addLeaf index span (.doctype (index.contentAt (offset + 2) body))
  | .raw written body =>
    let inside := offset + written.render.byteLength
    let content := body.map fun body => index.contentAt inside body.content
    let close := body.bind fun body =>
      body.close.map (index.tokenAt (inside + body.content.text.byteLength))
    let tag := index.tagAt offset written close
    b.addLeaf index span
      (if Text.sameName written.name "script".toList then .script tag content
        else .style tag content)
  | .opening written =>
    let tag := index.tagAt offset written none
    if written.isSelfClosing || b.isVoid written.name then b.addLeaf index span (.element tag)
    else b.addOpen tag
  | .closing name _ _ => b.close index name (index.tokenAt offset piece.render)

/-- The closing tag of a void element, if `next` is one and is written right after it. -/
def voidClose? (b : Builder) (piece next : Written.Piece) : Option (Written.OpenTag × Text) :=
  match piece, next with
  | .opening written, .closing name tail isClosed =>
    if b.isVoid written.name && !written.isSelfClosing && Text.sameName name written.name &&
        tail.all isMarkupSpace && isClosed then
      some (written, next.render)
    else none
  | _, _ => none

/-- Adds located pieces one after the other. -/
def addAll (b : Builder) (index : LineIndex) : List (Nat × Written.Piece) → Builder
  | [] => b
  | [(offset, piece)] => b.add index offset piece
  | (offset, piece) :: (stop, next) :: others =>
    match b.voidClose? piece next with
    | some (written, closing) =>
      let close := index.tokenAt stop closing
      (b.addLeaf index ⟨offset, close.span.stop⟩
        (.element (index.tagAt offset written (some close)))).addAll index others
    | none => (b.add index offset piece).addAll index ((stop, next) :: others)

end Builder

namespace Document

/-- The document that a source is, with the given template delimiters. -/
def parse (pairs : List Delimiters) (source : Text) : Document :=
  let index := LineIndex.ofText source
  let pieces := Written.Piece.locate 0 (Written.Piece.scanAll pairs source)
  let read := Builder.empty.addAll index pieces
  let built := read.finishUnclosed index read.waiting.length
  let span : Span := ⟨0, source.byteLength⟩
  { source := source
    root :=
      { node := ⟨0, none, span, index.extent span, .document⟩
        inside := Forest.ofTrees built.finished.reverse }
    strays := built.strays.reverse }

end Document
end TagLint
