import TagLint.Markup.Document
import TagLint.Text.Letter
import TagLint.Text.Line

/-! Questions that rules and tools ask about a document. -/
namespace TagLint

namespace TemplateSpan

def anyTemplate (spans : List TemplateSpan) : Bool :=
  spans.any TemplateSpan.isTemplate

def templatesOnly (spans : List TemplateSpan) : List TemplateSpan :=
  spans.filter TemplateSpan.isTemplate

def anyOverlap (spans : List TemplateSpan) (span : Span) : Bool :=
  (templatesOnly spans).any fun region => region.span.overlaps span

end TemplateSpan

namespace Tag

/-- The first attribute with the given key, without regard to ASCII case. -/
def attribute? (tag : Tag) (key : Text) : Option Attribute :=
  tag.attributes.find? fun found => found.key.any fun content => Text.sameName content.text key

end Tag

/-- One line of content. -/
structure ContentLine where
  text : Text
  span : Span
  extent : Extent
  /-- Whether a template region overlaps the line. -/
  inTemplate : Bool
  deriving DecidableEq, Repr

namespace Content

/-- Lines of which the first starts at `offset` and `position`; each later line starts after the
line feed that ends the line before it. -/
def linesFrom (templates : List TemplateSpan) (offset : Nat) (position : Position) :
    List Text → List ContentLine
  | [] => []
  | text :: others =>
    let span : Span := ⟨offset, offset + text.byteLength⟩
    { text := text
      span := span
      extent := ⟨position, ⟨position.line, position.column + text.byteLength⟩⟩
      inTemplate := TemplateSpan.anyOverlap templates span } ::
    linesFrom templates (span.stop + 1) ⟨position.line + 1, 0⟩ others

def lines (content : Content) : List ContentLine :=
  linesFrom content.templates content.span.start content.extent.start content.text.feedLines

end Content

namespace Node

def isOnOneLine (node : Node) : Bool :=
  node.extent.start.line == node.extent.stop.line

/-- Whether the node's own content has a template region. -/
def hasTemplate (node : Node) : Bool :=
  TemplateSpan.anyTemplate node.kind.templates

end Node

namespace Document

/-- The nodes that the node `id` is inside of, innermost first; `nodes` are those of the document,
at the places that their ids name. -/
def enclosing (nodes : Array Node) (id : Nat) : List Node :=
  match nodes[id]?.bind Node.parent with
  | none => []
  | some parent =>
    if parent < id then nodes[parent]?.toList ++ enclosing nodes parent else []
termination_by id

/-- The innermost node around the node `id` that satisfies `accepts`; the document is no
candidate. -/
def findEnclosing? (nodes : Array Node) (id : Nat) (accepts : Node → Bool) : Option Node :=
  (enclosing nodes id).find? fun node => node.kind != .document && accepts node

def sourceLine? (doc : Document) (number : Nat) : Option Text :=
  doc.source.line? number

end Document
end TagLint
