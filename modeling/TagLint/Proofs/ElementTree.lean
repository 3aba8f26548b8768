import TagLint.Proofs.ClosingFixes

/-!
The element tree of a document.

It is what is left of the tree without texts and doctypes and without places: elements with their
names and attributes, scripts and styles with their contents, and comments, in document order and
inside each other as in the document.
-/
namespace TagLint

open Written (Piece OpenTag)

/-- What an element tree says about a node. -/
inductive Label where
  | element (name : Text) (attributes : List (Option Text × Option Text))
  | script (name : Text) (attributes : List (Option Text × Option Text)) (content : Option Text)
  | style (name : Text) (attributes : List (Option Text × Option Text)) (content : Option Text)
  | comment (text : Text)
  deriving DecidableEq, Repr

/-- Labels as first child and next sibling, in document order. -/
inductive ElementTree where
  | nil
  | cons (label : Label) (inside next : ElementTree)
  deriving DecidableEq, Repr

/-- The label of a node that belongs to the element tree. -/
def Kind.label? : Kind → Option Label
  | .element tag => some (.element tag.name tag.attributeTexts)
  | .script tag content => some (.script tag.name tag.attributeTexts (content.map Content.text))
  | .style tag content => some (.style tag.name tag.attributeTexts (content.map Content.text))
  | .comment content => some (.comment content.text)
  | _ => none

def Forest.elements : Forest → ElementTree
  | nil => .nil
  | cons node inside next =>
    match node.kind.label? with
    | some label => .cons label inside.elements next.elements
    | none => next.elements

def Document.elements (doc : Document) : ElementTree :=
  doc.root.inside.elements

/-- The label of the element that the tag opens. -/
def Written.OpenTag.label (tag : OpenTag) : Label :=
  .element tag.name tag.attributeTexts

/-- The label of the node that a piece is by itself. -/
def Written.Piece.label? : Piece → Option Label
  | .opening tag => some tag.label
  | .raw tag body =>
    let content := body.map fun body => body.content.text
    some (if Text.sameName tag.name "script".toList then
      .script tag.name tag.attributeTexts content
    else .style tag.name tag.attributeTexts content)
  | .comment body _ => some (.comment body.text)
  | _ => none

theorem Written.OpenTag.label_of_bare {tag tag' : OpenTag} (same : tag'.bare = tag.bare) :
    tag'.label = tag.label := by
  have unchanged (tag : OpenTag) : tag.label = tag.bare.label := by
    rw [label, label, OpenTag.attributeTexts_bare]
    rfl
  rw [unchanged, same, ← unchanged]

namespace Written.Piece

theorem label?_kindAt? (index : LineIndex) (offset : Nat) (piece : Piece) :
    (piece.kindAt? index offset).bind Kind.label? = piece.label? := by
  have name (tag : OpenTag) (close : Option Token) :
      (index.tagAt offset tag close).name = tag.name := rfl
  cases piece with
  | raw tag body =>
    simp only [kindAt?, label?, Option.bind_some]
    split <;>
      simp [Kind.label?, LineIndex.attributeTexts_tagAt, LineIndex.contentAt, name,
        Function.comp_def]
  | opening tag =>
    simp [kindAt?, label?, Kind.label?, OpenTag.label, LineIndex.attributeTexts_tagAt, name]
  | _ => rfl

theorem label?_of_bare {piece piece' : Piece} (same : piece'.bare = piece.bare) :
    piece'.label? = piece.label? := by
  have unchanged (piece : Piece) : piece.label? = piece.bare.label? := by
    cases piece with
    | raw tag body =>
      have content : (body.map RawBody.bare).map (fun body => body.content.text) =
          body.map fun body => body.content.text := by
        rw [Option.map_map]
        rfl
      simp only [bare, label?, OpenTag.name_bare, OpenTag.attributeTexts_bare, content]
    | opening tag => simp [bare, label?, OpenTag.label, OpenTag.attributeTexts_bare]
    | _ => rfl
  rw [unchanged, same, ← unchanged]

end Written.Piece

namespace Outline

/-- The element tree of an outline. -/
def elements : Outline → ElementTree
  | nil => .nil
  | single piece next =>
    match piece.label? with
    | some label => .cons label .nil next.elements
    | none => next.elements
  | element tag inside _ next =>
    .cons tag.label inside.elements next.elements

@[simp] theorem elements_forest (index : LineIndex) (parent id offset : Nat) (outline : Outline) :
    (outline.forest index parent id offset).elements = outline.elements := by
  induction outline generalizing parent id offset with
  | nil => rfl
  | single piece next ih =>
    have label := piece.label?_kindAt? index offset
    cases kind : piece.kindAt? index offset with
    | none =>
      rw [kind, Option.bind_none] at label
      simp only [forest, kind, elements, ← label]
      exact ih _ _ _
    | some kind' =>
      rw [kind, Option.bind_some] at label
      simp only [forest, kind, elements, ← label, Forest.elements]
      split <;> rw [ih]
  | element tag inside close next ihInside ihNext =>
    simp only [forest, elements, Forest.elements, OpenElement.finish, Kind.label?,
      List.reverse_reverse, Forest.ofTrees_trees, ihInside, ihNext]
    congr 2
    exact LineIndex.attributeTexts_tagAt index offset tag none

end Outline

theorem Document.elements_ofOutline (source : Text) (outline : Outline) :
    (ofOutline source outline).elements = outline.elements :=
  outline.elements_forest _ _ _ _

end TagLint
