import TagLint.Source.LineIndex
import TagLint.Text.Letter

/-!
The document tree.

Every part of a document knows its text, its span in the source and the positions of its ends.
A forest is written as first child and next sibling, so that everything about documents is plain
recursion; `Forest.trees` reads it as the list of its trees. Some names give an element a meaning of
its own: that of a void element, or that of the root of a foreign subtree.
-/
namespace TagLint

/-- Elements that never have content or a closing tag. -/
def voidElements : List Text :=
  ["area".toList, "base".toList, "br".toList, "col".toList, "command".toList, "embed".toList,
    "hr".toList, "img".toList, "input".toList, "keygen".toList, "link".toList, "meta".toList,
    "param".toList, "source".toList, "track".toList, "wbr".toList]

/-- The roots of foreign subtrees, in which no element is void. -/
def foreignRoots : List Text :=
  ["svg".toList, "math".toList]

/-- Whether `name` is the name of a void element. -/
def isVoidName (name : Text) : Bool :=
  Text.isNamedIn name voidElements

/-- Whether `name` is the name of the root of a foreign subtree. -/
def isForeignRoot (name : Text) : Bool :=
  Text.isNamedIn name foreignRoots

/-- A piece of markup syntax, such as `<div`, `>` or `</div>`. -/
structure Token where
  text : Text
  span : Span
  extent : Extent
  deriving DecidableEq, Repr

/-- A template region, or the plain text between two of them. -/
structure TemplateSpan where
  isTemplate : Bool
  span : Span
  extent : Extent
  deriving DecidableEq, Repr

/-- Text content with the template regions in it. -/
structure Content where
  text : Text
  span : Span
  extent : Extent
  templates : List TemplateSpan
  deriving DecidableEq, Repr

/-- An attribute of a tag. -/
structure Attribute where
  key : Option Content
  value : Option Content
  span : Span
  extent : Extent
  deriving DecidableEq, Repr

/-- The tags of an element. -/
structure Tag where
  name : Text
  attributes : List Attribute
  /-- Whether the opening tag is written `/>`. -/
  isSelfClosing : Bool
  openStart : Token
  openEnd : Token
  close : Option Token
  deriving DecidableEq, Repr

/-- What a node is. -/
inductive Kind where
  | document
  | element (tag : Tag)
  | script (tag : Tag) (content : Option Content)
  | style (tag : Tag) (content : Option Content)
  | text (content : Content)
  | comment (content : Content)
  | doctype (content : Content)
  deriving DecidableEq, Repr

/-- A node without what is inside it. -/
structure Node where
  id : Nat
  parent : Option Nat
  span : Span
  extent : Extent
  kind : Kind
  deriving DecidableEq, Repr

/-- Sibling nodes with what is inside them, in source order. -/
inductive Forest where
  | nil
  | cons (node : Node) (inside : Forest) (next : Forest)
  deriving DecidableEq, Repr

/-- A node with what is inside it. -/
structure Tree where
  node : Node
  inside : Forest
  deriving DecidableEq, Repr

/-- A closing tag that closes nothing. -/
structure Stray where
  name : Text
  span : Span
  deriving DecidableEq, Repr

/-- A parsed document: its source, its tree, and the closing tags that are not in the tree. -/
structure Document where
  source : Text
  root : Tree
  strays : List Stray
  deriving DecidableEq, Repr

namespace Kind

/-- The tags of an element whose content is markup. -/
def tag? : Kind → Option Tag
  | element tag => some tag
  | _ => none

theorem tag?_eq_some_iff {kind : Kind} {tag : Tag} :
    kind.tag? = some tag ↔ kind = element tag := by
  cases kind <;> simp [tag?]

def content? : Kind → Option Content
  | text content => some content
  | comment content => some content
  | _ => none

/-- The template spans of the node's own content. -/
def templates : Kind → List TemplateSpan
  | text content => content.templates
  | comment content => content.templates
  | doctype content => content.templates
  | _ => []

end Kind

namespace Forest

def trees : Forest → List Tree
  | nil => []
  | cons node inside next => ⟨node, inside⟩ :: next.trees

def ofTrees : List Tree → Forest
  | [] => nil
  | tree :: others => cons tree.node tree.inside (ofTrees others)

@[simp] theorem trees_ofTrees (trees : List Tree) : (ofTrees trees).trees = trees := by
  induction trees with
  | nil => rfl
  | cons tree others ih => simp [ofTrees, Forest.trees, ih]

@[simp] theorem ofTrees_trees (forest : Forest) : ofTrees forest.trees = forest := by
  induction forest with
  | nil => rfl
  | cons node inside next _ ih => simp [ofTrees, Forest.trees, ih]

/-- All trees within the forest, each before the ones inside it. -/
def subtrees : Forest → List Tree
  | nil => []
  | cons node inside next => ⟨node, inside⟩ :: (inside.subtrees ++ next.subtrees)

end Forest

namespace Tree

/-- The trees directly inside. -/
def children (tree : Tree) : List Tree :=
  tree.inside.trees

/-- The tree and all trees within it, each before the ones inside it. -/
def subtrees (tree : Tree) : List Tree :=
  tree :: tree.inside.subtrees

/-- The ids of the nodes directly inside. -/
def childIds (tree : Tree) : List Nat :=
  tree.children.map fun child => child.node.id

end Tree

namespace Document

def subtrees (doc : Document) : List Tree :=
  doc.root.subtrees

def nodes (doc : Document) : List Node :=
  doc.subtrees.map Tree.node

end Document
end TagLint
