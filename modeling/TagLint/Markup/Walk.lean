import TagLint.Markup.Document

/-!
The walk through a document: every node is entered before what is inside it, and nodes that hold
something are left after it. The nodes alone can also be visited with a stack.
-/
namespace TagLint

/-- A step of the walk. -/
inductive Event where
  | enter (tree : Tree)
  | leave (tree : Tree)
  deriving DecidableEq, Repr

namespace Kind

/-- Whether the walk leaves a node of this kind: texts, comments and doctypes are only entered. -/
def isLeft : Kind → Bool
  | text _ => false
  | comment _ => false
  | doctype _ => false
  | _ => true

end Kind

namespace Event

def leaving (tree : Tree) : List Event :=
  if tree.node.kind.isLeft then [leave tree] else []

end Event

namespace Forest

def events : Forest → List Event
  | nil => []
  | cons node inside next =>
    .enter ⟨node, inside⟩ :: inside.events ++ Event.leaving ⟨node, inside⟩ ++ next.events

end Forest

/-- The trees of a forest hold all trees within it. -/
theorem Forest.flatMap_subtrees (forest : Forest) :
    forest.trees.flatMap Tree.subtrees = forest.subtrees := by
  induction forest with
  | nil => rfl
  | cons node inside next _ ih => simp [Forest.trees, Forest.subtrees, Tree.subtrees, ih]

/-- Visits the trees on a stack: a tree that is taken off makes room for its children, of which
the first comes to the top. -/
def Tree.visit : List Tree → List Node
  | [] => []
  | tree :: stack => tree.node :: visit (tree.children ++ stack)
termination_by stack => (stack.flatMap Tree.subtrees).length
decreasing_by
  simp [Tree.children, Forest.flatMap_subtrees, Tree.subtrees]

namespace Document

/-- The nodes of the document, visited with a stack. -/
def visited (doc : Document) : List Node :=
  Tree.visit [doc.root]

def events (doc : Document) : List Event :=
  .enter doc.root :: doc.root.inside.events ++ Event.leaving doc.root

end Document
end TagLint
