import TagLint.Proofs.Nesting
import TagLint.Proofs.Reads
import TagLint.Markup.Walk
import Mathlib.Data.List.Nodup

/-!
The shape of the tree of a document.

`Forest.Laid` says of a forest that ids count its nodes in document order, that parents are as the
nesting says, and that spans are laid out in order inside of their parents. The forest of an outline
is laid (`Outline.laid_forest`), and everything that is true of parsed trees as trees follows from
that alone.
-/
namespace TagLint

open Written (Piece OpenTag)

namespace Written.Piece

theorem width_pos {piece : Piece} (nonempty : piece.render ≠ []) : 0 < piece.width :=
  Text.byteLength_pos nonempty

end Written.Piece

namespace LineIndex

theorem attributesAt_stop (index : LineIndex) (offset : Nat)
    (attributes : List (Text × Written.Attribute)) :
    (index.attributesAt offset attributes).2 = offset +
      Text.byteLength (attributes.flatMap fun entry => entry.1 ++ entry.2.render) := by
  induction attributes generalizing offset with
  | nil => rfl
  | cons entry others ih =>
    simp only [attributesAt, ih, attributeAt, List.flatMap_cons, Text.byteLength_append]
    omega

@[simp] theorem tagAt_start (index : LineIndex) (offset : Nat) (tag : OpenTag)
    (close : Option Token) : (index.tagAt offset tag close).openStart.span.start = offset := rfl

/-- The last token of an opening tag ends where the tag does. -/
@[simp] theorem tagAt_stop (index : LineIndex) (offset : Nat) (tag : OpenTag)
    (close : Option Token) :
    (index.tagAt offset tag close).openEnd.span.stop = offset + tag.render.byteLength := by
  simp only [tagAt, tokenAt, attributesAt_stop, OpenTag.render, Text.byteLength_append,
    Text.byteLength_cons, List.cons_append]
  omega

end LineIndex

/-! ### Forests that are laid out -/

namespace Forest

def size : Forest → Nat
  | nil => 0
  | cons _ inside next => 1 + inside.size + next.size

/-- Where the last tree ends; `start` where there is none. -/
def stopFrom (start : Nat) : Forest → Nat
  | nil => start
  | cons node _ next => next.stopFrom node.span.stop

/-- Whether the trees are laid out one after the other from `lo` to `hi`, inside the node `parent`,
with ids that count from `id` in document order. -/
def Laid (parent id lo hi : Nat) : Forest → Prop
  | nil => lo ≤ hi
  | cons node inside next =>
    (node.id = id ∧ node.parent = some parent) ∧
      (lo ≤ node.span.start ∧ node.span.start < node.span.stop) ∧
      (node.kind ≠ .document ∧ (inside ≠ nil → node.kind.tag?.isSome)) ∧
      inside.Laid id (id + 1) node.span.start node.span.stop ∧
      next.Laid parent (id + 1 + inside.size) node.span.stop hi

theorem Laid.stopFrom_bounds {forest : Forest} {parent id lo hi : Nat}
    (laid : forest.Laid parent id lo hi) :
    lo ≤ forest.stopFrom lo ∧ forest.stopFrom lo ≤ hi := by
  induction forest generalizing id lo with
  | nil => exact ⟨Nat.le_refl lo, laid⟩
  | cons node inside next _ ih =>
    obtain ⟨_, ⟨after, long⟩, _, _, later⟩ := laid
    have := ih later
    exact ⟨by simp only [stopFrom]; omega, this.2⟩

/-- A laid forest can be given other space that its trees fit in. -/
theorem Laid.fit {forest : Forest} {parent id lo hi start stop : Nat}
    (laid : forest.Laid parent id lo hi) (before : start ≤ lo)
    (upto : forest.stopFrom lo ≤ stop) : forest.Laid parent id start stop := by
  induction forest generalizing id lo start with
  | nil => exact Nat.le_trans before upto
  | cons node inside next _ ih =>
    obtain ⟨ids, ⟨after, long⟩, kinds, within, later⟩ := laid
    exact ⟨ids, ⟨Nat.le_trans before after, long⟩, kinds, within,
      ih later (Nat.le_refl _) upto⟩

theorem stopFrom_eq (forest : Forest) (start : Nat) :
    forest.stopFrom start =
      (forest.trees.getLast?.map fun tree => tree.node.span.stop).getD start := by
  induction forest generalizing start with
  | nil => rfl
  | cons node inside next _ ih =>
    rw [stopFrom, ih]
    cases others : next.trees with
    | nil => simp [trees, others]
    | cons tree more => simp [trees, others, List.getLast?_cons]

end Forest

/-- An element without a closing tag ends with its opening tag or with what is inside it. -/
theorem OpenElement.unclosedStop_eq (id parent : Nat) (tag : Tag) {inner lo hi : Nat}
    {content : Forest} (laid : content.Laid inner lo tag.openEnd.span.stop hi) :
    unclosedStop ⟨id, parent, tag, content.trees.reverse⟩ =
      content.stopFrom tag.openEnd.span.stop := by
  have bound := laid.stopFrom_bounds.1
  rw [Forest.stopFrom_eq] at bound ⊢
  simp only [unclosedStop]
  cases shown : content.trees.reverse with
  | nil => simp_all
  | cons last others =>
    have final : content.trees.getLast? = some last := by
      rw [List.getLast?_eq_head?_reverse, shown, List.head?_cons]
    simp only [final, Option.map_some, Option.getD_some] at bound ⊢
    exact Nat.max_eq_right bound

theorem Written.Piece.kindAt?_ne_document {index : LineIndex} {offset : Nat} {piece : Piece}
    {kind : Kind} (found : piece.kindAt? index offset = some kind) : kind ≠ .document := by
  cases piece <;> simp only [kindAt?, Option.some.injEq, reduceCtorEq] at found
  case raw tag body =>
    subst found
    split <;> simp
  all_goals subst found; simp

/-! ### The forest of an outline is laid out -/

namespace Outline

/-- Whether every piece of an outline has a character. -/
def IsFull (outline : Outline) : Prop :=
  ∀ piece ∈ outline.pieces, piece.render ≠ []

theorem full_single {piece : Piece} {next : Outline} (full : (single piece next).IsFull) :
    0 < piece.width ∧ next.IsFull := by
  constructor
  · exact Piece.width_pos (full piece (by simp))
  · intro p member
    exact full p (List.mem_cons_of_mem piece member)

theorem full_element {tag : OpenTag} {inside next : Outline} {close : Option ClosingTag}
    (full : (element tag inside close next).IsFull) :
    0 < tag.render.byteLength ∧ inside.IsFull ∧ (∀ c ∈ close, 0 < c.piece.width) ∧
      next.IsFull := by
  refine ⟨Piece.width_pos (full (.opening tag) (by simp)), ?_, ?_, ?_⟩
  · intro p member
    exact full p (by simp [member])
  · rintro c ⟨⟩
    exact Piece.width_pos (full c.piece (by simp))
  · intro p member
    exact full p (by simp [member])

theorem full_of_reads {pairs : List Delimiters} {outline : Outline}
    (reads : Piece.Reads pairs outline.pieces) : outline.IsFull := by
  intro piece member
  exact reads.render_ne_nil member

@[simp] theorem size_forest (index : LineIndex) (parent id offset : Nat) (outline : Outline) :
    (outline.forest index parent id offset).size = outline.count := by
  induction outline generalizing parent id offset with
  | nil => rfl
  | single piece next ih =>
    have closing := Piece.kindAt?_isNone index offset piece
    cases kind : piece.kindAt? index offset <;>
      simp_all [forest, count, Forest.size]
  | element tag inside close next ihInside ihNext =>
    simp [forest, count, Forest.size, OpenElement.finish, ihInside, ihNext]
    omega

/-- An element is a tree with the forest of what is inside it; it ends where its closing tag does,
or else where the last of its trees does. -/
theorem forest_element (index : LineIndex) (parent id offset : Nat) (tag : OpenTag)
    (inside : Outline) (close : Option ClosingTag) (next : Outline) {hi : Nat}
    (laid : (inside.forest index id (id + 1) (offset + tag.render.byteLength)).Laid id (id + 1)
      (offset + tag.render.byteLength) hi) :
    ∃ node, (element tag inside close next).forest index parent id offset =
        .cons node (inside.forest index id (id + 1) (offset + tag.render.byteLength))
          (next.forest index parent (id + inside.count + 1) (offset + tag.render.byteLength +
            inside.width + (close.map fun close => close.piece.width).getD 0)) ∧
      (node.id = id ∧ node.parent = some parent) ∧
      node.kind = .element (index.tagAt offset tag (close.map fun close =>
        index.tokenAt (offset + tag.render.byteLength + inside.width) close.piece.render)) ∧
      node.span.start = offset ∧ node.extent = index.extent node.span ∧
      node.span.stop = (close.map fun close => offset + tag.render.byteLength + inside.width +
          close.piece.width).getD
        ((inside.forest index id (id + 1) (offset + tag.render.byteLength)).stopFrom
          (offset + tag.render.byteLength)) := by
  let node := (OpenElement.finish ⟨id, parent, index.tagAt offset tag none,
    (inside.forest index id (id + 1) (offset + tag.render.byteLength)).trees.reverse⟩ index
    (close.map fun close => index.tokenAt (offset + tag.render.byteLength + inside.width)
      close.piece.render)).node
  refine ⟨node, ?_, ⟨rfl, rfl⟩, rfl, rfl, rfl, ?_⟩
  · simp only [forest, OpenElement.finish, List.reverse_reverse, Forest.ofTrees_trees]
    rfl
  · cases close with
    | none =>
      have shown := OpenElement.unclosedStop_eq id parent (index.tagAt offset tag none)
        (by simpa using laid)
      rw [LineIndex.tagAt_stop] at shown
      exact shown
    | some close => rfl

/-- The trees of an outline are laid out in the space of the outline. -/
theorem laid_forest (index : LineIndex) (parent id offset : Nat) (outline : Outline)
    (full : outline.IsFull) :
    (outline.forest index parent id offset).Laid parent id offset (offset + outline.width) := by
  induction outline generalizing parent id offset with
  | nil => exact Nat.le_refl _
  | single piece next ih =>
    obtain ⟨long, further⟩ := full_single full
    cases kind : piece.kindAt? index offset with
    | none =>
      -- A stray takes its space from the trees after it.
      have laid := ih parent id (offset + piece.width) further
      have bound := laid.stopFrom_bounds.2
      simp only [forest, kind, width_single]
      exact laid.fit (by omega) (by omega)
    | some kind' =>
      have laid := ih parent (id + 1) (offset + piece.width) further
      simp only [forest, kind, width_single, ← Nat.add_assoc]
      exact ⟨⟨rfl, rfl⟩, ⟨Nat.le_refl _, by simp only; omega⟩,
        ⟨Piece.kindAt?_ne_document kind, by simp⟩, by simp only [Forest.Laid]; omega, laid⟩
  | element tag inside close next ihInside ihNext =>
    obtain ⟨opens, fullInside, _, fullNext⟩ := full_element full
    let within := offset + tag.render.byteLength
    let after := within + inside.width + (close.map fun close => close.piece.width).getD 0
    have content := ihInside id (id + 1) within fullInside
    have others := ihNext parent (id + inside.count + 1) after fullNext
    obtain ⟨node, shown, ids, kind, start, _, stop⟩ :=
      forest_element index parent id offset tag inside close next content
    have bounds := content.stopFrom_bounds
    have upto := others.stopFrom_bounds.2
    have spanned : offset + (element tag inside close next).width = after + next.width := by
      simp [after, within, Nat.add_assoc]
    have counted : id + 1 + (inside.forest index id (id + 1) within).size =
        id + inside.count + 1 := by
      rw [size_forest]
      omega
    have ends : (inside.forest index id (id + 1) within).stopFrom within ≤ node.span.stop ∧
        node.span.stop ≤ after := by
      rw [stop]
      cases close with
      | none => exact ⟨Nat.le_refl _, bounds.2⟩
      | some close => exact ⟨Nat.le_trans bounds.2 (Nat.le_add_right _ _), Nat.le_refl _⟩
    have opened : offset < within := Nat.lt_add_of_pos_right opens
    rw [shown, spanned]
    refine ⟨ids, ⟨?_, ?_⟩, ⟨?_, ?_⟩, ?_, ?_⟩
    · exact Nat.le_of_eq start.symm
    · rw [start]
      omega
    · rw [kind]
      simp
    · intro _
      rw [kind]
      rfl
    · refine content.fit ?_ ends.1
      rw [start]
      exact Nat.le_of_lt opened
    · rw [counted]
      exact others.fit ends.2 upto

end Outline

/-! ### Subtrees of a laid forest -/

namespace Forest

theorem mem_subtrees_cons {tree : Tree} {node : Node} {inside next : Forest} :
    tree ∈ (cons node inside next).subtrees ↔
      tree = ⟨node, inside⟩ ∨ tree ∈ inside.subtrees ∨ tree ∈ next.subtrees := by
  simp [subtrees]

theorem trees_sublist (forest : Forest) : forest.trees.Sublist forest.subtrees := by
  induction forest with
  | nil => exact List.Sublist.refl _
  | cons node inside next _ ih => exact (ih.trans (List.sublist_append_right _ _)).cons_cons _

/-- What is inside a tree within a forest is within the forest, in this order. -/
theorem subtrees_sublist {forest : Forest} {tree : Tree} (member : tree ∈ forest.subtrees) :
    tree.inside.subtrees.Sublist forest.subtrees := by
  induction forest with
  | nil => simp [subtrees] at member
  | cons node inside next ihInside ihNext =>
    rcases mem_subtrees_cons.1 member with rfl | deeper | later
    · exact (List.sublist_append_left _ _).cons _
    · exact ((ihInside deeper).trans (List.sublist_append_left _ _)).cons _
    · exact ((ihNext later).trans (List.sublist_append_right _ _)).cons _

/-- Every tree within a forest is one of its trees, or a child of a tree within it. -/
theorem mem_subtrees_cases {forest : Forest} {tree : Tree} (member : tree ∈ forest.subtrees) :
    tree ∈ forest.trees ∨ ∃ outer ∈ forest.subtrees, tree ∈ outer.children := by
  induction forest with
  | nil => simp [subtrees] at member
  | cons node inside next ihInside ihNext =>
    rcases mem_subtrees_cons.1 member with rfl | deeper | later
    · exact Or.inl List.mem_cons_self
    · rcases ihInside deeper with child | ⟨outer, within, child⟩
      · exact Or.inr ⟨⟨node, inside⟩, List.mem_cons_self, child⟩
      · exact Or.inr ⟨outer, mem_subtrees_cons.2 (Or.inr (Or.inl within)), child⟩
    · rcases ihNext later with child | ⟨outer, within, child⟩
      · exact Or.inl (List.mem_cons_of_mem _ child)
      · exact Or.inr ⟨outer, mem_subtrees_cons.2 (Or.inr (Or.inr within)), child⟩

/-- Ids count the nodes of a laid forest in document order. -/
theorem Laid.ids {forest : Forest} {parent id lo hi : Nat} (laid : forest.Laid parent id lo hi) :
    forest.subtrees.map (fun tree => tree.node.id) = List.range' id forest.size := by
  induction forest generalizing parent id lo hi with
  | nil => rfl
  | cons node inside next ihInside ihNext =>
    obtain ⟨⟨rfl, _⟩, _, _, within, later⟩ := laid
    simp only [subtrees, size, List.map_cons, List.map_append, ihInside within, ihNext later]
    rw [Nat.add_assoc 1, Nat.add_comm 1, List.range'_succ, List.range'_append_1]

theorem Laid.of_mem_trees {forest : Forest} {parent id lo hi : Nat}
    (laid : forest.Laid parent id lo hi) {tree : Tree} (member : tree ∈ forest.trees) :
    tree.node.parent = some parent ∧ id ≤ tree.node.id ∧ lo ≤ tree.node.span.start ∧
      tree.node.span.stop ≤ hi := by
  induction forest generalizing id lo with
  | nil => simp [trees] at member
  | cons node inside next _ ih =>
    obtain ⟨⟨rfl, mother⟩, ⟨after, long⟩, _, _, later⟩ := laid
    rcases List.mem_cons.1 member with rfl | more
    · have := later.stopFrom_bounds
      exact ⟨mother, Nat.le_refl _, after, by simp only; omega⟩
    · obtain ⟨mother, number, start, stop⟩ := ih later more
      exact ⟨mother, by omega, by omega, stop⟩

theorem Laid.chain {forest : Forest} {parent id lo hi : Nat} (laid : forest.Laid parent id lo hi) :
    forest.trees.Pairwise fun a b => a.node.span.stop ≤ b.node.span.start := by
  induction forest generalizing id lo with
  | nil => exact List.Pairwise.nil
  | cons node inside next _ ih =>
    obtain ⟨_, _, _, _, later⟩ := laid
    exact List.Pairwise.cons (fun tree member => (later.of_mem_trees member).2.2.1) (ih later)

/-- What is inside a tree within a laid forest is laid inside of it. -/
theorem Laid.of_mem_subtrees {forest : Forest} {parent id lo hi : Nat}
    (laid : forest.Laid parent id lo hi) {tree : Tree} (member : tree ∈ forest.subtrees) :
    tree.inside.Laid tree.node.id (tree.node.id + 1) tree.node.span.start tree.node.span.stop ∧
      (tree.inside ≠ nil → tree.node.kind.tag?.isSome) ∧ tree.node.kind ≠ .document ∧
      tree.node.span.start < tree.node.span.stop ∧ tree.node.span.stop ≤ hi := by
  induction forest generalizing parent id lo hi with
  | nil => simp [subtrees] at member
  | cons node inside next ihInside ihNext =>
    obtain ⟨⟨rfl, _⟩, ⟨_, long⟩, ⟨kind, holds⟩, within, later⟩ := laid
    have bound := later.stopFrom_bounds
    rcases mem_subtrees_cons.1 member with rfl | deeper | more
    · exact ⟨within, holds, kind, long, by simp only; omega⟩
    · obtain ⟨inner, rest⟩ := ihInside within deeper
      exact ⟨inner, rest.1, rest.2.1, rest.2.2.1, by omega⟩
    · exact ihNext later more

end Forest

/-- Visiting with a stack meets the trees in document order. -/
theorem Tree.visit_eq (stack : List Tree) :
    visit stack = (stack.flatMap Tree.subtrees).map Tree.node := by
  fun_induction visit stack with
  | case1 => rfl
  | case2 tree stack ih =>
    rw [ih]
    simp [children, Forest.flatMap_subtrees, subtrees]

/-! ### The tree of a document -/

namespace Document

/-- Whether the nodes of a document, at the places that their ids name, are a tree. -/
structure IsTree (doc : Document) : Prop where
  /-- The first node is the document: it is in no other node and spans the source. -/
  first : ∃ root, doc.nodes.head? = some root ∧ root.parent = none ∧ root.kind = .document ∧
    root.span = ⟨0, doc.source.byteLength⟩
  /-- The id of a node is its place. -/
  ids : doc.nodes.map Node.id = List.range doc.nodes.length
  /-- Every other node is in the document or in an element that comes before it. -/
  parents : ∀ node ∈ doc.nodes, node.id ≠ 0 → node.kind ≠ .document ∧
    ∃ outer ∈ doc.nodes, node.parent = some outer.id ∧ outer.id < node.id ∧
      (outer.kind = .document ∨ outer.kind.tag?.isSome)
  /-- Its parent has it as a child once, and no other node has. -/
  listed : ∀ node ∈ doc.nodes, node.id ≠ 0 → ∀ tree ∈ doc.subtrees,
    tree.childIds.count node.id = if node.parent = some tree.node.id then 1 else 0
  /-- Every node but the document of an empty source has a character. -/
  nonempty : ∀ node ∈ doc.nodes, (node.id = 0 → doc.source ≠ []) →
    node.span.start < node.span.stop
  /-- No node reaches past the source. -/
  bounded : ∀ node ∈ doc.nodes, node.span.stop ≤ doc.source.byteLength
  /-- Children lie inside of their parents. -/
  inside : ∀ tree ∈ doc.subtrees, ∀ child ∈ tree.children,
    tree.node.span.contains child.node.span = true
  /-- Siblings follow each other. -/
  siblings : ∀ tree ∈ doc.subtrees,
    tree.children.Pairwise fun a b => a.node.span.stop ≤ b.node.span.start
  /-- Visiting the nodes with a stack meets the ids in order. -/
  visits : doc.visited.map Node.id = List.range doc.nodes.length

section Laid

variable {source : Text} {root : Node} {forest : Forest} {strays : List Stray}

/-- Whether `root` is the node of a document and the forest is laid out in it. -/
def Roots (source : Text) (root : Node) (forest : Forest) : Prop :=
  (root.id = 0 ∧ root.parent = none) ∧ root.span = ⟨0, source.byteLength⟩ ∧
    root.kind = .document ∧ forest.Laid 0 1 0 source.byteLength

private theorem subtrees_mk :
    (⟨source, ⟨root, forest⟩, strays⟩ : Document).subtrees = ⟨root, forest⟩ :: forest.subtrees :=
  rfl

theorem Roots.ids (roots : Roots source root forest) :
    (⟨source, ⟨root, forest⟩, strays⟩ : Document).subtrees.map (fun tree => tree.node.id) =
      List.range (forest.size + 1) := by
  obtain ⟨⟨number, _⟩, _, _, laid⟩ := roots
  rw [subtrees_mk, List.map_cons, laid.ids, List.range_eq_range', number]
  rfl

theorem Roots.unique (roots : Roots source root forest) {a b : Tree}
    (first : a ∈ (⟨source, ⟨root, forest⟩, strays⟩ : Document).subtrees)
    (second : b ∈ (⟨source, ⟨root, forest⟩, strays⟩ : Document).subtrees)
    (same : a.node.id = b.node.id) : a = b :=
  List.inj_on_of_nodup_map (roots.ids ▸ List.nodup_range) first second same

/-- What is inside a tree of a document is laid inside of it, and only documents and elements have
anything inside. -/
theorem Roots.laid (roots : Roots source root forest) {tree : Tree}
    (member : tree ∈ (⟨source, ⟨root, forest⟩, strays⟩ : Document).subtrees) :
    tree.inside.Laid tree.node.id (tree.node.id + 1) tree.node.span.start tree.node.span.stop ∧
      (tree.inside ≠ .nil → tree.node.kind = .document ∨ tree.node.kind.tag?.isSome) ∧
      tree.node.span.stop ≤ source.byteLength := by
  obtain ⟨⟨number, _⟩, span, kind, laid⟩ := roots
  rcases List.mem_cons.1 member with rfl | within
  · simp only [number, span]
    exact ⟨laid, fun _ => Or.inl kind, Nat.le_refl _⟩
  · obtain ⟨within, holds, _, _, stop⟩ := laid.of_mem_subtrees within
    exact ⟨within, fun full => Or.inr (holds full), stop⟩

/-- Every tree of a document but the first is a child of one that comes before it. -/
theorem Roots.mother (roots : Roots source root forest) {tree : Tree}
    (member : tree ∈ (⟨source, ⟨root, forest⟩, strays⟩ : Document).subtrees)
    (other : tree.node.id ≠ 0) :
    tree ∈ forest.subtrees ∧
      ∃ outer ∈ (⟨source, ⟨root, forest⟩, strays⟩ : Document).subtrees, tree ∈ outer.children ∧
        tree.node.parent = some outer.node.id ∧ outer.node.id < tree.node.id := by
  rcases List.mem_cons.1 member with rfl | within
  · exact absurd roots.1.1 other
  · have found : ∃ outer ∈ (⟨source, ⟨root, forest⟩, strays⟩ : Document).subtrees,
        tree ∈ outer.children := by
      rcases Forest.mem_subtrees_cases within with top | ⟨outer, inner, child⟩
      · exact ⟨⟨root, forest⟩, List.mem_cons_self, top⟩
      · exact ⟨outer, List.mem_cons_of_mem _ inner, child⟩
    obtain ⟨outer, inner, child⟩ := found
    have placed := (roots.laid inner).1.of_mem_trees child
    exact ⟨within, outer, inner, child, placed.1, placed.2.1⟩

private theorem Roots.childIds_nodup (roots : Roots source root forest) {tree : Tree}
    (member : tree ∈ (⟨source, ⟨root, forest⟩, strays⟩ : Document).subtrees) :
    tree.childIds.Nodup := by
  have distinct : ((⟨source, ⟨root, forest⟩, strays⟩ : Document).subtrees.map
      fun tree => tree.node.id).Nodup := roots.ids ▸ List.nodup_range
  have sub : tree.children.Sublist (⟨source, ⟨root, forest⟩, strays⟩ : Document).subtrees := by
    rcases List.mem_cons.1 member with rfl | within
    · exact forest.trees_sublist.cons _
    · exact (tree.inside.trees_sublist.trans (Forest.subtrees_sublist within)).cons _
  exact distinct.sublist (sub.map _)

/-- A tree of a document is listed by the tree that its parent id names, and by no other. -/
private theorem Roots.listed (roots : Roots source root forest) {own tree : Tree}
    (first : own ∈ (⟨source, ⟨root, forest⟩, strays⟩ : Document).subtrees)
    (second : tree ∈ (⟨source, ⟨root, forest⟩, strays⟩ : Document).subtrees)
    (other : own.node.id ≠ 0) :
    own.node.id ∈ tree.childIds ↔ own.node.parent = some tree.node.id := by
  constructor
  · -- Some child has the id of `own`, and so is `own`.
    intro listed
    obtain ⟨child, inside, same⟩ := List.mem_map.1 listed
    have within : child ∈ (⟨source, ⟨root, forest⟩, strays⟩ : Document).subtrees := by
      rcases List.mem_cons.1 second with rfl | deep
      · exact List.mem_cons_of_mem _ (forest.trees_sublist.mem inside)
      · exact List.mem_cons_of_mem _
          ((tree.inside.trees_sublist.trans (Forest.subtrees_sublist deep)).mem inside)
    rw [← roots.unique within first same]
    exact ((roots.laid second).1.of_mem_trees inside).1
  · -- Some tree has `own` as a child, and its id is the one that the parent names.
    intro parent
    obtain ⟨_, outer, inner, child, mother, _⟩ := roots.mother first other
    rw [mother, Option.some.injEq] at parent
    rw [← roots.unique inner second parent]
    exact List.mem_map.2 ⟨own, child, rfl⟩

private theorem Roots.isTree (roots : Roots source root forest) :
    IsTree ⟨source, ⟨root, forest⟩, strays⟩ := by
  have numbered : (⟨source, ⟨root, forest⟩, strays⟩ : Document).subtrees.map
      (fun tree => tree.node.id) = List.range (forest.size + 1) := roots.ids
  have ids : (⟨source, ⟨root, forest⟩, strays⟩ : Document).nodes.map Node.id =
      List.range (⟨source, ⟨root, forest⟩, strays⟩ : Document).nodes.length := by
    have sized := congrArg List.length numbered
    rw [List.length_map, List.length_range] at sized
    rw [nodes, List.map_map, List.length_map, sized]
    exact numbered
  have ⟨⟨number, outside⟩, span, kind, laid⟩ := roots
  refine {
    first := ⟨root, rfl, outside, kind, span⟩
    ids := ids
    parents := ?parents
    listed := ?listed
    nonempty := ?nonempty
    bounded := ?bounded
    inside := ?inside
    siblings := ?siblings
    visits := ?visits }
  case parents =>
    intro node member other
    obtain ⟨tree, within, rfl⟩ := List.mem_map.1 member
    obtain ⟨deep, outer, inner, child, parent, before⟩ := roots.mother within other
    refine ⟨(laid.of_mem_subtrees deep).2.2.1, outer.node, List.mem_map.2 ⟨outer, inner, rfl⟩,
      parent, before, (roots.laid inner).2.1 ?_⟩
    intro empty
    simp [Tree.children, empty, Forest.trees] at child
  case listed =>
    intro node member other tree within
    obtain ⟨own, ownMember, rfl⟩ := List.mem_map.1 member
    rw [(roots.childIds_nodup within).count]
    simp [roots.listed ownMember within other]
  case nonempty =>
    intro node member full
    obtain ⟨tree, within, rfl⟩ := List.mem_map.1 member
    -- Only the document itself may be empty, and it is so just where the source is.
    rcases List.mem_cons.1 within with rfl | deep
    · simpa only [span] using Text.byteLength_pos (full number)
    · exact (laid.of_mem_subtrees deep).2.2.2.1
  case bounded =>
    intro node member
    obtain ⟨tree, within, rfl⟩ := List.mem_map.1 member
    exact (roots.laid within).2.2
  case inside =>
    intro tree within child member
    have placed := (roots.laid within).1.of_mem_trees member
    simp [Span.contains, placed.2.2]
  case siblings =>
    intro tree within
    exact (roots.laid within).1.chain
  case visits =>
    rw [visited, Tree.visit_eq]
    simpa [nodes, subtrees] using ids

end Laid

/-- The trees of a parsed document are laid out in its source. -/
theorem exists_roots_parse (pairs : List Delimiters) (source : Text) :
    ∃ root forest strays, parse pairs source = ⟨source, ⟨root, forest⟩, strays⟩ ∧
      Roots source root forest := by
  obtain ⟨outline, covers, _, parsed⟩ := exists_outline pairs source
  have reads : Piece.Reads pairs outline.pieces := by
    rw [covers]
    exact Piece.reads_scanAll pairs source
  have laid := outline.laid_forest (LineIndex.ofText source) 0 1 0 (Outline.full_of_reads reads)
  have spanned : outline.width = source.byteLength := by
    rw [Outline.width, covers, Piece.renderAll_scanAll]
  rw [Nat.zero_add, spanned] at laid
  exact ⟨_, _, _, parsed, ⟨rfl, rfl⟩, rfl, rfl, laid⟩

theorem nodup_ids_parse (pairs : List Delimiters) (source : Text) :
    ((parse pairs source).nodes.map Node.id).Nodup := by
  obtain ⟨root, forest, strays, parsed, roots⟩ := exists_roots_parse pairs source
  rw [parsed, nodes, List.map_map]
  exact roots.ids ▸ List.nodup_range

/-- Every parsed document is a tree. -/
theorem isTree_parse (pairs : List Delimiters) (source : Text) : (parse pairs source).IsTree := by
  obtain ⟨root, forest, strays, parsed, roots⟩ := exists_roots_parse pairs source
  rw [parsed]
  exact roots.isTree

end Document
end TagLint
