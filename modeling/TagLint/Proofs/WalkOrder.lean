import TagLint.Proofs.TreeShape
import TagLint.Markup.Query

/-!
The order of the walk.

A walk is one list of steps, and where a node is entered and left is told by cutting the list there.
What stands between is the walk through what is inside of the node, and the nodes that wait to be
left are the ones around it. Both follow for a forest in which no tree stands twice
(`Forest.exists_enter`); that the nodes around are also what the parents' ids lead to is a matter of
the tree alone (`Document.enclosing_eq`).
-/
namespace TagLint

namespace Event

/-- The tree that a step enters or leaves. -/
def tree : Event → Tree
  | enter tree => tree
  | leave tree => tree

def entered? : Event → Option Tree
  | enter tree => some tree
  | leave _ => none

/-- The trees that the steps enter and that are still to be left after them, in the order in which
they are entered. -/
def pending : List Event → List Tree
  | [] => []
  | enter tree :: events =>
    if tree.node.kind.isLeft = true ∧ leave tree ∉ events then tree :: pending events
    else pending events
  | leave _ :: events => pending events

theorem pending_append (events more : List Event) :
    pending (events ++ more) =
      (pending events).filter (fun tree => leave tree ∉ more) ++ pending more := by
  induction events with
  | nil => rfl
  | cons event events ih =>
    cases event with
    | leave tree => exact ih
    | enter tree =>
      simp only [List.cons_append, pending, ih, List.mem_append, not_or]
      by_cases waits : tree.node.kind.isLeft = true ∧ leave tree ∉ events
      · by_cases later : leave tree ∈ more <;> simp [waits, later]
      · have closed : ¬(tree.node.kind.isLeft = true ∧ leave tree ∉ events ∧ leave tree ∉ more) :=
          fun open' => waits ⟨open'.1, open'.2.1⟩
        rw [if_neg waits, if_neg closed]

theorem mem_leaving {event : Event} {tree : Tree} :
    event ∈ leaving tree ↔ event = leave tree ∧ tree.node.kind.isLeft = true := by
  unfold leaving
  split <;> simp_all

@[simp] theorem pending_leaving (tree : Tree) : pending (leaving tree) = [] := by
  unfold leaving
  split <;> rfl

@[simp] theorem filterMap_leaving (tree : Tree) : (leaving tree).filterMap entered? = [] := by
  unfold leaving
  split <;> rfl

end Event

namespace Forest

/-- The trees of the forest that have `tree` inside of them, outermost first. -/
def around (forest : Forest) (tree : Tree) : List Tree :=
  forest.subtrees.filter fun outer => tree ∈ outer.inside.subtrees

/-- Whether no tree stands twice in the forest, and the walk leaves whatever it goes into. -/
structure IsWalkable (forest : Forest) : Prop where
  distinct : forest.subtrees.Nodup
  left : ∀ tree ∈ forest.subtrees, tree.inside ≠ nil → tree.node.kind.isLeft = true

section Steps

variable (forest : Forest) (tree : Tree)

theorem filterMap_events : forest.events.filterMap Event.entered? = forest.subtrees := by
  induction forest with
  | nil => rfl
  | cons node inside next ihInside ihNext =>
    simp [events, subtrees, List.filterMap_append, Event.entered?, ihInside, ihNext]

theorem count_enter_events : forest.events.count (.enter tree) = forest.subtrees.count tree := by
  induction forest with
  | nil => rfl
  | cons node inside next ihInside ihNext =>
    have alone : (Event.leaving ⟨node, inside⟩).count (.enter tree) = 0 :=
      List.count_eq_zero.2 fun member => by simpa using Event.mem_leaving.1 member
    simp only [events, subtrees, List.cons_append, List.count_cons, List.count_append, ihInside,
      ihNext, alone, beq_iff_eq, Event.enter.injEq]
    omega

theorem count_leave_events : forest.events.count (.leave tree) =
    if tree.node.kind.isLeft then forest.subtrees.count tree else 0 := by
  induction forest with
  | nil => simp [events, subtrees]
  | cons node inside next ihInside ihNext =>
    have own : (Event.leaving ⟨node, inside⟩).count (.leave tree) =
        if tree.node.kind.isLeft ∧ (⟨node, inside⟩ : Tree) = tree then 1 else 0 := by
      by_cases same : (⟨node, inside⟩ : Tree) = tree
      · subst same
        cases left : node.kind.isLeft <;> simp [Event.leaving, left]
      · unfold Event.leaving
        split <;> simp [same]
    simp only [events, subtrees, List.cons_append, List.count_cons, List.count_append, ihInside,
      ihNext, own, beq_iff_eq]
    split
    · simp_all
      omega
    · simp_all

/-- After a walk through a forest nothing is left to be left. -/
theorem pending_events : Event.pending forest.events = [] := by
  induction forest with
  | nil => rfl
  | cons node inside next ihInside ihNext =>
    simp only [events, List.cons_append, Event.pending, Event.pending_append, ihInside, ihNext,
      Event.pending_leaving, List.filter_nil, List.append_nil]
    rw [if_neg]
    rintro ⟨left, never⟩
    exact never (by simp [Event.leaving, left])

end Steps

variable {forest inside next : Forest} {node : Node} {tree : Tree}

theorem mem_events {event : Event} : event ∈ forest.events ↔
    event.tree ∈ forest.subtrees ∧
      (event = .leave event.tree → event.tree.node.kind.isLeft = true) := by
  rw [← List.count_pos_iff]
  cases event with
  | enter tree => simp [count_enter_events, Event.tree, List.count_pos_iff]
  | leave tree =>
    rw [count_leave_events]
    cases left : tree.node.kind.isLeft <;> simp [Event.tree, left, List.count_pos_iff]

namespace IsWalkable

theorem below (walkable : (cons node inside next).IsWalkable) : inside.IsWalkable where
  distinct := (List.nodup_append.1 (List.nodup_cons.1 walkable.distinct).2).1
  left tree member := walkable.left tree (mem_subtrees_cons.2 (Or.inr (Or.inl member)))

theorem after (walkable : (cons node inside next).IsWalkable) : next.IsWalkable where
  distinct := (List.nodup_append.1 (List.nodup_cons.1 walkable.distinct).2).2.1
  left tree member := walkable.left tree (mem_subtrees_cons.2 (Or.inr (Or.inr member)))

theorem apart (walkable : (cons node inside next).IsWalkable) :
    inside.subtrees.Disjoint next.subtrees :=
  List.disjoint_of_nodup_append (List.nodup_cons.1 walkable.distinct).2

theorem head (walkable : (cons node inside next).IsWalkable) :
    (⟨node, inside⟩ : Tree) ∉ inside.subtrees ∧ (⟨node, inside⟩ : Tree) ∉ next.subtrees := by
  have first := (List.nodup_cons.1 walkable.distinct).1
  rwa [List.mem_append, not_or] at first

/-- No step is made twice. -/
theorem nodup_events (walkable : forest.IsWalkable) : forest.events.Nodup := by
  rw [List.nodup_iff_count_le_one]
  intro event
  have once (tree : Tree) : forest.subtrees.count tree ≤ 1 :=
    List.nodup_iff_count_le_one.1 walkable.distinct tree
  cases event with
  | enter tree => exact forest.count_enter_events tree ▸ once tree
  | leave tree =>
    rw [count_leave_events]
    split
    · exact once tree
    · exact Nat.zero_le 1

theorem around_head (walkable : (cons node inside next).IsWalkable) :
    (cons node inside next).around ⟨node, inside⟩ = [] := by
  have absent := walkable.head
  refine List.filter_eq_nil_iff.2 fun outer member => ?_
  rw [decide_eq_true_iff]
  rcases mem_subtrees_cons.1 member with rfl | deeper | later
  · exact absent.1
  · exact fun within => absent.1 ((subtrees_sublist deeper).mem within)
  · exact fun within => absent.2 ((subtrees_sublist later).mem within)

theorem around_inside (walkable : (cons node inside next).IsWalkable)
    (member : tree ∈ inside.subtrees) :
    (cons node inside next).around tree = ⟨node, inside⟩ :: inside.around tree := by
  have none : next.subtrees.filter (fun outer => tree ∈ outer.inside.subtrees) = [] := by
    refine List.filter_eq_nil_iff.2 fun outer later => ?_
    rw [decide_eq_true_iff]
    exact fun within => walkable.apart member ((subtrees_sublist later).mem within)
  rw [around, subtrees, List.filter_cons_of_pos (by simpa using member), List.filter_append, none,
    List.append_nil, around]

theorem around_next (walkable : (cons node inside next).IsWalkable)
    (member : tree ∈ next.subtrees) : (cons node inside next).around tree = next.around tree := by
  have outside : tree ∉ inside.subtrees := fun within => walkable.apart within member
  have none : inside.subtrees.filter (fun outer => tree ∈ outer.inside.subtrees) = [] := by
    refine List.filter_eq_nil_iff.2 fun outer deeper => ?_
    rw [decide_eq_true_iff]
    exact fun within => outside ((subtrees_sublist deeper).mem within)
  rw [around, subtrees, List.filter_cons_of_neg (by simpa using outside), List.filter_append, none,
    List.nil_append, around]

theorem around_trees (walkable : forest.IsWalkable) (member : tree ∈ forest.trees) :
    forest.around tree = [] := by
  induction forest with
  | nil => rfl
  | cons node inside next _ ih =>
    rcases List.mem_cons.1 member with rfl | later
    · exact walkable.around_head
    · rw [walkable.around_next (next.trees_sublist.mem later)]
      exact ih walkable.after later

/-- Around the child of a tree are the tree and what is around it. -/
theorem around_child (walkable : forest.IsWalkable) {outer : Tree}
    (member : outer ∈ forest.subtrees) (child : tree ∈ outer.children) :
    forest.around tree = forest.around outer ++ [outer] := by
  induction forest with
  | nil => simp [subtrees] at member
  | cons node inside next ihInside ihNext =>
    rcases mem_subtrees_cons.1 member with rfl | deeper | later
    · rw [walkable.around_inside (inside.trees_sublist.mem child), walkable.around_head,
        walkable.below.around_trees child, List.nil_append]
    · have within : tree ∈ inside.subtrees :=
        (subtrees_sublist deeper).mem (outer.inside.trees_sublist.mem child)
      rw [walkable.around_inside within, walkable.around_inside deeper,
        ihInside walkable.below deeper, List.cons_append]
    · have within : tree ∈ next.subtrees :=
        (subtrees_sublist later).mem (outer.inside.trees_sublist.mem child)
      rw [walkable.around_next within, walkable.around_next later, ihNext walkable.after later]

/-- Where a tree is entered, the trees around it wait to be left, and the walk goes on through what
is inside of it. -/
theorem exists_enter (walkable : forest.IsWalkable) (member : tree ∈ forest.subtrees) :
    ∃ before after, forest.events =
        before ++ .enter tree :: (tree.inside.events ++ (Event.leaving tree ++ after)) ∧
      Event.pending before = forest.around tree := by
  induction forest with
  | nil => simp [subtrees] at member
  | cons node inside next ihInside ihNext =>
    rcases mem_subtrees_cons.1 member with rfl | deeper | later
    · exact ⟨[], next.events, by simp [events], by rw [walkable.around_head, Event.pending]⟩
    · obtain ⟨before, after, split, waiting⟩ := ihInside walkable.below deeper
      refine ⟨.enter ⟨node, inside⟩ :: before,
        after ++ (Event.leaving ⟨node, inside⟩ ++ next.events), by simp [events, split], ?_⟩
      have full : inside ≠ nil := by
        rintro rfl
        simp [subtrees] at deeper
      have left : node.kind.isLeft = true := walkable.left _ List.mem_cons_self full
      -- The head is left only after what is inside of it, and `before` is part of that.
      have still : Event.leave ⟨node, inside⟩ ∉ before := fun earlier =>
        walkable.head.1 (mem_events.1 (split ▸ List.mem_append_left _ earlier)).1
      rw [Event.pending, if_pos ⟨left, still⟩, waiting, walkable.around_inside deeper]
    · obtain ⟨before, after, split, waiting⟩ := ihNext walkable.after later
      refine ⟨.enter ⟨node, inside⟩ :: (inside.events ++ (Event.leaving ⟨node, inside⟩ ++ before)),
        after, by simp [events, split], ?_⟩
      -- The steps up to the end of the first tree are a walk of their own.
      have first : Event.pending
          (.enter ⟨node, inside⟩ :: (inside.events ++ Event.leaving ⟨node, inside⟩)) = [] := by
        simpa [events] using pending_events (cons node inside nil)
      rw [← List.append_assoc, ← List.cons_append, Event.pending_append, first, waiting,
        List.filter_nil, List.nil_append, walkable.around_next later]

/-- The step that enters a tree is made once, so wherever it is made these trees wait. -/
theorem pending_eq (walkable : forest.IsWalkable) {before after : List Event}
    (split : forest.events = before ++ .enter tree :: after) :
    Event.pending before = forest.around tree := by
  have member : tree ∈ forest.subtrees :=
    (mem_events.1 (show Event.enter tree ∈ forest.events by rw [split]; simp)).1
  obtain ⟨first, last, known, waiting⟩ := walkable.exists_enter member
  have distinct := walkable.nodup_events
  rw [split, List.nodup_append, List.nodup_cons] at distinct
  obtain ⟨_, ⟨notAfter, _⟩, apart⟩ := distinct
  have notBefore : Event.enter tree ∉ before := fun made =>
    apart _ made _ List.mem_cons_self rfl
  obtain ⟨rfl, _⟩ :=
    (List.append_cons_inj_of_notMem notBefore notAfter).1 (split.symm.trans known)
  exact waiting

/-- Between entering and leaving a tree are just the steps that are about what is inside of it. -/
theorem filter_events (walkable : forest.IsWalkable) {before after : List Event}
    (split : forest.events =
      before ++ .enter tree :: (tree.inside.events ++ (Event.leaving tree ++ after))) :
    forest.events.filter (fun event => event.tree ∈ tree.inside.subtrees) = tree.inside.events := by
  have distinct := walkable.nodup_events
  rw [split, List.nodup_append, List.nodup_cons, List.nodup_append] at distinct
  obtain ⟨_, ⟨entered, _, _, later⟩, earlier⟩ := distinct
  -- Whatever step is made about what is inside is one of the steps between.
  have inner {event : Event} (made : event ∈ forest.events)
      (within : event.tree ∈ tree.inside.subtrees) : event ∈ tree.inside.events :=
    mem_events.2 ⟨within, (mem_events.1 made).2⟩
  have outside (part : List Event) (some : ∀ event ∈ part, event ∈ forest.events)
      (others : ∀ event ∈ part, event ∉ tree.inside.events) :
      part.filter (fun event => event.tree ∈ tree.inside.subtrees) = [] := by
    refine List.filter_eq_nil_iff.2 fun event made => ?_
    rw [decide_eq_true_iff]
    exact fun within => others event made (inner (some event made) within)
  have first := outside (before ++ [.enter tree])
    (fun event made => by
      rw [split, List.append_cons]
      exact List.mem_append_left _ made)
    (fun event made within => by
      rcases List.mem_append.1 made with early | own
      · exact earlier event early event (List.mem_cons_of_mem _ (List.mem_append_left _ within)) rfl
      · obtain rfl := List.mem_singleton.1 own
        exact entered (List.mem_append_left _ within))
  have last := outside (Event.leaving tree ++ after)
    (fun event made => by
      rw [split]
      exact List.mem_append_right _ (List.mem_cons_of_mem _ (List.mem_append_right _ made)))
    (fun event made within => later event within event made rfl)
  have between : tree.inside.events.filter (fun event => event.tree ∈ tree.inside.subtrees) =
      tree.inside.events :=
    List.filter_eq_self.2 fun event made => by simpa using (mem_events.1 made).1
  rw [split, List.append_cons, List.filter_append, first, List.filter_append, between, last,
    List.nil_append, List.append_nil]

end IsWalkable

end Forest

namespace Document

/-- Whether the walk through a document goes into its nodes as a visit with a stack meets them, and
leaves each where all that is inside of it is done. -/
structure IsWalked (doc : Document) : Prop where
  /-- The nodes are entered in the order in which a visit with a stack meets them. -/
  entered : (doc.events.filterMap Event.entered?).map Tree.node = doc.visited
  /-- No two of these nodes are the same. -/
  distinct : (doc.visited.map Node.id).Nodup
  /-- Every step enters or leaves a node of the document. -/
  own : ∀ event ∈ doc.events, event.tree ∈ doc.subtrees
  /-- Every node is entered once. -/
  once : ∀ tree ∈ doc.subtrees, doc.events.count (.enter tree) = 1
  /-- The document and its elements are left once, and other nodes are not left. -/
  left : ∀ tree ∈ doc.subtrees,
    doc.events.count (.leave tree) = if tree.node.kind.isLeft then 1 else 0
  /-- Nodes that are not left have nothing inside. -/
  leaves : ∀ tree ∈ doc.subtrees, tree.node.kind.isLeft = false → tree.inside = .nil
  /-- A node is left after it is entered, and between are the steps about what is inside of it. -/
  brackets : ∀ tree ∈ doc.subtrees, tree.node.kind.isLeft = true → ∃ before after, doc.events =
    before ++ .enter tree ::
      (doc.events.filter (fun event => event.tree ∈ tree.inside.subtrees) ++ .leave tree :: after)
  /-- Where a node is entered, the nodes that wait to be left are the nodes that have it inside,
  outermost first; they are its parent, the parent of that, and so on. -/
  around : ∀ before tree after, doc.events = before ++ .enter tree :: after →
    Event.pending before = doc.subtrees.filter (fun outer => tree ∈ outer.inside.subtrees) ∧
      (Event.pending before).map Tree.node =
        (enclosing doc.nodes.toArray tree.node.id).reverse

/-- The document and what is inside of it are a forest of one tree. -/
theorem subtrees_eq (doc : Document) :
    doc.subtrees = (Forest.cons doc.root.node doc.root.inside .nil).subtrees := by
  simp [subtrees, Tree.subtrees, Forest.subtrees]

theorem events_eq (doc : Document) :
    doc.events = (Forest.cons doc.root.node doc.root.inside .nil).events := by
  simp [events, Forest.events]

section Roots

variable {source : Text} {root : Node} {forest : Forest} {strays : List Stray} {tree : Tree}

theorem Roots.isWalkable (roots : Roots source root forest) :
    (Forest.cons root forest .nil).IsWalkable where
  distinct := by
    have distinct : ((⟨source, ⟨root, forest⟩, []⟩ : Document).subtrees.map
        fun tree => tree.node.id).Nodup := roots.ids ▸ List.nodup_range
    rw [subtrees_eq] at distinct
    exact distinct.of_map
  left tree member full := by
    have within : tree ∈ (⟨source, ⟨root, forest⟩, []⟩ : Document).subtrees :=
      subtrees_eq _ ▸ member
    rcases (roots.laid within).2.1 full with kind | element
    · rw [kind]
      rfl
    · obtain ⟨tag, kind⟩ := Option.isSome_iff_exists.1 element
      cases own : tree.node.kind <;> simp_all [Kind.tag?, Kind.isLeft]

/-- The nodes of a document stand at the places that their ids name. -/
theorem Roots.getElem?_nodes (roots : Roots source root forest)
    (member : tree ∈ (⟨source, ⟨root, forest⟩, strays⟩ : Document).subtrees) :
    (⟨source, ⟨root, forest⟩, strays⟩ : Document).nodes.toArray[tree.node.id]? =
      some tree.node := by
  obtain ⟨place, bound, rfl⟩ := List.getElem_of_mem member
  have ids : (⟨source, ⟨root, forest⟩, strays⟩ : Document).subtrees.map
      (fun tree => tree.node.id) = List.range (forest.size + 1) := roots.ids
  have numbered := congrArg (fun ids => ids[place]?) ids
  have counted := congrArg List.length ids
  rw [List.length_map, List.length_range] at counted
  simp only [List.getElem?_map, List.getElem?_eq_getElem bound, Option.map_some,
    List.getElem?_range (counted ▸ bound), Option.some.injEq] at numbered
  rw [numbered, List.getElem?_toArray, nodes, List.getElem?_map, List.getElem?_eq_getElem bound]
  rfl

/-- The parents' ids lead to the trees around. -/
theorem Roots.enclosing_eq (roots : Roots source root forest)
    (member : tree ∈ (⟨source, ⟨root, forest⟩, strays⟩ : Document).subtrees) :
    enclosing (⟨source, ⟨root, forest⟩, strays⟩ : Document).nodes.toArray tree.node.id =
      (((Forest.cons root forest .nil).around tree).map Tree.node).reverse := by
  have walkable := roots.isWalkable
  -- A parent has a smaller id than its child, so the induction is on the id.
  generalize own : tree.node.id = id
  induction id using Nat.strongRecOn generalizing tree with
  | ind id ih =>
    subst own
    rw [enclosing, roots.getElem?_nodes member, Option.bind_some]
    by_cases first : tree.node.id = 0
    · -- Only the document itself has the first id.
      obtain rfl : tree = ⟨root, forest⟩ :=
        roots.unique member List.mem_cons_self (first.trans roots.1.1.symm)
      rw [walkable.around_head]
      simp [roots.1.2]
    · obtain ⟨_, outer, inner, child, parent, before⟩ := roots.mother member first
      have listed : outer ∈ (Forest.cons root forest .nil).subtrees := by
        rwa [subtrees_eq] at inner
      rw [parent, walkable.around_child listed child]
      simp [before, roots.getElem?_nodes inner, ih _ before inner rfl]

end Roots

/-- Every document is walked in this way. -/
theorem isWalked_parse (pairs : List Delimiters) (source : Text) :
    (parse pairs source).IsWalked := by
  obtain ⟨root, forest, strays, parsed, roots⟩ := exists_roots_parse pairs source
  let doc : Document := ⟨source, ⟨root, forest⟩, strays⟩
  let whole := Forest.cons root forest .nil
  have walkable : whole.IsWalkable := roots.isWalkable
  have subtrees_eq : doc.subtrees = whole.subtrees := doc.subtrees_eq
  have events_eq : doc.events = whole.events := doc.events_eq
  have visited_eq : doc.visited = doc.nodes := by simp [visited, Tree.visit_eq, nodes, subtrees]
  have once {tree : Tree} (member : tree ∈ doc.subtrees) : whole.subtrees.count tree = 1 :=
    List.count_eq_one_of_mem walkable.distinct (subtrees_eq ▸ member)
  rw [parsed]
  change doc.IsWalked
  refine {
    entered := ?entered
    distinct := ?distinct
    own := ?own
    once := ?once
    left := ?left
    leaves := ?leaves
    brackets := ?brackets
    around := ?around }
  case entered =>
    rw [visited_eq, events_eq, Forest.filterMap_events, ← subtrees_eq, nodes]
  case distinct =>
    rw [visited_eq, nodes, List.map_map]
    have ids : doc.subtrees.map (fun tree => tree.node.id) = List.range (forest.size + 1) :=
      roots.ids
    exact ids ▸ List.nodup_range
  case own =>
    intro event made
    exact subtrees_eq ▸ (Forest.mem_events.1 (events_eq ▸ made)).1
  case once =>
    intro tree member
    rw [events_eq, Forest.count_enter_events, once member]
  case left =>
    intro tree member
    rw [events_eq, Forest.count_leave_events, once member]
  case leaves =>
    intro tree member stays
    by_contra full
    rw [walkable.left tree (subtrees_eq ▸ member) full] at stays
    contradiction
  case brackets =>
    -- Between entering a tree and leaving it come the events of what is inside it.
    intro tree member left
    obtain ⟨before, after, split, _⟩ := walkable.exists_enter (subtrees_eq ▸ member)
    have between := walkable.filter_events split
    refine ⟨before, after, ?_⟩
    rw [events_eq, between, split]
    simp [Event.leaving, left]
  case around =>
    -- What is entered and not left when a tree is entered are the trees around it, and the parents'
    -- ids give the same from the inside out.
    intro before tree after split
    rw [events_eq] at split
    have member : tree ∈ doc.subtrees := subtrees_eq ▸
      (Forest.mem_events.1 (show Event.enter tree ∈ whole.events by rw [split]; simp)).1
    have waiting := walkable.pending_eq split
    have around_eq : whole.around tree =
        doc.subtrees.filter (fun outer => tree ∈ outer.inside.subtrees) := by
      rw [subtrees_eq, Forest.around]
    refine ⟨waiting.trans around_eq, ?_⟩
    rw [waiting, roots.enclosing_eq member, List.reverse_reverse]

end Document

end TagLint
