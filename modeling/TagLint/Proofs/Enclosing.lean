import TagLint.Proofs.ForeignSubtrees
import TagLint.Proofs.WalkOrder

/-!
The elements around a node.

Looking for an element around a node goes up from parent to parent. On a laid forest what is inside
a tree is told by ids and spans alone (`Forest.Laid.mem_inside_iff`): spans of trees that are not
inside each other are apart, however far unclosed elements reach and wherever closing tags were
dropped. So the way up meets the nodes before the node whose spans contain its span, the last of
them first, and the first one that is accepted is the nearest.
-/
namespace TagLint

/-- In a list in which the keys fall, the first item that satisfies `accepts` is the one with the
greatest key. -/
theorem find?_eq_some_iff_greatest {α : Type} {key : α → Nat} {list : List α}
    (falling : list.Pairwise fun a b => key b < key a) (accepts : α → Bool) (found : α) :
    list.find? accepts = some found ↔
      (found ∈ list ∧ accepts found = true) ∧
        ∀ other ∈ list, accepts other = true → key other ≤ key found := by
  -- The search stops at the first that is accepted, and the keys only fall after it.
  induction list with
  | nil => simp
  | cons a list ih =>
    obtain ⟨below, falling⟩ := List.pairwise_cons.1 falling
    cases accepted : accepts a with
    | false =>
      rw [List.find?_cons_of_neg (by simp [accepted]), ih falling]
      simp only [List.mem_cons]
      constructor
      · rintro ⟨⟨member, fits⟩, greatest⟩
        refine ⟨⟨.inr member, fits⟩, ?_⟩
        rintro other (rfl | later) fits'
        · simp [accepted] at fits'
        · exact greatest other later fits'
      · rintro ⟨⟨rfl | member, fits⟩, greatest⟩
        · simp [accepted] at fits
        · exact ⟨⟨member, fits⟩, fun other later => greatest other (.inr later)⟩
    | true =>
      rw [List.find?_cons_of_pos accepted, Option.some.injEq]
      constructor
      · rintro rfl
        refine ⟨⟨List.mem_cons_self, accepted⟩, fun other member _ => ?_⟩
        rcases List.mem_cons.1 member with rfl | later
        · exact Nat.le_refl _
        · exact Nat.le_of_lt (below other later)
      · rintro ⟨⟨member, _⟩, greatest⟩
        rcases List.mem_cons.1 member with rfl | later
        · rfl
        · have := greatest a List.mem_cons_self accepted
          have := below found later
          omega

theorem Span.contains_iff {outer inner : Span} :
    outer.contains inner = true ↔ outer.start ≤ inner.start ∧ inner.stop ≤ outer.stop := by
  simp [contains]

namespace Forest

variable {forest : Forest} {parent id lo hi : Nat} {outer tree : Tree}

/-- A tree is inside the trees that come before it and whose spans contain its own. -/
theorem Laid.mem_inside_iff (laid : forest.Laid parent id lo hi) (first : outer ∈ forest.subtrees)
    (second : tree ∈ forest.subtrees) :
    tree ∈ outer.inside.subtrees ↔
      outer.node.id < tree.node.id ∧ outer.node.span.contains tree.node.span = true := by
  constructor
  · intro within
    obtain ⟨content, -⟩ := laid.of_mem_subtrees first
    obtain ⟨_, _, _, _, stop⟩ := content.of_mem_subtrees within
    exact ⟨laid.id_lt_of_mem_inside first within,
      Span.contains_iff.2 ⟨content.start_of_mem_subtrees within, stop⟩⟩
  · rw [Span.contains_iff]
    rintro ⟨before, starts, stops⟩
    have long : tree.node.span.start < tree.node.span.stop := (laid.of_mem_subtrees second).2.2.2.1
    induction forest generalizing parent id lo hi with
    | nil => simp [subtrees] at first
    | cons node inside next ihInside ihNext =>
      obtain ⟨⟨rfl, _⟩, _, _, within, later⟩ := laid
      rcases mem_subtrees_cons.1 first with rfl | outerBelow | outerAfter
      · rcases mem_subtrees_cons.1 second with rfl | below | after
        · omega
        · exact below
        · -- What follows the head starts after its end, so the head does not contain it.
          have := later.start_of_mem_subtrees after
          simp only at stops
          omega
      · have bound := within.id_of_mem_subtrees outerBelow
        obtain ⟨_, _, _, _, upto⟩ := within.of_mem_subtrees outerBelow
        rcases mem_subtrees_cons.1 second with rfl | below | after
        · simp only at before
          omega
        · exact ihInside within outerBelow below
        · have := later.start_of_mem_subtrees after
          omega
      · have bound := later.id_of_mem_subtrees outerAfter
        rcases mem_subtrees_cons.1 second with rfl | below | after
        · simp only at before
          omega
        · have := within.id_of_mem_subtrees below
          omega
        · exact ihNext later outerAfter after

end Forest

namespace Document

/-- Whether `outer` is an element of the document that `accepts` takes and that encloses the node,
as ids and spans tell. -/
structure Encloses (doc : Document) (accepts : Node → Bool) (node outer : Node) : Prop where
  member : outer ∈ doc.nodes
  element : outer.kind.tag?.isSome = true
  before : outer.id < node.id
  contains : outer.span.contains node.span = true
  accepted : accepts outer = true

/-- What looking for an element around a node finds in a document, whatever is looked for. -/
structure FindsEnclosing (doc : Document) : Prop where
  /-- The way up goes from a node to its parent, which comes before it, and on from there; it ends
  at a node without a parent. -/
  climbs : ∀ node ∈ doc.nodes, ∀ parent ∈ node.parent, parent < node.id ∧
    ∃ outer, doc.nodes.toArray[parent]? = some outer ∧
      enclosing doc.nodes.toArray node.id = outer :: enclosing doc.nodes.toArray parent
  ends : ∀ node ∈ doc.nodes, node.parent = none → enclosing doc.nodes.toArray node.id = []
  /-- The nodes on the way are those before the node whose spans contain its span. -/
  chain : ∀ node ∈ doc.nodes, enclosing doc.nodes.toArray node.id =
    (doc.nodes.filter fun outer => outer.id < node.id && outer.span.contains node.span).reverse
  /-- The element that is found is the last one that encloses the node. -/
  nearest : ∀ node ∈ doc.nodes, ∀ accepts found,
    findEnclosing? doc.nodes.toArray node.id accepts = some found ↔
      doc.Encloses accepts node found ∧
        ∀ other, doc.Encloses accepts node other → other.id ≤ found.id
  /-- Nothing is found just where no element encloses the node. -/
  missing : ∀ node ∈ doc.nodes, ∀ accepts,
    findEnclosing? doc.nodes.toArray node.id accepts = none ↔
      ∀ other, ¬doc.Encloses accepts node other
  /-- The document itself is never found, even if it is accepted. -/
  inDocument : ∀ node ∈ doc.nodes, ∀ accepts found,
    findEnclosing? doc.nodes.toArray node.id accepts = some found → found.kind ≠ .document

section Roots

variable {source : Text} {root : Node} {forest : Forest} {strays : List Stray} {tree outer : Tree}

theorem Roots.mem_inside_iff (roots : Roots source root forest)
    (first : outer ∈ (⟨source, ⟨root, forest⟩, strays⟩ : Document).subtrees)
    (second : tree ∈ (⟨source, ⟨root, forest⟩, strays⟩ : Document).subtrees) :
    tree ∈ outer.inside.subtrees ↔
      outer.node.id < tree.node.id ∧ outer.node.span.contains tree.node.span = true := by
  obtain ⟨⟨number, _⟩, span, _, laid⟩ := roots
  rcases List.mem_cons.1 first with rfl | outerBelow
  · rcases List.mem_cons.1 second with rfl | below
    · have absent : (⟨root, forest⟩ : Tree) ∉ forest.subtrees := fun member => by
        have bound := (laid.id_of_mem_subtrees member).1
        simp only [number] at bound
        omega
      simp [absent]
    · -- The document contains all there is.
      have bound := laid.id_of_mem_subtrees below
      obtain ⟨_, _, _, _, stop⟩ := laid.of_mem_subtrees below
      simp only [below, number, span, Span.contains_iff, true_iff]
      omega
  · have bound := laid.id_of_mem_subtrees outerBelow
    rcases List.mem_cons.1 second with rfl | below
    · have absent : (⟨root, forest⟩ : Tree) ∉ outer.inside.subtrees := fun member => by
        have later := laid.id_lt_of_mem_inside outerBelow member
        simp only [number] at later
        omega
      simp [absent, number]
    · exact laid.mem_inside_iff outerBelow below

/-- The way up meets the nodes whose spans contain the span. -/
theorem Roots.enclosing_eq_filter (roots : Roots source root forest)
    (member : tree ∈ (⟨source, ⟨root, forest⟩, strays⟩ : Document).subtrees) :
    enclosing (⟨source, ⟨root, forest⟩, strays⟩ : Document).nodes.toArray tree.node.id =
      ((⟨source, ⟨root, forest⟩, strays⟩ : Document).nodes.filter fun outer =>
        outer.id < tree.node.id && outer.span.contains tree.node.span).reverse := by
  rw [roots.enclosing_eq member, Forest.around, ← subtrees_eq ⟨source, ⟨root, forest⟩, strays⟩,
    nodes, List.filter_map]
  congr 2
  refine List.filter_congr fun outer inner => ?_
  rw [Bool.eq_iff_iff, decide_eq_true_iff, roots.mem_inside_iff inner member]
  simp

theorem Roots.ids_ascending (roots : Roots source root forest) :
    (⟨source, ⟨root, forest⟩, strays⟩ : Document).nodes.Pairwise fun a b => a.id < b.id := by
  rw [nodes, List.pairwise_map, ← List.pairwise_map, roots.ids]
  exact List.pairwise_lt_range

/-- On the way up are the document and the elements that enclose the node. -/
theorem Roots.encloses_iff (roots : Roots source root forest)
    (member : tree ∈ (⟨source, ⟨root, forest⟩, strays⟩ : Document).subtrees)
    (accepts : Node → Bool) (other : Node) :
    (other ∈ enclosing (⟨source, ⟨root, forest⟩, strays⟩ : Document).nodes.toArray tree.node.id ∧
        (other.kind != .document && accepts other) = true) ↔
      (⟨source, ⟨root, forest⟩, strays⟩ : Document).Encloses accepts tree.node other := by
  rw [roots.enclosing_eq_filter member, List.mem_reverse, List.mem_filter]
  simp only [Bool.and_eq_true, decide_eq_true_eq, bne_iff_ne, ne_eq]
  constructor
  · rintro ⟨⟨among, before, contains⟩, inner, accepted⟩
    -- Something is inside of it, so it is an element if it is not the document.
    obtain ⟨outer, listed, rfl⟩ := List.mem_map.1 among
    have within := (roots.mem_inside_iff listed member).2 ⟨before, contains⟩
    have full : outer.inside ≠ .nil := by
      intro empty
      simp [empty, Forest.subtrees] at within
    have element := ((roots.laid listed).2.1 full).resolve_left inner
    exact ⟨among, element, before, contains, accepted⟩
  · rintro ⟨among, element, before, contains, accepted⟩
    refine ⟨⟨among, before, contains⟩, ?_, accepted⟩
    intro kind
    simp [kind, Kind.tag?] at element

/-- The way up from a node with a parent goes on from there. -/
theorem Roots.climb (roots : Roots source root forest)
    (member : tree ∈ (⟨source, ⟨root, forest⟩, strays⟩ : Document).subtrees) {parent : Nat}
    (own : tree.node.parent = some parent) :
    parent < tree.node.id ∧ ∃ outer,
      (⟨source, ⟨root, forest⟩, strays⟩ : Document).nodes.toArray[parent]? = some outer ∧
        enclosing (⟨source, ⟨root, forest⟩, strays⟩ : Document).nodes.toArray tree.node.id =
          outer :: enclosing (⟨source, ⟨root, forest⟩, strays⟩ : Document).nodes.toArray
            parent := by
  have other : tree.node.id ≠ 0 := by
    intro first
    rw [roots.unique member List.mem_cons_self (first.trans roots.1.1.symm)] at own
    simp [roots.1.2] at own
  obtain ⟨_, outer, inner, _, mother, before⟩ := roots.mother member other
  obtain rfl := Option.some.inj (mother.symm.trans own)
  refine ⟨before, outer.node, roots.getElem?_nodes inner, ?_⟩
  rw [enclosing, roots.getElem?_nodes member]
  simp [mother, before, roots.getElem?_nodes inner]

end Roots

/-- Whatever is looked for in a parsed document, the nearest element around is found. -/
theorem findsEnclosing_parse (pairs : List Delimiters) (source : Text) :
    (parse pairs source).FindsEnclosing := by
  obtain ⟨root, forest, strays, parsed, roots⟩ := exists_roots_parse pairs source
  rw [parsed]
  -- The way up goes from greater to smaller ids.
  have falling (node : Node) :
      ((⟨source, ⟨root, forest⟩, strays⟩ : Document).nodes.filter fun outer =>
        outer.id < node.id && outer.span.contains node.span).reverse.Pairwise
          fun a b => b.id < a.id :=
    List.pairwise_reverse.2 (roots.ids_ascending.filter _)
  refine {
    climbs := ?climbs
    ends := ?ends
    chain := ?chain
    nearest := ?nearest
    missing := ?missing
    inDocument := ?inDocument }
  case climbs =>
    intro node member parent own
    obtain ⟨tree, within, rfl⟩ := List.mem_map.1 member
    exact roots.climb within own
  case ends =>
    intro node member none
    obtain ⟨tree, within, rfl⟩ := List.mem_map.1 member
    rw [enclosing, roots.getElem?_nodes within, Option.bind_some, none]
  case chain =>
    intro node member
    obtain ⟨tree, within, rfl⟩ := List.mem_map.1 member
    exact roots.enclosing_eq_filter within
  case nearest =>
    intro node member accepts found
    obtain ⟨tree, within, rfl⟩ := List.mem_map.1 member
    have greatest := find?_eq_some_iff_greatest (falling tree.node)
      (fun outer => outer.kind != .document && accepts outer) found
    rw [← roots.enclosing_eq_filter within, roots.encloses_iff within] at greatest
    rw [findEnclosing?, greatest]
    refine and_congr_right fun _ => forall_congr' fun other => ?_
    rw [← roots.encloses_iff within, and_imp]
  case missing =>
    intro node member accepts
    obtain ⟨tree, within, rfl⟩ := List.mem_map.1 member
    rw [findEnclosing?, List.find?_eq_none]
    refine forall_congr' fun other => ?_
    rw [← roots.encloses_iff within, not_and]
  case inDocument =>
    intro node member accepts found shown
    have satisfied := List.find?_some shown
    simp only [Bool.and_eq_true, bne_iff_ne, ne_eq] at satisfied
    exact satisfied.1

end Document
end TagLint
