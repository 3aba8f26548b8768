import TagLint.Proofs.Tiling

/-!
Which elements are open where, and how closing tags find their elements.

`Document.openAt` says which elements are open at a place of the source without looking at how the
document was built. The builder finds the element of a closing tag on its stack; what it does is
stated here about open elements: the innermost one of the name is closed, those inside it are left
unclosed, and a closing tag without such an element changes nothing.
-/
namespace TagLint

open Written (Piece OpenTag)

theorem Text.sameName_comm (s t : Text) : Text.sameName s t = Text.sameName t s := by
  rw [Text.sameName, BEq.comm, Text.sameName]

/-- Whether the element waits for a closing tag, inside a foreign subtree or outside of all. -/
def Tag.waits (isForeign : Bool) (tag : Tag) : Bool :=
  !(tag.isSelfClosing || (!isForeign && isVoidName tag.name))

def Kind.close? : Kind → Option Token
  | .element tag | .script tag _ | .style tag _ => tag.close
  | _ => none

namespace Node

/-- Whether the node is an element that opened before `place`, waits for a closing tag, and has
none before `place`. -/
def isOpenAt (place : Nat) (isForeign : Bool) (node : Node) : Bool :=
  node.kind.tag?.any fun tag =>
    decide (node.span.start < place) && tag.waits isForeign &&
      tag.close.all fun close => decide (place ≤ close.span.start)

def isForeignRoot (node : Node) : Bool :=
  node.kind.tag?.any fun tag => TagLint.isForeignRoot tag.name

end Node

namespace Forest

/-- The trees of the elements that are open at `place`, outermost first. An element ends with its
own closing tag or with an element around it, so what is open is inside of what is open. -/
def openAt (place : Nat) (isForeign : Bool) : Forest → List Tree
  | nil => []
  | cons node inside next =>
    let here := if node.isOpenAt place isForeign then
      ⟨node, inside⟩ :: inside.openAt place (isForeign || node.isForeignRoot) else []
    here ++ next.openAt place isForeign

end Forest

def Document.openAt (doc : Document) (place : Nat) : List Tree :=
  doc.root.inside.openAt place false

namespace Tree

def isNamed (tree : Tree) (name : Text) : Bool :=
  tree.node.kind.tag?.any fun tag => Text.sameName tag.name name

/-- Where an element without a closing tag ends: with its last child, if it has any, but not before
its opening tag does. -/
def unclosedStop (tree : Tree) (tag : Tag) : Nat :=
  match tree.children.getLast? with
  | none => tag.openEnd.span.stop
  | some last => max tag.openEnd.span.stop last.node.span.stop

theorem unclosedStop_eq {tree : Tree} {tag : Tag} {inner id hi : Nat}
    (laid : tree.inside.Laid inner id tag.openEnd.span.stop hi) :
    tree.unclosedStop tag = tree.inside.stopFrom tag.openEnd.span.stop := by
  have bound := laid.stopFrom_bounds.1
  rw [Forest.stopFrom_eq] at bound ⊢
  simp only [unclosedStop, children]
  cases shown : tree.inside.trees.getLast? with
  | none => rfl
  | some last =>
    simp only [shown, Option.map_some, Option.getD_some] at bound ⊢
    exact Nat.max_eq_right bound

/-- Whether the element has no closing tag and ends where such an element does. -/
def EndsUnclosed (tree : Tree) : Prop :=
  ∃ tag, tree.node.kind = .element tag ∧ tag.close = none ∧
    tree.node.span.stop = tree.unclosedStop tag

/-- Whether the element has `token` as its closing tag and ends with it. -/
def IsClosedBy (tree : Tree) (token : Token) : Prop :=
  ∃ tag, tree.node.kind = .element tag ∧ tag.close = some token ∧
    tree.node.span.stop = token.span.stop

end Tree

/-- Whether neither end of the span is in the other one; they may meet at its outer edges. -/
def Span.Avoids (own other : Span) : Prop :=
  (own.start < other.start ∨ other.stop ≤ own.start) ∧
    (own.stop ≤ other.start ∨ other.stop < own.stop)

/-! ### What is open and what a closing tag does in a forest -/

namespace Forest

theorem openAt_cons_of_isOpenAt {place : Nat} {isForeign : Bool} {node : Node}
    (isOpen : node.isOpenAt place isForeign = true) (inside next : Forest) :
    (cons node inside next).openAt place isForeign =
      ⟨node, inside⟩ :: (inside.openAt place (isForeign || node.isForeignRoot) ++
        next.openAt place isForeign) := by
  simp [openAt, isOpen]

theorem openAt_cons_of_not_isOpenAt {place : Nat} {isForeign : Bool} {node : Node}
    (ended : node.isOpenAt place isForeign = false) (inside next : Forest) :
    (cons node inside next).openAt place isForeign = next.openAt place isForeign := by
  simp [openAt, ended]

theorem mem_subtrees_of_mem_openAt {forest : Forest} {place : Nat} {isForeign : Bool} {tree : Tree}
    (member : tree ∈ forest.openAt place isForeign) : tree ∈ forest.subtrees := by
  induction forest generalizing isForeign with
  | nil => simp [openAt] at member
  | cons node inside next ihInside ihNext =>
    rw [mem_subtrees_cons]
    cases isOpen : node.isOpenAt place isForeign with
    | false =>
      rw [openAt_cons_of_not_isOpenAt isOpen] at member
      exact Or.inr (Or.inr (ihNext member))
    | true =>
      rw [openAt_cons_of_isOpenAt isOpen, List.mem_cons, List.mem_append] at member
      rcases member with same | deeper | later
      · exact Or.inl same
      · exact Or.inr (Or.inl (ihInside deeper))
      · exact Or.inr (Or.inr (ihNext later))

/-- Nothing is open before the first tree. -/
theorem Laid.openAt_eq_nil {forest : Forest} {parent id lo hi : Nat}
    (laid : forest.Laid parent id lo hi) {place : Nat} (before : place ≤ lo) (isForeign : Bool) :
    forest.openAt place isForeign = [] := by
  induction forest generalizing id lo with
  | nil => rfl
  | cons node inside next _ ih =>
    obtain ⟨_, ⟨after, long⟩, _, _, later⟩ := laid
    have ended : node.isOpenAt place isForeign = false := by
      have late : ¬node.span.start < place := by omega
      cases tag : node.kind.tag? <;> simp [Node.isOpenAt, tag, late]
    rw [openAt_cons_of_not_isOpenAt ended]
    exact ih later (by omega)

theorem Laid.start_of_mem_subtrees {forest : Forest} {parent id lo hi : Nat}
    (laid : forest.Laid parent id lo hi) {tree : Tree} (member : tree ∈ forest.subtrees) :
    lo ≤ tree.node.span.start := by
  induction forest generalizing parent id lo hi with
  | nil => simp [subtrees] at member
  | cons node inside next ihInside ihNext =>
    obtain ⟨_, ⟨after, long⟩, _, within, later⟩ := laid
    rcases mem_subtrees_cons.1 member with rfl | deeper | more
    · exact after
    · exact Nat.le_trans after (ihInside within deeper)
    · exact Nat.le_trans (by omega) (ihNext later more)

theorem Laid.avoids_of_le {forest : Forest} {parent id lo hi : Nat}
    (laid : forest.Laid parent id lo hi) {span : Span} (before : hi ≤ span.start) {tree : Tree}
    (member : tree ∈ forest.subtrees) : tree.node.span.Avoids span := by
  obtain ⟨_, _, _, long, stop⟩ := laid.of_mem_subtrees member
  exact ⟨by omega, by omega⟩

theorem Laid.avoids_of_ge {forest : Forest} {parent id lo hi : Nat}
    (laid : forest.Laid parent id lo hi) {span : Span} (after : span.stop ≤ lo) {tree : Tree}
    (member : tree ∈ forest.subtrees) : tree.node.span.Avoids span := by
  have start := laid.start_of_mem_subtrees member
  obtain ⟨_, _, _, long, _⟩ := laid.of_mem_subtrees member
  exact ⟨by omega, by omega⟩

/-- Where the trees avoid a span, the last of them does not end in it. -/
theorem stopFrom_avoids {forest : Forest} {span : Span}
    (avoid : ∀ tree ∈ forest.subtrees, tree.node.span.Avoids span) {lo : Nat}
    (before : lo ≤ span.start) :
    forest.stopFrom lo ≤ span.start ∨ span.stop < forest.stopFrom lo := by
  rw [stopFrom_eq]
  cases last : forest.trees.getLast? with
  | none => exact Or.inl before
  | some tree =>
    exact (avoid tree (forest.trees_sublist.mem (List.mem_of_getLast? last))).2

/-- Whether `token`, which is a closing tag named `name` at `place`, closes the innermost open
element of the name and leaves those inside it unclosed. -/
def Closes (forest : Forest) (isForeign : Bool) (place : Nat) (name : Text) (token : Token) :
    Prop :=
  ∃ outer tree inner, forest.openAt place isForeign = outer ++ tree :: inner ∧
    tree.isNamed name = true ∧ tree.IsClosedBy token ∧
    ∀ other ∈ inner, other.isNamed name = false ∧ other.EndsUnclosed

/-- Whether a closing tag named `name` over `span` closes none of the open elements, and nothing in
the forest starts, ends or changes there. -/
def Drops (forest : Forest) (isForeign : Bool) (name : Text) (span : Span) : Prop :=
  (∀ tree ∈ forest.openAt span.start isForeign, tree.isNamed name = false) ∧
    forest.openAt span.stop isForeign = forest.openAt span.start isForeign ∧
    ∀ tree ∈ forest.subtrees, tree.node.span.Avoids span

section Cons

variable {node : Node} {inside next : Forest} {parent id lo hi place : Nat} {isForeign : Bool}
  {name : Text} {token : Token} {span : Span}

theorem openAt_cons_of_laid (isOpen : node.isOpenAt place isForeign = true)
    (later : next.Laid parent id lo hi) (before : place ≤ lo) :
    (cons node inside next).openAt place isForeign =
      ⟨node, inside⟩ :: inside.openAt place (isForeign || node.isForeignRoot) := by
  rw [openAt_cons_of_isOpenAt isOpen, later.openAt_eq_nil before, List.append_nil]

theorem Closes.within (closes : inside.Closes (isForeign || node.isForeignRoot) place name token)
    (isOpen : node.isOpenAt place isForeign = true) (later : next.Laid parent id lo hi)
    (before : place ≤ lo) : (cons node inside next).Closes isForeign place name token := by
  obtain ⟨outer, tree, inner, shown, rest⟩ := closes
  refine ⟨⟨node, inside⟩ :: outer, tree, inner, ?_, rest⟩
  rw [openAt_cons_of_laid isOpen later before, shown, List.cons_append]

theorem Closes.after (closes : next.Closes isForeign place name token)
    (ended : node.isOpenAt place isForeign = false) :
    (cons node inside next).Closes isForeign place name token := by
  obtain ⟨outer, tree, inner, shown, rest⟩ := closes
  exact ⟨outer, tree, inner, by rw [openAt_cons_of_not_isOpenAt ended, shown], rest⟩

theorem Drops.within (drops : inside.Drops (isForeign || node.isForeignRoot) name span)
    (isOpen : node.isOpenAt span.start isForeign = true)
    (still : node.isOpenAt span.stop isForeign = true) (ordered : span.start ≤ span.stop)
    (later : next.Laid parent id lo hi) (before : span.stop ≤ lo)
    (other : (⟨node, inside⟩ : Tree).isNamed name = false) (apart : node.span.Avoids span) :
    (cons node inside next).Drops isForeign name span := by
  obtain ⟨nowhere, same, avoids⟩ := drops
  refine ⟨?_, ?_, ?_⟩
  · intro tree member
    rw [openAt_cons_of_laid isOpen later (Nat.le_trans ordered before)] at member
    rcases List.mem_cons.1 member with rfl | deeper
    · exact other
    · exact nowhere tree deeper
  · rw [openAt_cons_of_laid isOpen later (Nat.le_trans ordered before),
      openAt_cons_of_laid still later before, same]
  · intro tree member
    rcases mem_subtrees_cons.1 member with rfl | deeper | more
    · exact apart
    · exact avoids tree deeper
    · exact later.avoids_of_ge before more

theorem Drops.after (drops : next.Drops isForeign name span)
    (ended : ∀ place, span.start ≤ place → node.isOpenAt place isForeign = false)
    (ordered : span.start ≤ span.stop) (apart : node.span.Avoids span)
    (avoid : ∀ tree ∈ inside.subtrees, tree.node.span.Avoids span) :
    (cons node inside next).Drops isForeign name span := by
  obtain ⟨nowhere, same, avoids⟩ := drops
  have first := openAt_cons_of_not_isOpenAt (ended _ (Nat.le_refl _)) inside next
  have second := openAt_cons_of_not_isOpenAt (ended _ ordered) inside next
  refine ⟨?_, ?_, ?_⟩
  · intro tree member
    rw [first] at member
    exact nowhere tree member
  · rw [first, second, same]
  · intro tree member
    rcases mem_subtrees_cons.1 member with rfl | deeper | more
    · exact apart
    · exact avoid tree deeper
    · exact avoids tree more

end Cons

end Forest

namespace Outline

theorem isForeignIn_cons (outer : List Text) (name : Text) :
    isForeignIn (name :: outer) = (isForeignIn outer || isForeignRoot name) := by
  simp [isForeignIn, Bool.or_comm]

/-- The node that a single piece is stands behind nothing: it is not open anywhere. -/
theorem isOpenAt_of_kindAt? {outer : List Text} {index : LineIndex} {offset : Nat} {piece : Piece}
    {next : Option Piece} (stands : piece.StandsAlone outer next) {kind : Kind}
    (found : piece.kindAt? index offset = some kind) {node : Node} (same : node.kind = kind)
    (place : Nat) : node.isOpenAt place (isForeignIn outer) = false := by
  subst same
  cases piece with
  | text | comment | doctype =>
    simp only [Piece.kindAt?, Option.some.injEq] at found
    simp [Node.isOpenAt, ← found, Kind.tag?]
  | closing => simp [Piece.kindAt?] at found
  | raw tag body =>
    simp only [Piece.kindAt?, Option.some.injEq] at found
    rw [Node.isOpenAt, ← found]
    split <;> rfl
  | opening tag =>
    simp only [Piece.kindAt?, Option.some.injEq] at found
    have never : (index.tagAt offset tag none).waits (isForeignIn outer) = false := stands.1
    simp [Node.isOpenAt, ← found, Kind.tag?, never]

section Element

variable {index : LineIndex} {outer : List Text} {offset : Nat} {tag : OpenTag}
  {close : Option Token} {node : Node} (place : Nat)

theorem isOpenAt_of_waits (kind : node.kind = .element (index.tagAt offset tag close))
    (waits : tag.waitsIn outer = true) (before : node.span.start < place)
    (still : ∀ token ∈ close, place ≤ token.span.start) :
    node.isOpenAt place (isForeignIn outer) = true := by
  have ready : (index.tagAt offset tag close).waits (isForeignIn outer) = true := waits
  have unclosed : (index.tagAt offset tag close).close = close := rfl
  simp only [Node.isOpenAt, kind, Kind.tag?, Option.any_some, ready, unclosed, before,
    decide_true, Bool.true_and]
  cases close with
  | none => rfl
  | some token => simpa using still token rfl

theorem isOpenAt_of_closed (kind : node.kind = .element (index.tagAt offset tag close))
    (ended : ∃ token ∈ close, token.span.start < place) (isForeign : Bool) :
    node.isOpenAt place isForeign = false := by
  obtain ⟨token, rfl, before⟩ := ended
  have closed : (index.tagAt offset tag (some token)).close = some token := rfl
  have late : ¬place ≤ token.span.start := by omega
  simp [Node.isOpenAt, kind, Kind.tag?, closed, late]

theorem isForeignRoot_of_kind (kind : node.kind = .element (index.tagAt offset tag close)) :
    node.isForeignRoot = isForeignRoot tag.name := by
  simp [Node.isForeignRoot, kind, Kind.tag?, LineIndex.tagAt]

end Element

/-! ### Closing tags among the pieces of an outline -/

/-- What is still open after an outline is what the outline leaves open. -/
theorem openAt_after (index : LineIndex) {outer : List Text} (parent id : Nat) {offset : Nat}
    {outline : Outline} (nested : outline.Nested outer) (full : outline.IsFull) {place : Nat}
    (after : offset + outline.width ≤ place) {tree : Tree}
    (member : tree ∈ (outline.forest index parent id offset).openAt place (isForeignIn outer)) :
    tree.EndsUnclosed ∧ ∃ name ∈ outline.unclosed, ∀ other, tree.isNamed other =
      Text.sameName name other := by
  induction outline generalizing outer parent id offset with
  | nil => simp [forest, Forest.openAt] at member
  | single piece next ih =>
    obtain ⟨stands, nestedNext⟩ := nested
    obtain ⟨_, fullNext⟩ := full_single full
    rw [width_single] at after
    have later : offset + piece.width + next.width ≤ place := by omega
    cases kind : piece.kindAt? index offset with
    | none =>
      simp only [forest, kind] at member
      exact ih _ _ nestedNext fullNext later member
    | some kind' =>
      simp only [forest, kind] at member
      rw [Forest.openAt_cons_of_not_isOpenAt (isOpenAt_of_kindAt? stands kind rfl place)] at member
      exact ih _ _ nestedNext fullNext later member
  | element tag inside close next ihInside ihNext =>
    obtain ⟨opens, fullInside, closeFull, fullNext⟩ := full_element full
    let within := offset + tag.render.byteLength
    rw [width_element] at after
    have content := laid_forest index id (id + 1) within inside fullInside
    obtain ⟨node, shown, _, kind, start, _, stop⟩ :=
      forest_element index parent id offset tag inside close next content
    rw [shown] at member
    cases close with
    | none =>
      -- The element stays open, and so does what is open inside it.
      obtain ⟨waits, nestedInside, rfl⟩ := nested
      simp only [Option.map_none, Option.getD_none] at after
      have isOpen := isOpenAt_of_waits place kind waits (by omega : node.span.start < place)
        (by simp)
      rw [Forest.openAt_cons_of_isOpenAt isOpen, isForeignRoot_of_kind kind, ← isForeignIn_cons]
        at member
      simp only [forest, Forest.openAt, List.append_nil, List.mem_cons] at member
      rcases member with rfl | deeper
      · constructor
        · refine ⟨_, kind, rfl, ?_⟩
          rw [Tree.unclosedStop_eq (by simpa using content), LineIndex.tagAt_stop]
          exact stop
        · refine ⟨tag.name, by simp [unclosed], fun other => ?_⟩
          simp [Tree.isNamed, kind, Kind.tag?, LineIndex.tagAt]
      · obtain ⟨ends, name, left, named⟩ :=
          ihInside _ _ nestedInside fullInside (by omega) deeper
        exact ⟨ends, name, by simp [unclosed, left], named⟩
    | some close =>
      obtain ⟨_, _, nestedNext⟩ := nested
      have long := closeFull close rfl
      simp only [Option.map_some, Option.getD_some] at after
      have ended := isOpenAt_of_closed place kind
        ⟨_, rfl, by simp only [LineIndex.tokenAt]; omega⟩ (isForeignIn outer)
      rw [Forest.openAt_cons_of_not_isOpenAt ended] at member
      exact ihNext _ _ nestedNext fullNext (by simp only [Option.map_some, Option.getD_some]; omega)
        member

theorem mem_rounds_element {outer : List Text} {offset : Nat} {tag : OpenTag}
    {inside next : Outline} {close : Option ClosingTag} {met : Nat × Piece}
    (member : met ∈ (element tag inside close next).rounds outer offset) :
    met = (offset, .opening tag) ∨
      met ∈ inside.rounds (tag.name :: outer) (offset + tag.render.byteLength) ∨
      (tag.waitsIn outer = true ∧ ∃ own, close = some own ∧
        met = (offset + tag.render.byteLength + inside.width, own.piece)) ∨
      met ∈ next.rounds outer (offset + tag.render.byteLength + inside.width +
        (close.map fun close => close.piece.width).getD 0) := by
  simp only [rounds, List.mem_cons, List.mem_append] at member
  rcases member with opening | (deeper | closing) | later
  · exact Or.inl opening
  · exact Or.inr (Or.inl deeper)
  · refine Or.inr (Or.inr (Or.inl ?_))
    cases waits : tag.waitsIn outer <;> cases close <;> simp_all
  · exact Or.inr (Or.inr (Or.inr later))

theorem bounds_of_mem_rounds {outer : List Text} {offset place : Nat} {piece : Piece}
    {outline : Outline} (member : (place, piece) ∈ outline.rounds outer offset) :
    offset ≤ place ∧ place + piece.width ≤ offset + outline.width := by
  induction outline generalizing outer offset with
  | nil => simp [rounds] at member
  | single first next ih =>
    rw [width_single]
    rcases List.mem_cons.1 member with same | later
    · cases same
      omega
    · have := ih later
      omega
  | element tag inside close next ihInside ihNext =>
    rw [width_element]
    rcases mem_rounds_element member with opening | deeper | ⟨_, own, rfl, closing⟩ | later
    · cases opening
      simp only [Piece.width, Piece.render]
      omega
    · have := ihInside deeper
      omega
    · cases closing
      simp only [Option.map_some, Option.getD_some]
      omega
    · have := ihNext later
      omega

theorem waits_or_nil {outer : List Text} {tag : OpenTag} {inside next : Outline}
    {close : Option ClosingTag} (nested : (element tag inside close next).Nested outer) :
    tag.waitsIn outer = true ∨ inside = nil := by
  cases close with
  | none => exact Or.inl nested.1
  | some close =>
    rcases nested.2.1 with ⟨waits, _⟩ | ⟨_, _, empty, _⟩
    · exact Or.inl waits
    · exact Or.inr empty

theorem piece_injective {a b : ClosingTag} (same : a.piece = b.piece) : a = b := by
  cases a
  cases b
  simpa [ClosingTag.piece] using same

/-- What a closing tag at `place` does in an outline: it closes an element of the outline, or else
it belongs to none of the elements around the outline either and is dropped. -/
def ClosesOrDrops (index : LineIndex) (outer : List Text) (parent id offset place : Nat)
    (close : ClosingTag) (outline : Outline) : Prop :=
  (outline.forest index parent id offset).Closes (isForeignIn outer) place close.name
      (index.tokenAt place close.piece.render) ∨
    (∀ name ∈ outer, Text.sameName name close.name = false) ∧
      (outline.forest index parent id offset).Drops (isForeignIn outer) close.name
        ⟨place, place + close.piece.width⟩ ∧
      ⟨close.name, ⟨place, place + close.piece.width⟩⟩ ∈ outline.strays offset

section ClosesOrDrops

variable {index : LineIndex} {outer : List Text} {parent id offset place : Nat}
  {close : ClosingTag}

/-- A closing tag that stands alone is dropped: what comes after it has not begun. -/
private theorem closesOrDrops_here {next : Outline}
    (stands : close.piece.StandsAlone outer next.pieces.head?) (full : next.IsFull) :
    (single close.piece next).ClosesOrDrops index outer parent id place place close := by
  have laid := laid_forest index parent id (place + close.piece.width) next full
  have shown : (single close.piece next).forest index parent id place =
      next.forest index parent id (place + close.piece.width) := rfl
  have nothing (at_ : Nat) (early : at_ ≤ place + close.piece.width) :=
    laid.openAt_eq_nil early (isForeignIn outer)
  refine Or.inr ⟨stands, ⟨?_, ?_, ?_⟩, ?_⟩
  · intro tree isOpen
    rw [shown, nothing place (Nat.le_add_right _ _)] at isOpen
    simp at isOpen
  · exact (nothing _ (Nat.le_refl _)).trans (nothing place (Nat.le_add_right _ _)).symm
  · intro tree within
    exact laid.avoids_of_ge (Nat.le_refl _) within
  · exact List.mem_append_left _ (by simp [ClosingTag.piece, Piece.strayAt?])

/-- A piece that nothing is inside of changes nothing for a closing tag after it. -/
private theorem closesOrDrops_single {piece : Piece} {next : Outline}
    (stands : piece.StandsAlone outer next.pieces.head?) (long : 0 < piece.width)
    (before : offset + piece.width ≤ place)
    (onward : ∀ id, next.ClosesOrDrops index outer parent id (offset + piece.width) place close) :
    (single piece next).ClosesOrDrops index outer parent id offset place close := by
  cases kind : piece.kindAt? index offset with
  | none =>
    simp only [ClosesOrDrops, forest, kind, strays, List.mem_append]
    rcases onward id with closes | ⟨apart, drops, stray⟩
    · exact Or.inl closes
    · exact Or.inr ⟨apart, drops, Or.inr stray⟩
  | some kind' =>
    simp only [ClosesOrDrops, forest, kind, strays, List.mem_append]
    rcases onward (id + 1) with closes | ⟨apart, drops, stray⟩
    · exact Or.inl (closes.after (isOpenAt_of_kindAt? stands kind rfl _))
    · refine Or.inr ⟨apart, drops.after (fun _ _ => isOpenAt_of_kindAt? stands kind rfl _)
        (Nat.le_add_right _ _) ?_ (by simp [Forest.subtrees]), Or.inr stray⟩
      exact ⟨Or.inl (by simp only; omega), Or.inl (by simp only; omega)⟩

variable {tag : OpenTag} {inside next : Outline}

private theorem isNamed_of_kind {node : Node} {token : Option Token}
    (kind : node.kind = .element (index.tagAt offset tag token)) (content : Forest)
    (name : Text) : (⟨node, content⟩ : Tree).isNamed name = Text.sameName tag.name name := by
  simp [Tree.isNamed, kind, Kind.tag?, LineIndex.tagAt]

/-- An element is open around a closing tag inside it, and stays open where that is dropped. -/
private theorem closesOrDrops_inside {own : Option ClosingTag}
    (nested : (element tag inside own next).Nested outer)
    (full : (element tag inside own next).IsFull)
    (member : (place, close.piece) ∈
      inside.rounds (tag.name :: outer) (offset + tag.render.byteLength))
    (further : inside.ClosesOrDrops index (tag.name :: outer) id (id + 1)
      (offset + tag.render.byteLength) place close) :
    (element tag inside own next).ClosesOrDrops index outer parent id offset place close := by
  obtain ⟨opens, fullInside, ownFull, fullNext⟩ := full_element full
  let within := offset + tag.render.byteLength
  let after := within + inside.width + (own.map fun own => own.piece.width).getD 0
  have content := laid_forest index id (id + 1) within inside fullInside
  have others := laid_forest index parent (id + inside.count + 1) after next fullNext
  obtain ⟨node, shown, _, kind, start, _, stop⟩ :=
    forest_element index parent id offset tag inside own next content
  have bounds := bounds_of_mem_rounds member
  have waits : tag.waitsIn outer = true := by
    rcases waits_or_nil nested with waits | rfl
    · exact waits
    · simp [rounds] at member
  have isOpen (at_ : Nat) (after : within ≤ at_) (before : at_ ≤ within + inside.width) :
      node.isOpenAt at_ (isForeignIn outer) = true := by
    refine isOpenAt_of_waits at_ kind waits (by omega) ?_
    intro token closed
    obtain ⟨close, _, rfl⟩ := Option.map_eq_some_iff.1 closed
    exact before
  rw [ClosesOrDrops, shown]
  rw [ClosesOrDrops, isForeignIn_cons, ← isForeignRoot_of_kind kind] at further
  rcases further with closes | ⟨apart, drops, stray⟩
  · exact Or.inl (closes.within (isOpen place (by omega) (by omega)) others (by omega))
  · refine Or.inr ⟨fun name around => apart name (List.mem_cons_of_mem _ around),
      drops.within (isOpen _ (by simp only; omega) (by simp only; omega))
        (isOpen _ (by simp only; omega) (by simp only; omega)) (Nat.le_add_right _ _) others
        (by simp only; omega) ?_ ⟨Or.inl (by simp only; omega), ?_⟩, ?_⟩
    · rw [isNamed_of_kind kind]
      exact apart tag.name List.mem_cons_self
    · -- It ends with its own closing tag, which comes later, or with what is inside it.
      rw [stop]
      cases own with
      | none => exact Forest.stopFrom_avoids drops.2.2 (by simp only; omega)
      | some own =>
        have long := ownFull own rfl
        simp only [Option.map_some, Option.getD_some]
        omega
    · exact List.mem_append_left _ stray

/-- An element is closed by its own closing tag: what is open inside it has other names and stays
unclosed. -/
private theorem closes_own (nested : (element tag inside (some close) next).Nested outer)
    (full : (element tag inside (some close) next).IsFull) (waits : tag.waitsIn outer = true) :
    ((element tag inside (some close) next).forest index parent id offset).Closes
      (isForeignIn outer) (offset + tag.render.byteLength + inside.width) close.name
      (index.tokenAt (offset + tag.render.byteLength + inside.width) close.piece.render) := by
  obtain ⟨opens, fullInside, _, fullNext⟩ := full_element full
  have content := laid_forest index id (id + 1) (offset + tag.render.byteLength) inside fullInside
  have others := laid_forest index parent (id + inside.count + 1)
    (offset + tag.render.byteLength + inside.width + close.piece.width) next fullNext
  obtain ⟨node, shown, _, kind, start, _, stop⟩ :=
    forest_element index parent id offset tag inside (some close) next content
  -- The other way to be nested is that of a void element, which does not wait.
  have fits : Text.sameName tag.name close.name = true ∧
      ∀ name ∈ inside.unclosed, Text.sameName name close.name = false := by
    rcases nested.2.1 with ⟨_, fits⟩ | ⟨_, void, _⟩
    · exact fits
    · simp [OpenTag.waitsIn, void] at waits
  have isOpen := isOpenAt_of_waits (offset + tag.render.byteLength + inside.width) kind waits
    (by omega) (by rintro _ ⟨⟩; exact Nat.le_refl _)
  rw [shown]
  refine ⟨[], ⟨node, _⟩, _, Forest.openAt_cons_of_laid isOpen others ?_, ?_,
    ⟨_, kind, rfl, stop⟩, ?_⟩
  · exact Nat.le_add_right _ _
  · rw [isNamed_of_kind kind]
    exact fits.1
  · intro other member
    rw [isForeignRoot_of_kind kind, ← isForeignIn_cons] at member
    obtain ⟨ends, name, left, shows⟩ :=
      openAt_after index id (id + 1) (nested_inside nested) fullInside (Nat.le_refl _) member
    exact ⟨by rw [shows]; exact fits.2 name left, ends⟩

/-- An element with a closing tag has ended before a closing tag that comes after it. -/
private theorem closesOrDrops_next {own : ClosingTag}
    (full : (element tag inside (some own) next).IsFull)
    (member : (place, close.piece) ∈ next.rounds outer
      (offset + tag.render.byteLength + inside.width + own.piece.width))
    (further : next.ClosesOrDrops index outer parent (id + inside.count + 1)
      (offset + tag.render.byteLength + inside.width + own.piece.width) place close) :
    (element tag inside (some own) next).ClosesOrDrops index outer parent id offset place
      close := by
  obtain ⟨_, fullInside, ownFull, _⟩ := full_element full
  have content := laid_forest index id (id + 1) (offset + tag.render.byteLength) inside fullInside
  obtain ⟨node, shown, _, kind, start, _, stop⟩ :=
    forest_element index parent id offset tag inside (some own) next content
  have bounds := bounds_of_mem_rounds member
  have long := ownFull own rfl
  simp only [Option.map_some, Option.getD_some] at stop
  have ended (at_ : Nat) (after : place ≤ at_) :
      node.isOpenAt at_ (isForeignIn outer) = false :=
    isOpenAt_of_closed at_ kind ⟨_, rfl, by simp only [LineIndex.tokenAt]; omega⟩ _
  rw [ClosesOrDrops, shown]
  rcases further with closes | ⟨apart, drops, stray⟩
  · exact Or.inl (closes.after (ended place (Nat.le_refl _)))
  · refine Or.inr ⟨apart, drops.after ended (Nat.le_add_right _ _) ?_ ?_,
      List.mem_append_right _ stray⟩
    · exact ⟨Or.inl (by simp only; omega), Or.inl (by simp only; omega)⟩
    · intro tree inner
      exact content.avoids_of_le (by simp only; omega) inner

end ClosesOrDrops

/-- Every closing tag that building comes to closes an element or is dropped. -/
theorem closes_or_drops (index : LineIndex) {outer : List Text} (parent id : Nat) {offset : Nat}
    {outline : Outline} (nested : outline.Nested outer) (full : outline.IsFull) {place : Nat}
    {close : ClosingTag} (member : (place, close.piece) ∈ outline.rounds outer offset) :
    outline.ClosesOrDrops index outer parent id offset place close := by
  induction outline generalizing outer parent id offset with
  | nil => simp [rounds] at member
  | single piece next ih =>
    obtain ⟨stands, nestedNext⟩ := nested
    obtain ⟨long, fullNext⟩ := full_single full
    rcases List.mem_cons.1 member with here | later
    · cases here
      exact closesOrDrops_here stands fullNext
    · exact closesOrDrops_single stands long (bounds_of_mem_rounds later).1
        fun id => ih parent id nestedNext fullNext later
  | element tag inside own next ihInside ihNext =>
    obtain ⟨_, fullInside, _, fullNext⟩ := full_element full
    rcases mem_rounds_element member with opening | deeper | ⟨waits, _, rfl, closing⟩ | later
    · simp [ClosingTag.piece] at opening
    · exact closesOrDrops_inside nested full deeper
        (ihInside id (id + 1) (nested_inside nested) fullInside deeper)
    · obtain ⟨rfl, same⟩ := Prod.mk.inj closing
      cases piece_injective same
      exact Or.inl (closes_own nested full waits)
    · cases own with
      | none =>
        -- After an element without a closing tag nothing comes.
        obtain ⟨_, _, rfl⟩ := nested
        simp [rounds] at later
      | some own =>
        exact closesOrDrops_next full later
          (ihNext parent (id + inside.count + 1) (nested_next nested) fullNext later)

/-- The elements of an outline that are open at one place are inside each other. -/
theorem pairwise_openAt (index : LineIndex) {outer : List Text} (parent id offset : Nat)
    {outline : Outline} (nested : outline.Nested outer) (full : outline.IsFull) (place : Nat) :
    ((outline.forest index parent id offset).openAt place (isForeignIn outer)).Pairwise
      fun around tree => tree ∈ around.inside.subtrees := by
  induction outline generalizing outer parent id offset with
  | nil => exact List.Pairwise.nil
  | single piece next ih =>
    obtain ⟨stands, nestedNext⟩ := nested
    obtain ⟨_, fullNext⟩ := full_single full
    cases kind : piece.kindAt? index offset with
    | none =>
      simp only [forest, kind]
      exact ih _ _ _ nestedNext fullNext
    | some kind' =>
      simp only [forest, kind]
      rw [Forest.openAt_cons_of_not_isOpenAt (isOpenAt_of_kindAt? stands kind rfl place)]
      exact ih _ _ _ nestedNext fullNext
  | element tag inside own next ihInside ihNext =>
    obtain ⟨_, fullInside, ownFull, fullNext⟩ := full_element full
    have content := laid_forest index id (id + 1) (offset + tag.render.byteLength) inside fullInside
    obtain ⟨node, shown, _, kind, start, _, _⟩ :=
      forest_element index parent id offset tag inside own next content
    rw [shown]
    by_cases isOpen : node.isOpenAt place (isForeignIn outer) = true
    · -- What comes after an open element has not begun.
      have none_after : (next.forest index parent (id + inside.count + 1)
          (offset + tag.render.byteLength + inside.width +
            (own.map fun own => own.piece.width).getD 0)).openAt
          place (isForeignIn outer) = [] := by
        cases own with
        | none =>
          obtain ⟨_, _, rfl⟩ := nested
          rfl
        | some own =>
          have others := laid_forest index parent (id + inside.count + 1)
            (offset + tag.render.byteLength + inside.width + own.piece.width) next fullNext
          refine others.openAt_eq_nil ?_ _
          by_contra late
          rw [isOpenAt_of_closed place kind
            ⟨_, rfl, by simp only [LineIndex.tokenAt]; omega⟩] at isOpen
          simp at isOpen
      rw [Forest.openAt_cons_of_isOpenAt isOpen, none_after, List.append_nil,
        isForeignRoot_of_kind kind, ← isForeignIn_cons]
      refine List.Pairwise.cons ?_ (ihInside _ _ _ (nested_inside nested) fullInside)
      intro tree member
      exact Forest.mem_subtrees_of_mem_openAt member
    · rw [Forest.openAt_cons_of_not_isOpenAt (Bool.eq_false_iff.2 isOpen)]
      exact ihNext _ _ _ (nested_next nested) fullNext

end Outline

/-! ### Where trees come from -/

namespace Written.Piece

theorem locate_append (offset : Nat) (first second : List Piece) :
    locate offset (first ++ second) =
      locate offset first ++ locate (offset + (renderAll first).byteLength) second := by
  induction first generalizing offset with
  | nil => rfl
  | cons piece others ih => simp [locate, ih, renderAll, Nat.add_assoc]

/-- Of the pieces that stand alone just opening tags are elements. -/
theorem opening_of_kindAt? {index : LineIndex} {offset : Nat} {piece : Piece} {tag : Tag}
    (found : piece.kindAt? index offset = some (.element tag)) :
    ∃ written, piece = .opening written ∧ tag = index.tagAt offset written none := by
  cases piece with
  | opening written =>
    simp only [kindAt?, Option.some.injEq, Kind.element.injEq] at found
    exact ⟨written, rfl, found.symm⟩
  | raw written body =>
    simp only [kindAt?, Option.some.injEq] at found
    split at found <;> simp at found
  | _ => simp [kindAt?] at found

end Written.Piece

theorem ClosingTag.width_pos (close : ClosingTag) : 0 < close.piece.width :=
  Piece.width_pos (by simp [piece, Piece.render])

/-- How a tree comes from located pieces, inside the elements named `outer`. -/
inductive Tree.ComesFrom (index : LineIndex) (located : List (Nat × Piece)) (outer : List Text)
    (tree : Tree) : Prop
  | single (place : Nat) (piece : Piece) (next : Option Piece)
    (read : (place, piece) ∈ located)
    (stands : piece.StandsAlone outer next)
    (kind : piece.kindAt? index place = some tree.node.kind)
    (span : tree.node.span = ⟨place, place + piece.width⟩)
    (inside : tree.inside = .nil)
  | element (place : Nat) (tag : OpenTag) (inside : Outline) (close : Option ClosingTag)
    (opening : (place, .opening tag) ∈ located)
    (closing : ∀ own ∈ close, (place + tag.render.byteLength + inside.width, own.piece) ∈ located)
    (nested : (Outline.element tag inside close .nil).Nested outer)
    (kind : tree.node.kind = .element (index.tagAt place tag (close.map fun own =>
      index.tokenAt (place + tag.render.byteLength + inside.width) own.piece.render)))
    (start : tree.node.span.start = place)
    (stop : ∀ own ∈ close, tree.node.span.stop =
      place + tag.render.byteLength + inside.width + own.piece.width)
    (content : tree.inside = inside.forest index tree.node.id (tree.node.id + 1)
      (place + tag.render.byteLength))

theorem Tree.ComesFrom.mono {index : LineIndex} {some_ all : List (Nat × Piece)}
    {outer : List Text} {tree : Tree} (comes : tree.ComesFrom index some_ outer)
    (among : ∀ read ∈ some_, read ∈ all) : tree.ComesFrom index all outer := by
  cases comes with
  | single place piece next read stands kind span inside =>
    exact .single place piece next (among _ read) stands kind span inside
  | element place tag inside close opening closing nested kind start stop content =>
    exact .element place tag inside close (among _ opening)
      (fun own member => among _ (closing own member)) nested kind start stop content

namespace Outline

theorem mem_locate_element {offset : Nat} {tag : OpenTag} {inside next : Outline}
    {close : Option ClosingTag} {read : Nat × Piece} :
    read ∈ Piece.locate offset (element tag inside close next).pieces ↔
      read = (offset, .opening tag) ∨
        read ∈ Piece.locate (offset + tag.render.byteLength) inside.pieces ∨
        (∃ own ∈ close, read = (offset + tag.render.byteLength + inside.width, own.piece)) ∨
        read ∈ Piece.locate (offset + tag.render.byteLength + inside.width +
          (close.map fun close => close.piece.width).getD 0) next.pieces := by
  cases close with
  | none => simp [Piece.locate, Piece.locate_append, Piece.render, width]
  | some close =>
    simp [Piece.locate, Piece.locate_append, Piece.render, width, Piece.width, Piece.renderAll,
      Nat.add_assoc]

private theorem exists_around_mono {trees trees' : List Tree} {tree : Tree} {inner : List Text}
    (around : ∀ name ∈ inner, ∃ around ∈ trees,
      tree ∈ around.inside.subtrees ∧ around.node.kind.tag?.map Tag.name = some name)
    (more : ∀ other ∈ trees, other ∈ trees') :
    ∀ name ∈ inner, ∃ around ∈ trees',
      tree ∈ around.inside.subtrees ∧ around.node.kind.tag?.map Tag.name = some name := by
  intro name found
  obtain ⟨other, within, rest⟩ := around name found
  exact ⟨other, more other within, rest⟩

/-- Every tree of an outline comes from its pieces, inside the elements that it is in. -/
theorem comesFrom_of_mem (index : LineIndex) {outer : List Text} (parent id offset : Nat)
    {outline : Outline} (nested : outline.Nested outer) (full : outline.IsFull) {tree : Tree}
    (member : tree ∈ (outline.forest index parent id offset).subtrees) :
    ∃ inner : List Text,
      tree.ComesFrom index (Piece.locate offset outline.pieces) (inner ++ outer) ∧
      ∀ name ∈ inner, ∃ around ∈ (outline.forest index parent id offset).subtrees,
        tree ∈ around.inside.subtrees ∧ around.node.kind.tag?.map Tag.name = some name := by
  induction outline generalizing outer parent id offset with
  | nil => simp [forest, Forest.subtrees] at member
  | single piece next ih =>
    obtain ⟨stands, nestedNext⟩ := nested
    obtain ⟨_, fullNext⟩ := full_single full
    have later : ∀ read ∈ Piece.locate (offset + piece.width) next.pieces,
        read ∈ Piece.locate offset (single piece next).pieces :=
      fun read found => List.mem_cons_of_mem _ found
    cases kind : piece.kindAt? index offset with
    | none =>
      simp only [forest, kind] at member ⊢
      obtain ⟨inner, comes, around⟩ := ih _ _ _ nestedNext fullNext member
      exact ⟨inner, comes.mono later, around⟩
    | some kind' =>
      simp only [forest, kind] at member ⊢
      rcases Forest.mem_subtrees_cons.1 member with rfl | deeper | more
      · exact ⟨[], .single offset piece _ List.mem_cons_self stands kind rfl rfl, by simp⟩
      · simp [Forest.subtrees] at deeper
      · obtain ⟨inner, comes, around⟩ := ih _ _ _ nestedNext fullNext more
        exact ⟨inner, comes.mono later, exists_around_mono around
          fun _ within => Forest.mem_subtrees_cons.2 (Or.inr (Or.inr within))⟩
  | element tag inside close next ihInside ihNext =>
    obtain ⟨_, fullInside, _, fullNext⟩ := full_element full
    have content := laid_forest index id (id + 1) (offset + tag.render.byteLength) inside fullInside
    obtain ⟨node, shown, ⟨rfl, _⟩, kind, start, _, stop⟩ :=
      forest_element index parent id offset tag inside close next content
    rw [shown] at member ⊢
    rcases Forest.mem_subtrees_cons.1 member with rfl | deeper | more
    · refine ⟨[], .element offset tag inside close ?_ ?_ ?_ kind start ?_ rfl, by simp⟩
      · exact mem_locate_element.2 (Or.inl rfl)
      · exact fun own member => mem_locate_element.2 (Or.inr (Or.inr (Or.inl ⟨own, member, rfl⟩)))
      · cases close with
        | none => exact ⟨nested.1, nested.2.1, rfl⟩
        | some close => exact ⟨nested.1, nested.2.1, trivial⟩
      · rintro own ⟨⟩
        exact stop
    · obtain ⟨inner, comes, around⟩ := ihInside _ _ _ (nested_inside nested) fullInside deeper
      -- Around what is inside the element stands the element itself, outside of all the others.
      refine ⟨inner ++ [tag.name], ?_, ?_⟩
      · rw [List.append_assoc, List.singleton_append]
        exact comes.mono fun read found => mem_locate_element.2 (Or.inr (Or.inl found))
      · intro name found
        rcases List.mem_append.1 found with above | own
        · exact exists_around_mono around
            (fun _ within => Forest.mem_subtrees_cons.2 (Or.inr (Or.inl within))) name above
        · refine ⟨_, Forest.mem_subtrees_cons.2 (Or.inl rfl), deeper, ?_⟩
          rw [kind, List.mem_singleton.1 own]
          rfl
    · obtain ⟨inner, comes, around⟩ := ihNext _ _ _ (nested_next nested) fullNext more
      exact ⟨inner, comes.mono fun read found => mem_locate_element.2
        (Or.inr (Or.inr (Or.inr found))), exists_around_mono around
          fun _ within => Forest.mem_subtrees_cons.2 (Or.inr (Or.inr within))⟩

end Outline

namespace Tree.ComesFrom

variable {index : LineIndex} {located : List (Nat × Piece)} {outer : List Text} {tree : Tree}

/-- A node that has a closing tag ends with it. -/
theorem stop_of_close (comes : tree.ComesFrom index located outer) {token : Token}
    (closed : token ∈ tree.node.kind.close?) : token.span.stop = tree.node.span.stop := by
  cases comes with
  | single place piece next read stands kind span inside =>
    rw [span]
    cases piece with
    | text | comment | doctype | opening =>
      simp only [Piece.kindAt?, Option.some.injEq] at kind
      simp [← kind, Kind.close?, LineIndex.tagAt] at closed
    | closing => simp [Piece.kindAt?] at kind
    | raw tag body =>
      simp only [Piece.kindAt?, Option.some.injEq] at kind
      have found : (body.bind fun body => body.close.map (index.tokenAt
          (place + tag.render.byteLength + body.content.text.byteLength))) = some token := by
        rw [← kind] at closed
        split at closed <;> exact closed
      obtain ⟨body, rfl, within⟩ := Option.bind_eq_some_iff.1 found
      obtain ⟨close, shown, rfl⟩ := Option.map_eq_some_iff.1 within
      simp [LineIndex.tokenAt, Piece.width, Piece.render, Written.RawBody.render, shown,
        Nat.add_assoc]
  | element place tag inside close opening closing nested kind start stop content =>
    rw [kind] at closed
    obtain ⟨own, rfl, rfl⟩ := Option.map_eq_some_iff.1 closed
    exact (stop own rfl).symm

/-- The closing tag of an element is a piece of its name. -/
theorem closing_of_close (comes : tree.ComesFrom index located outer) {tag : Tag}
    (isElement : tree.node.kind = .element tag) {token : Token} (closed : token ∈ tag.close) :
    ∃ (place : Nat) (close : ClosingTag), (place, close.piece) ∈ located ∧
      token = index.tokenAt place close.piece.render ∧
      Text.sameName tag.name close.name = true := by
  cases comes with
  | single place piece next read stands kind span inside =>
    obtain ⟨written, _, rfl⟩ := Piece.opening_of_kindAt? (isElement ▸ kind)
    simp [LineIndex.tagAt] at closed
  | element place written inside close opening closing nested kind start stop content =>
    rw [isElement, Kind.element.injEq] at kind
    subst kind
    obtain ⟨own, rfl, rfl⟩ := Option.map_eq_some_iff.1 closed
    refine ⟨_, own, closing own rfl, rfl, ?_⟩
    rcases nested.2.1 with ⟨_, same, _⟩ | ⟨_, _, _, fits⟩
    · exact same
    · simp only [ClosingTag.piece, Piece.closesVoid, Bool.and_eq_true] at fits
      rw [Text.sameName_comm]
      exact fits.1.1

theorem of_isSelfClosing (comes : tree.ComesFrom index located outer) {tag : Tag}
    (isElement : tree.node.kind = .element tag) (closesItself : tag.isSelfClosing = true) :
    tag.close = none ∧ tree.inside = .nil := by
  cases comes with
  | single place piece next read stands kind span inside =>
    obtain ⟨written, _, rfl⟩ := Piece.opening_of_kindAt? (isElement ▸ kind)
    exact ⟨rfl, inside⟩
  | element place written inside close opening closing nested kind start stop content =>
    -- An element that something is inside of, or that has a closing tag, is not written so.
    rw [isElement, Kind.element.injEq] at kind
    have written : written.isSelfClosing = true := by
      simpa [kind, LineIndex.tagAt] using closesItself
    cases close with
    | none => simp [Outline.Nested, OpenTag.waitsIn, written] at nested
    | some own =>
      rcases nested.2.1 with ⟨waits, _⟩ | ⟨plain, _⟩
      · simp [OpenTag.waitsIn, written] at waits
      · simp [written] at plain

theorem inside_of_isVoidIn (comes : tree.ComesFrom index located outer) {tag : Tag}
    (isElement : tree.node.kind = .element tag) (void : isVoidIn outer tag.name = true) :
    tree.inside = .nil := by
  cases comes with
  | single place piece next read stands kind span inside => exact inside
  | element place written inside close opening closing nested kind start stop content =>
    rw [isElement, Kind.element.injEq] at kind
    have waits : written.waitsIn outer = false := by
      rw [kind, LineIndex.tagAt] at void
      simp only at void
      simp [OpenTag.waitsIn, void]
    rcases Outline.waits_or_nil nested with still | rfl
    · simp [waits] at still
    · exact content

end Tree.ComesFrom

/-! ### The pairing of a document -/

namespace Document

/-- Whether the closing tags that parsing comes to are paired with the elements that are open where
they are written. -/
structure IsPaired (pairs : List Delimiters) (source : Text) (doc : Document) : Prop where
  /-- The elements that are open at one place are inside each other. -/
  chain : ∀ place, (doc.openAt place).Pairwise fun around tree => tree ∈ around.inside.subtrees
  /-- Where an element of its name is open, a closing tag closes the innermost one, which ends with
  it; those inside that are still open have no closing tag and end with what is inside them. -/
  closes : ∀ (place : Nat) (close : ClosingTag), (place, close.piece) ∈ rounds pairs source →
    (∃ tree ∈ doc.openAt place, tree.isNamed close.name = true) →
    ∃ outer tree inner, doc.openAt place = outer ++ tree :: inner ∧
      tree.isNamed close.name = true ∧
      tree.IsClosedBy ((LineIndex.ofText source).tokenAt place close.piece.render) ∧
      ∀ other ∈ inner, other.isNamed close.name = false ∧ other.EndsUnclosed
  /-- Where none is, the closing tag is dropped: no node starts or ends in it or has it as its
  closing tag, and the same elements are open after it as before. -/
  drops : ∀ (place : Nat) (close : ClosingTag), (place, close.piece) ∈ rounds pairs source →
    (∀ tree ∈ doc.openAt place, tree.isNamed close.name = false) →
    ⟨close.name, ⟨place, place + close.piece.width⟩⟩ ∈ doc.strays ∧
      (∀ tree ∈ doc.root.inside.subtrees,
        tree.node.span.Avoids ⟨place, place + close.piece.width⟩ ∧
          ∀ token ∈ tree.node.kind.close?, token.span ≠ ⟨place, place + close.piece.width⟩) ∧
      doc.openAt (place + close.piece.width) = doc.openAt place
  /-- The closing tag of every element is a piece of the source with the name of the element. -/
  named : ∀ tree ∈ doc.subtrees, ∀ tag, tree.node.kind = .element tag → ∀ token ∈ tag.close,
    ∃ (place : Nat) (close : ClosingTag),
      (place, close.piece) ∈ Piece.locate 0 (Piece.scanAll pairs source) ∧
      token = (LineIndex.ofText source).tokenAt place close.piece.render ∧
      Text.sameName tag.name close.name = true
  /-- A self-closing element has no closing tag and nothing inside it. -/
  selfClosing : ∀ tree ∈ doc.subtrees, ∀ tag, tree.node.kind = .element tag →
    tag.isSelfClosing = true → tag.close = none ∧ tree.inside = .nil
  /-- An element with the name of a void one has nothing inside it, outside of foreign subtrees. -/
  void : ∀ tree ∈ doc.subtrees, ∀ tag, tree.node.kind = .element tag →
    isVoidName tag.name = true →
    (∀ around ∈ doc.subtrees, tree ∈ around.inside.subtrees →
      around.node.isForeignRoot = false) → tree.inside = .nil

/-- Every tree of a document but the document itself comes from the pieces of the source. -/
theorem comesFrom_parse (pairs : List Delimiters) (source : Text) {tree : Tree}
    (member : tree ∈ (parse pairs source).root.inside.subtrees) :
    ∃ outer : List Text,
      tree.ComesFrom (LineIndex.ofText source) (Piece.locate 0 (Piece.scanAll pairs source)) outer ∧
      ∀ name ∈ outer, ∃ around ∈ (parse pairs source).root.inside.subtrees,
        tree ∈ around.inside.subtrees ∧ around.node.kind.tag?.map Tag.name = some name := by
  obtain ⟨outline, covers, nested, parsed⟩ := exists_outline pairs source
  have full : outline.IsFull := Outline.full_of_reads (covers ▸ Piece.reads_scanAll pairs source)
  rw [parsed] at member ⊢
  obtain ⟨outer, comes, around⟩ :=
    Outline.comesFrom_of_mem (LineIndex.ofText source) 0 1 0 nested full member
  rw [covers, List.append_nil] at comes
  exact ⟨outer, comes, around⟩

/-- In every document closing tags are paired with the elements that are open. -/
theorem isPaired_parse (pairs : List Delimiters) (source : Text) :
    (parse pairs source).IsPaired pairs source := by
  obtain ⟨outline, covers, nested, parsed⟩ := exists_outline pairs source
  have full : outline.IsFull := Outline.full_of_reads (covers ▸ Piece.reads_scanAll pairs source)
  have reached (place : Nat) (close : ClosingTag)
      (member : (place, close.piece) ∈ rounds pairs source) :=
    Outline.closes_or_drops (LineIndex.ofText source) 0 1 nested full
      (rounds_eq pairs source covers nested ▸ member)
  -- The elements are those of the tree; the document around them has no tags.
  have below {tree : Tree} {tag : Tag} (member : tree ∈ (parse pairs source).subtrees)
      (isElement : tree.node.kind = .element tag) :
      tree ∈ (parse pairs source).root.inside.subtrees := by
    rcases List.mem_cons.1 member with rfl | within
    · simp [parse] at isElement
    · exact within
  refine {
    chain := ?chain
    closes := ?closes
    drops := ?drops
    named := ?named
    selfClosing := ?selfClosing
    void := ?void }
  case chain =>
    intro place
    rw [parsed]
    exact Outline.pairwise_openAt (LineIndex.ofText source) 0 1 0 nested full place
  case closes =>
    rintro place close member ⟨tree, isOpen, same⟩
    rw [parsed] at isOpen ⊢
    rcases reached place close member with closes | ⟨_, ⟨nowhere, _, _⟩, _⟩
    · exact closes
    · simp [nowhere tree isOpen] at same
  case drops =>
    intro place close member nowhere
    rw [parsed] at nowhere
    rcases reached place close member with ⟨_, tree, _, shown, same, _⟩ |
      ⟨_, ⟨_, unchanged, avoids⟩, stray⟩
    · have isOpen : tree ∈ (ofOutline source outline).openAt place := by
        rw [openAt]
        exact shown ▸ List.mem_append_right _ List.mem_cons_self
      simp [nowhere tree isOpen] at same
    · refine ⟨parsed ▸ stray, ?_, parsed ▸ unchanged⟩
      intro tree within
      have apart := avoids tree (by rw [parsed] at within; exact within)
      refine ⟨apart, fun token closed same => ?_⟩
      obtain ⟨_, comes, _⟩ := comesFrom_parse pairs source within
      have ends := comes.stop_of_close closed
      rw [same] at ends
      have long := close.width_pos
      have := apart.2
      simp only at this ends
      omega
  case named =>
    intro tree member tag isElement token closed
    obtain ⟨_, comes, _⟩ := comesFrom_parse pairs source (below member isElement)
    exact comes.closing_of_close isElement closed
  case selfClosing =>
    intro tree member tag isElement closesItself
    obtain ⟨_, comes, _⟩ := comesFrom_parse pairs source (below member isElement)
    exact comes.of_isSelfClosing isElement closesItself
  case void =>
    intro tree member tag isElement named outside
    obtain ⟨outer, comes, inside⟩ := comesFrom_parse pairs source (below member isElement)
    refine comes.inside_of_isVoidIn isElement ?_
    have plain : isForeignIn outer = false := by
      rw [isForeignIn, List.any_eq_false]
      intro name found
      obtain ⟨around, within, deeper, shown⟩ := inside name found
      have apart := outside around (List.mem_cons_of_mem _ within) deeper
      obtain ⟨own, isTag, rfl⟩ := Option.map_eq_some_iff.1 shown
      simpa [Node.isForeignRoot, isTag] using apart
    simp [isVoidIn, plain, named]

end Document
end TagLint
