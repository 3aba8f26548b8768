import TagLint.Proofs.LineCount
import TagLint.Proofs.TreeShape
import TagLint.Rule.ElementNewline

/-!
The places where `element-newline` puts line breaks, read off an outline.

The rule looks at trees and at the lines that they start and end on. On an outline the same is
said without positions: whether a line break stands between two neighbours is told by the closing
tags and the blank texts between them and by the blanks of the neighbours themselves.
-/
namespace TagLint

open Written (Piece OpenTag)

def feedEdit (place : Nat) : Edit :=
  ⟨place, place, ['\n']⟩

namespace Written.Piece

/-- Whether the piece stands between neighbours: a closing tag that closes nothing, or a blank
text unless every node counts. -/
def isBetween (whole : Bool) : Piece → Bool
  | .closing _ _ _ => true
  | .text content => !whole && content.text.isBlank
  | _ => false

/-- Whether the piece starts with blanks that break the line. -/
def startsBroken : Piece → Bool
  | .text content => content.text.leadingBlanks.hasLineBreak
  | _ => false

/-- Whether the piece ends with blanks that break the line. -/
def endsBroken : Piece → Bool
  | .text content => content.text.trailingBlanks.hasLineBreak
  | _ => false

end Written.Piece

namespace ElementNewline

variable (rule : ElementNewline)

def wantsPiece : Piece → Bool
  | .comment body _ => body.text.trim.hasLineBreak
  | .text content => content.text.trim.hasLineBreak
  | .opening tag => !rule.inlineNames.contains tag.name.lower
  | _ => true

/-- What the rule sees of a node among its neighbours. -/
structure Neighbour where
  wants : Bool
  start : Nat
  stop : Nat
  /-- Whether a line break stands between the node and what comes before it. -/
  apart : Bool

/-- The place between two neighbours, if it needs a line break. -/
def pairPlace (a b : Neighbour) : List Nat :=
  if !b.apart && (a.wants || b.wants) then [if a.wants then a.stop else b.start] else []

/-- The places between neighbours that need a line break. -/
def pairPlaces : List Neighbour → List Nat
  | a :: b :: others => pairPlace a b ++ pairPlaces (b :: others)
  | _ => []

theorem pairPlaces_cons (a : Neighbour) (others : List Neighbour) :
    pairPlaces (a :: others) = others.head?.toList.flatMap (pairPlace a) ++ pairPlaces others := by
  cases others with
  | nil => rfl
  | cons b others => simp [pairPlaces]

/-- The places at the ends of an element's content that need a line break. -/
def edgePlaces (within stop : Nat) (isClosed broken : Bool) (content : List Neighbour) :
    List Nat :=
  (if content.head?.any fun first => !first.apart then [within] else []) ++
    if isClosed && !content.isEmpty && !broken then [stop] else []

end ElementNewline

namespace Outline

variable (rule : ElementNewline)

/-- The neighbours in an outline; `broken` says whether a line break stands right before it. -/
def neighbours (offset : Nat) (broken : Bool) : Outline → List ElementNewline.Neighbour
  | nil => []
  | single piece next =>
    if piece.isBetween false then
      next.neighbours (offset + piece.width) (broken || piece.render.feeds != 0)
    else
      ⟨rule.wantsPiece piece, offset, offset + piece.width, broken || piece.startsBroken⟩ ::
        next.neighbours (offset + piece.width) piece.endsBroken
  | element tag inside close next =>
    let stop := offset + tag.render.byteLength + inside.width +
      (close.map fun close => close.piece.width).getD 0
    ⟨rule.wantsPiece (.opening tag), offset, stop, broken⟩ :: next.neighbours stop false

/-- Whether a line break stands between the last neighbour, or the last node of all, and the end.
An element without a closing tag ends where its last node does. -/
def breaks (whole broken : Bool) : Outline → Bool
  | nil => broken
  | single piece next =>
    next.breaks whole
      (if piece.isBetween whole then broken || piece.render.feeds != 0 else piece.endsBroken)
  | element _ inside none _ => inside.breaks true false
  | element _ _ (some _) next => next.breaks whole false

/-- The places inside the elements that need a line break; and whether something in the outline,
outside of skipped elements, wants a line of its own. -/
def insidePlaces (offset : Nat) : Outline → List Nat × Bool
  | nil => ([], false)
  | single piece next =>
    let others := next.insidePlaces (offset + piece.width)
    if piece.isBetween false then others else (others.1, rule.wantsPiece piece || others.2)
  | element tag inside close next =>
    let within := offset + tag.render.byteLength
    let stop := within + inside.width
    let others := next.insidePlaces (stop + (close.map fun close => close.piece.width).getD 0)
    let wants := rule.wantsPiece (.opening tag)
    if rule.skippedNames.contains tag.name.lower then (others.1, wants || others.2)
    else
      let below := inside.insidePlaces within
      let content := inside.neighbours rule within false
      let edges := if wants && below.2 then
        ElementNewline.edgePlaces within stop close.isSome (inside.breaks false false) content
      else []
      (below.1 ++ ElementNewline.pairPlaces content ++ edges ++ others.1,
        wants || below.2 || others.2)

/-- The places in the outline of a document that need a line break. -/
def breakPlaces (outline : Outline) : List Nat :=
  (outline.insidePlaces rule 0).1 ++
    ElementNewline.pairPlaces (outline.neighbours rule 0 false)

end Outline

/-! ### Pieces and their nodes -/

section Kinds

variable {index : LineIndex} {offset : Nat} {piece : Piece} {kind : Kind}

private theorem wantsLine_kindAt? (rule : ElementNewline)
    (found : piece.kindAt? index offset = some kind) :
    rule.wantsLine kind = rule.wantsPiece piece := by
  cases piece with
  | raw tag body =>
    cases found
    split <;> rfl
  | closing => contradiction
  | _ => cases found; rfl

private theorem breaks_kindAt? (found : piece.kindAt? index offset = some kind) :
    ElementNewline.isBlankText kind = piece.isBetween false ∧
      ElementNewline.startsWithBreak kind = piece.startsBroken ∧
      ∀ id parent span extent,
        ElementNewline.endsWithBreak ⟨⟨id, parent, span, extent, kind⟩, .nil⟩ =
          piece.endsBroken := by
  cases piece with
  | raw tag body =>
    cases found
    split <;> exact ⟨rfl, rfl, fun _ _ _ _ => rfl⟩
  | closing => contradiction
  | _ =>
    cases found
    refine ⟨rfl, rfl, fun _ _ _ _ => ?_⟩
    simp [ElementNewline.endsWithBreak, ElementNewline.lastEndsWithBreak, Piece.endsBroken,
      LineIndex.contentAt]

private theorem isBetween_of_isClosing (closing : piece.isClosing = true) (whole : Bool) :
    piece.isBetween whole = true := by
  cases piece with
  | closing => rfl
  | _ => contradiction

end Kinds

namespace Outline

variable {index : LineIndex} {parent id offset : Nat}

/-- A closing tag that closes nothing is no tree; any other piece is one, with nothing inside. -/
private theorem forest_single (index : LineIndex) (parent id offset : Nat) (piece : Piece)
    (next : Outline) :
    (piece.isClosing = true ∧ (single piece next).forest index parent id offset =
      next.forest index parent id (offset + piece.width)) ∨
    ∃ kind node, piece.kindAt? index offset = some kind ∧ node.kind = kind ∧
      node.span = ⟨offset, offset + piece.width⟩ ∧ node.extent = index.extent node.span ∧
      (single piece next).forest index parent id offset =
        .cons node .nil (next.forest index parent (id + 1) (offset + piece.width)) := by
  have closing := Piece.kindAt?_isNone index offset piece
  cases found : piece.kindAt? index offset with
  | none =>
    refine Or.inl ⟨by rw [← closing, found]; rfl, ?_⟩
    simp only [forest, found]
  | some kind =>
    let span : Span := ⟨offset, offset + piece.width⟩
    refine Or.inr ⟨kind, ⟨id, some parent, span, index.extent span, kind⟩, rfl, rfl, rfl, rfl, ?_⟩
    simp only [forest, found, span]

private theorem isBetween_of_kindAt? {piece : Piece} {kind : Kind}
    (found : piece.kindAt? index offset = some kind) (whole : Bool) :
    piece.isBetween whole = (!whole && piece.isBetween false) := by
  cases piece with
  | closing => contradiction
  | _ => simp [Piece.isBetween]

theorem spells_single {piece : Piece} {next : Outline}
    (spells : index.Spells offset (Piece.renderAll (single piece next).pieces)) :
    (index.position (offset + piece.width)).line =
        (index.position offset).line + piece.render.feeds ∧
      index.Spells (offset + piece.width) (Piece.renderAll next.pieces) := by
  have shown : Piece.renderAll (single piece next).pieces =
      piece.render ++ Piece.renderAll next.pieces := rfl
  rw [shown] at spells
  exact ⟨spells _ _ rfl, spells.right⟩

theorem spells_element {tag : OpenTag} {inside next : Outline} {close : Option ClosingTag}
    (spells : index.Spells offset (Piece.renderAll (element tag inside close next).pieces)) :
    index.Spells (offset + tag.render.byteLength) (Piece.renderAll inside.pieces) ∧
      index.Spells (offset + tag.render.byteLength + inside.width +
        (close.map fun close => close.piece.width).getD 0) (Piece.renderAll next.pieces) := by
  have shown : Piece.renderAll (element tag inside close next).pieces =
      tag.render ++ (Piece.renderAll inside.pieces ++
        (Piece.renderAll (close.map ClosingTag.piece).toList ++ Piece.renderAll next.pieces)) := by
    simp [Piece.renderAll, Piece.render]
  rw [shown] at spells
  have further := spells.right.right.right
  rw [byteLength_close] at further
  exact ⟨spells.right.left, further⟩

end Outline

/-! ### How trees end -/

namespace ElementNewline

/-- The line that the last of the trees ends on and whether it ends with a break; `before` where
there is no tree. -/
def ending (before : Nat × Bool) (trees : List Tree) : Nat × Bool :=
  trees.foldl (fun _ tree => (tree.node.extent.stop.line, endsWithBreak tree)) before

@[simp] theorem ending_cons (before : Nat × Bool) (tree : Tree) (others : List Tree) :
    ending before (tree :: others) =
      ending (tree.node.extent.stop.line, endsWithBreak tree) others := rfl

theorem ending_of_getLast? {before : Nat × Bool} {trees : List Tree} {last : Tree}
    (final : trees.getLast? = some last) :
    ending before trees = (last.node.extent.stop.line, endsWithBreak last) := by
  obtain ⟨others, rfl⟩ := List.getLast?_eq_some_iff.1 final
  simp [ending]

theorem lastEndsWithBreak_eq (line : Nat) (forest : Forest) :
    lastEndsWithBreak forest = (ending (line, false) forest.trees).2 := by
  induction forest generalizing line with
  | nil => rfl
  | cons node inside next _ ih =>
    cases next with
    | nil => rfl
    | cons node' inside' next' =>
      rw [lastEndsWithBreak, ih node.extent.stop.line]
      rfl

/-- The trees that are not blank texts, or all of them. -/
def counted (whole : Bool) (forest : Forest) : List Tree :=
  forest.trees.filter fun tree => whole || !isBlankText tree.node.kind

theorem counted_cons (whole : Bool) (node : Node) (inside next : Forest) :
    counted whole (.cons node inside next) =
      (if whole || !isBlankText node.kind then [⟨node, inside⟩] else []) ++ counted whole next := by
  rw [counted, Forest.trees, List.filter_cons]
  split <;> rfl

theorem solid_cons (node : Node) (inside next : Forest) :
    solid (.cons node inside next) =
      (if isBlankText node.kind then [] else [⟨node, inside⟩]) ++ solid next := by
  rw [solid, Forest.trees, List.filter_cons]
  cases isBlankText node.kind <;> rfl

end ElementNewline

namespace Outline

open ElementNewline

variable {index : LineIndex} {parent id offset : Nat} {outer : List Text} {outline : Outline}

/-- The last tree of a forest ends on the line of the place where it stops. -/
theorem ending_forest (full : outline.IsFull) (start : Nat)
    (ends : Bool) :
    (ending ((index.position start).line, ends)
      (outline.forest index parent id offset).trees).1 =
        (index.position ((outline.forest index parent id offset).stopFrom start)).line := by
  induction outline generalizing parent id offset start ends with
  | nil => rfl
  | single piece next ih =>
    obtain ⟨_, others⟩ := full_single full
    rcases forest_single index parent id offset piece next with
      ⟨_, shown⟩ | ⟨kind, node, _, _, span, extent, shown⟩
    · rw [shown]
      exact ih others start ends
    · rw [shown, Forest.trees, ending_cons, Forest.stopFrom, extent]
      exact ih others _ _
  | element tag inside close next _ ihNext =>
    obtain ⟨_, fullInside, _, fullNext⟩ := full_element full
    obtain ⟨node, shown, _, _, _, extent, _⟩ :=
      forest_element index parent id offset tag inside close next (laid_forest _ _ _ _ _ fullInside)
    rw [shown, Forest.trees, ending_cons, Forest.stopFrom, extent]
    exact ihNext fullNext _ _

/-- Whether `broken` says if a line break stands between the last tree, of which the line it ends
on and whether it ends with a break are given, and the offset. -/
def Tells (index : LineIndex) (offset : Nat) (broken : Bool) (last : Nat × Bool) : Prop :=
  last.1 ≤ (index.position offset).line ∧
    broken = (decide (last.1 < (index.position offset).line) || last.2)

theorem Tells.here (index : LineIndex) (offset : Nat) (ends : Bool) :
    Tells index offset ends ((index.position offset).line, ends) :=
  ⟨Nat.le_refl _, by simp⟩

theorem Tells.between {piece : Piece} {broken : Bool} {last : Nat × Bool}
    (tells : Tells index offset broken last)
    (onward : (index.position (offset + piece.width)).line =
      (index.position offset).line + piece.render.feeds) :
    Tells index (offset + piece.width) (broken || piece.render.feeds != 0) last := by
  obtain ⟨line, ends⟩ := last
  obtain ⟨reached, same⟩ := tells
  simp only at reached same
  refine ⟨by simp only; omega, ?_⟩
  rw [same, onward, Bool.eq_iff_iff]
  cases ends
  · simp
    omega
  · simp

private theorem Tells.eq_not_or {broken ends : Bool} {line : Nat}
    (tells : Tells index offset broken (line, ends)) (other : Bool) :
    (line == (index.position offset).line && !(ends || other)) = !(broken || other) := by
  obtain ⟨reached, same⟩ := tells
  simp only at reached
  have differ : (line == (index.position offset).line) =
      !decide (line < (index.position offset).line) := by
    rw [Bool.eq_iff_iff]
    simp
    omega
  rw [same, differ, ← Bool.not_or, Bool.or_assoc]

/-- What stands after the last tree is told apart from it by line breaks. -/
theorem breaks_forest (parent id : Nat) (nested : outline.Nested outer)
    (full : outline.IsFull)
    (spells : index.Spells offset (Piece.renderAll outline.pieces)) (whole : Bool) {broken : Bool}
    {last : Nat × Bool} (tells : Tells index offset broken last) :
    Tells index (offset + outline.width) (outline.breaks whole broken)
      (ending last (counted whole (outline.forest index parent id offset))) := by
  induction outline generalizing outer parent id offset whole broken last with
  | nil => exact tells
  | single piece next ih =>
    obtain ⟨onward, further⟩ := spells_single spells
    obtain ⟨_, others⟩ := full_single full
    rw [width_single, ← Nat.add_assoc, breaks]
    rcases forest_single index parent id offset piece next with
      ⟨closing, shown⟩ | ⟨kind, node, found, rfl, span, extent, shown⟩
    · rw [shown, if_pos (isBetween_of_isClosing closing whole)]
      exact ih parent id nested.2 others further whole (tells.between onward)
    · obtain ⟨blank, _, endsAs⟩ := breaks_kindAt? found
      have ends := endsAs node.id node.parent node.span node.extent
      have between := isBetween_of_kindAt? found whole
      rw [shown, counted_cons, blank]
      cases stands : piece.isBetween whole with
      | true =>
        have out : ∀ a b : Bool, true = (!a && b) → (a || !b) = false := by decide
        rw [out _ _ (stands ▸ between), if_pos rfl]
        exact ih parent (id + 1) nested.2 others further whole (tells.between onward)
      | false =>
        have counts : ∀ a b : Bool, false = (!a && b) → (a || !b) = true := by decide
        rw [counts _ _ (stands ▸ between), if_neg Bool.false_ne_true, if_pos rfl,
          List.singleton_append, ending_cons, extent, span, ends]
        exact ih parent (id + 1) nested.2 others further whole (Tells.here index _ _)
  | element tag inside close next ihInside ihNext =>
    obtain ⟨spellsInside, spellsNext⟩ := spells_element spells
    obtain ⟨_, fullInside, _, fullNext⟩ := full_element full
    obtain ⟨node, shown, _, kind, _, extent, stop⟩ :=
      forest_element index parent id offset tag inside close next (laid_forest _ _ _ _ _ fullInside)
    let content := inside.forest index id (id + 1) (offset + tag.render.byteLength)
    have counts : (whole || !isBlankText node.kind) = true := by simp [kind, isBlankText]
    have ends : endsWithBreak ⟨node, content⟩ = (close.isNone && lastEndsWithBreak content) := by
      rw [endsWithBreak, lastEndsWithBreak, kind]
      cases close <;> rfl
    rw [shown, counted_cons, counts, if_pos rfl, List.singleton_append, ending_cons, ends, extent]
    cases close with
    | none =>
      obtain ⟨_, nestedInside, rfl⟩ := nested
      -- The element ends like its content, of which every node counts.
      have inner := ihInside id (id + 1) nestedInside fullInside spellsInside true
        (Tells.here index (offset + tag.render.byteLength) false)
      have every : counted true content = content.trees := by simp [counted]
      let start := (index.position (offset + tag.render.byteLength)).line
      have same : ((index.position node.span.stop).line, lastEndsWithBreak content) =
          ending (start, false) content.trees := by
        refine Prod.ext ?_ (lastEndsWithBreak_eq start content)
        rw [stop]
        exact (ending_forest fullInside _ _).symm
      have spanned : offset + (element tag inside none nil).width =
          offset + tag.render.byteLength + inside.width := by
        simp [Nat.add_assoc]
      rw [every, ← same] at inner
      rw [spanned]
      exact inner
    | some close =>
      have spanned : offset + (element tag inside (some close) next).width =
          offset + tag.render.byteLength + inside.width + close.piece.width + next.width := by
        simp [Nat.add_assoc]
      simp only [Option.map_some, Option.getD_some] at stop spellsNext ⊢
      have line : (index.extent node.span).stop.line = (index.position (offset +
          tag.render.byteLength + inside.width + close.piece.width)).line := by
        rw [← stop]
        rfl
      rw [spanned, line]
      exact ihNext parent _ nested.2.2 fullNext spellsNext whole (Tells.here index _ false)

/-! ### Reports between neighbours -/

variable {rule : ElementNewline}

/-- Whether the rule sees the last tree so far, if there is one, as the given neighbour, and
`broken` says if a line break stands between it and the offset. -/
def LastSeen (rule : ElementNewline) (index : LineIndex) (offset : Nat) (broken : Bool)
    (last : Option (Tree × Neighbour)) : Prop :=
  ∀ pair ∈ last, (rule.wantsLine pair.1.node.kind = pair.2.wants ∧
      pair.1.node.span.stop = pair.2.stop) ∧
    Tells index offset broken (pair.1.node.extent.stop.line, endsWithBreak pair.1)

private theorem LastSeen.none {broken : Bool} : LastSeen rule index offset broken none := by
  intro pair member
  contradiction

private theorem LastSeen.between {piece : Piece} {broken : Bool}
    {last : Option (Tree × Neighbour)} (seen : LastSeen rule index offset broken last)
    (onward : (index.position (offset + piece.width)).line =
      (index.position offset).line + piece.render.feeds) :
    LastSeen rule index (offset + piece.width) (broken || piece.render.feeds != 0) last :=
  fun pair member => ⟨(seen pair member).1, (seen pair member).2.between onward⟩

private theorem LastSeen.single {piece : Piece} {node : Node} {apart : Bool}
    (found : piece.kindAt? index offset = some node.kind)
    (span : node.span = ⟨offset, offset + piece.width⟩)
    (extent : node.extent = index.extent node.span) :
    LastSeen rule index (offset + piece.width) piece.endsBroken
      (some (⟨node, .nil⟩, ⟨rule.wantsPiece piece, offset, offset + piece.width, apart⟩)) := by
  have ends := (breaks_kindAt? found).2.2 node.id node.parent node.span node.extent
  rintro _ ⟨⟩
  refine ⟨⟨wantsLine_kindAt? rule found, by rw [span]⟩, ?_⟩
  rw [extent, span, ends]
  exact Tells.here index _ _

private theorem LastSeen.element {tag : OpenTag} {token : Token} {node : Node} {inside : Forest}
    {start after : Nat} {apart : Bool}
    (kind : node.kind = .element (index.tagAt offset tag (some token)))
    (extent : node.extent = index.extent node.span) (stop : node.span.stop = after) :
    LastSeen rule index after false
      (some (⟨node, inside⟩, ⟨rule.wantsPiece (.opening tag), start, after, apart⟩)) := by
  rintro _ ⟨⟩
  have ends : endsWithBreak ⟨node, inside⟩ = false := by
    rw [endsWithBreak, lastEndsWithBreak, kind]
    rfl
  have line : node.extent.stop.line = (index.position after).line := by
    rw [extent, ← stop]
    rfl
  refine ⟨⟨by rw [kind]; rfl, stop⟩, ?_⟩
  rw [ends, line]
  exact Tells.here index _ _

private theorem checkPair_eq {a b : Tree} {i j : Neighbour} {broken : Bool}
    (seen : LastSeen rule index offset broken (some (a, i)))
    (wants : rule.wantsLine b.node.kind = j.wants) (start : b.node.span.start = j.start)
    (line : b.node.extent.start.line = (index.position offset).line)
    (apart : j.apart = (broken || startsWithBreak b.node.kind)) :
    (rule.checkPair a b).toList.map Report.edits =
      (pairPlace i j).map fun place => [feedEdit place] := by
  obtain ⟨⟨wantsFirst, stop⟩, tells⟩ := seen (a, i) rfl
  simp only at wantsFirst stop tells
  -- The check compares lines of trees; that they differ says that a line feed has been seen.
  have differ : (a.node.extent.stop.line != b.node.extent.start.line || endsWithBreak a) =
      broken := by
    have same := tells.eq_not_or false
    rw [Bool.or_false, Bool.or_false] at same
    have swap : (a.node.extent.stop.line != b.node.extent.start.line) =
        !(a.node.extent.stop.line == b.node.extent.start.line) := rfl
    rw [← Bool.not_inj_iff, Bool.not_or, swap, Bool.not_not, line, same]
  rw [checkPair, differ, ← apart, wantsFirst, wants, pairPlace]
  cases j.apart with
  | true => simp
  | false =>
    cases i.wants with
    | true => simp [gapReport, Edit.insertAfter, feedEdit, stop]
    | false =>
      cases j.wants with
      | true => simp [gapReport, Edit.insertBefore, feedEdit, start]
      | false => simp

/-- A tree is checked with the one before it, if there is one, and then with those after it. -/
private theorem checkPairs_cons {before : Option (Tree × Neighbour)} {tree : Tree} {j : Neighbour}
    {others : List Tree} {seen : List Neighbour}
    (pair : ∀ p ∈ before, (rule.checkPair p.1 tree).toList.map Report.edits =
      (pairPlace p.2 j).map fun place => [feedEdit place])
    (rest : (rule.checkPairs (tree :: others)).map Report.edits =
      (pairPlaces (j :: seen)).map fun place => [feedEdit place]) :
    (rule.checkPairs ((before.map Prod.fst).toList ++ tree :: others)).map Report.edits =
      (pairPlaces ((before.map Prod.snd).toList ++ j :: seen)).map
        fun place => [feedEdit place] := by
  cases before with
  | none => exact rest
  | some p =>
    have first := pair p rfl
    simp only [Option.map_some, Option.toList_some, List.singleton_append, checkPairs, pairPlaces,
      List.map_append, rest, first]

/-- The reports about neighbours are about the places between them. -/
theorem checkPairs_forest (parent id : Nat) (nested : outline.Nested outer)
    (full : outline.IsFull)
    (spells : index.Spells offset (Piece.renderAll outline.pieces)) {broken : Bool}
    {before : Option (Tree × Neighbour)} (seen : LastSeen rule index offset broken before) :
    (rule.checkPairs ((before.map Prod.fst).toList ++
        solid (outline.forest index parent id offset))).map Report.edits =
      (pairPlaces ((before.map Prod.snd).toList ++
        outline.neighbours rule offset broken)).map fun place => [feedEdit place] := by
  -- What is carried along is the last tree so far and whether a line break stands after it.
  induction outline generalizing outer parent id offset broken before with
  | nil => cases before <;> rfl
  | single piece next ih =>
    obtain ⟨onward, further⟩ := spells_single spells
    obtain ⟨_, others⟩ := full_single full
    rw [neighbours]
    rcases forest_single index parent id offset piece next with
      ⟨closing, shown⟩ | ⟨kind, node, found, rfl, span, extent, shown⟩
    · rw [shown, if_pos (isBetween_of_isClosing closing false)]
      exact ih parent id nested.2 others further (seen.between onward)
    · obtain ⟨blank, starts, _⟩ := breaks_kindAt? found
      rw [shown, solid_cons, blank]
      cases stands : piece.isBetween false with
      | true =>
        rw [if_pos rfl]
        exact ih parent (id + 1) nested.2 others further (seen.between onward)
      | false =>
        have wants := wantsLine_kindAt? rule found
        rw [if_neg Bool.false_ne_true]
        refine checkPairs_cons (fun p member => ?_) ?_
        · cases member
          refine checkPair_eq seen wants ?_ ?_ ?_
          · rw [span]
          · rw [extent, span]
            rfl
          · rw [starts]
        · let own : Neighbour := ⟨rule.wantsPiece piece, offset, offset + piece.width,
            broken || piece.startsBroken⟩
          have seen' : LastSeen rule index (offset + piece.width) piece.endsBroken
              (some (⟨node, .nil⟩, own)) := LastSeen.single found span extent
          exact ih parent (id + 1) nested.2 others further seen'
  | element tag inside close next ihInside ihNext =>
    obtain ⟨_, spellsNext⟩ := spells_element spells
    obtain ⟨_, fullInside, _, fullNext⟩ := full_element full
    obtain ⟨node, shown, _, kind, start, extent, stop⟩ :=
      forest_element index parent id offset tag inside close next (laid_forest _ _ _ _ _ fullInside)
    have counts : isBlankText node.kind = false := by simp [kind, isBlankText]
    have starts : startsWithBreak node.kind = false := by simp [kind, startsWithBreak]
    have wants : rule.wantsLine node.kind = rule.wantsPiece (.opening tag) := by
      rw [kind]
      rfl
    rw [shown, solid_cons, counts, if_neg Bool.false_ne_true, List.singleton_append, neighbours]
    refine checkPairs_cons (fun p member => ?_) ?_
    · cases member
      refine checkPair_eq seen wants start ?_ ?_
      · rw [extent]
        exact congrArg (fun place => (index.position place).line) start
      · rw [starts, Bool.or_false]
    · cases close with
      | none =>
        -- Nothing comes after an element without a closing tag.
        obtain ⟨_, _, rfl⟩ := nested
        rfl
      | some close =>
        let after := offset + tag.render.byteLength + inside.width + close.piece.width
        let own : Neighbour := ⟨rule.wantsPiece (.opening tag), offset, after, broken⟩
        let content := inside.forest index id (id + 1) (offset + tag.render.byteLength)
        have seen' : LastSeen rule index after false (some (⟨node, content⟩, own)) :=
          LastSeen.element kind extent stop
        exact ihNext parent _ nested.2.2 fullNext spellsNext seen'

/-! ### Reports at the ends of content -/

/-- The first of the trees starts on the given line, without blanks that break it, just when no
line break stands before the first neighbour. -/
theorem head_forest (rule : ElementNewline) (parent id : Nat)
    (full : outline.IsFull)
    (spells : index.Spells offset (Piece.renderAll outline.pieces)) {broken : Bool} {line : Nat}
    (tells : Tells index offset broken (line, false)) :
    ((solid (outline.forest index parent id offset)).head?.any fun first =>
        line == first.node.extent.start.line && !startsWithBreak first.node.kind) =
      ((outline.neighbours rule offset broken).head?.any fun first => !first.apart) ∧
    (solid (outline.forest index parent id offset)).isEmpty =
      (outline.neighbours rule offset broken).isEmpty := by
  -- The induction stops at the first tree that is not blank; what comes before it only moves the
  -- place on.
  induction outline generalizing parent id offset broken with
  | nil => exact ⟨rfl, rfl⟩
  | single piece next ih =>
    obtain ⟨onward, further⟩ := spells_single spells
    obtain ⟨_, others⟩ := full_single full
    rw [neighbours]
    rcases forest_single index parent id offset piece next with
      ⟨closing, shown⟩ | ⟨kind, node, found, rfl, span, extent, shown⟩
    · rw [shown, if_pos (isBetween_of_isClosing closing false)]
      exact ih parent id others further (tells.between onward)
    · obtain ⟨blank, starts, _⟩ := breaks_kindAt? found
      rw [shown, solid_cons, blank]
      cases stands : piece.isBetween false with
      | true =>
        rw [if_pos rfl]
        exact ih parent (id + 1) others further (tells.between onward)
      | false =>
        refine ⟨?_, rfl⟩
        simp only [if_neg Bool.false_ne_true, List.singleton_append, List.head?_cons,
          Option.any_some, starts, extent, span]
        exact tells.eq_not_or _
  | element tag inside close next _ _ =>
    obtain ⟨_, fullInside, _, _⟩ := full_element full
    obtain ⟨node, shown, _, kind, start, extent, _⟩ :=
      forest_element index parent id offset tag inside close next (laid_forest _ _ _ _ _ fullInside)
    have counts : isBlankText node.kind = false := by simp [kind, isBlankText]
    have starts : startsWithBreak node.kind = false := by simp [kind, startsWithBreak]
    rw [shown, solid_cons, counts, if_neg Bool.false_ne_true, List.singleton_append, neighbours]
    refine ⟨?_, rfl⟩
    simp only [List.head?_cons, Option.any_some, starts, extent]
    have same := tells.eq_not_or false
    rw [Bool.or_false, Bool.or_false] at same
    rw [← same]
    exact congrArg (fun place => _ == (index.position place).line && _) start

private theorem checkEdges_eq {tag : Tag} {content : List Tree} {items : List Neighbour}
    {within stop : Nat} {broken : Bool} (opens : tag.openEnd.span.stop = within)
    (openLine : tag.openEnd.extent.stop.line = (index.position within).line)
    (closes : ∀ close ∈ tag.close, close.span.start = stop ∧
      close.extent.start.line = (index.position stop).line)
    (head : (content.head?.any fun first => (index.position within).line ==
      first.node.extent.start.line && !startsWithBreak first.node.kind) =
        items.head?.any fun first => !first.apart)
    (empty : content.isEmpty = items.isEmpty)
    (last : Tells index stop broken (ending ((index.position within).line, false) content)) :
    (checkEdges tag content).map Report.edits =
      (edgePlaces within stop tag.close.isSome broken items).map fun place => [feedEdit place] := by
  have first : ((content.head?.bind (checkOpen tag)).toList.map Report.edits) =
      (if items.head?.any fun first => !first.apart then [within] else []).map
        fun place => [feedEdit place] := by
    rw [← head]
    cases content.head? with
    | none => rfl
    | some tree =>
      simp only [Option.bind_some, checkOpen, openLine, Option.any_some]
      split
      · simp [gapReport, Edit.insertAfter, feedEdit, opens]
      · rfl
  have final : ((content.getLast?.bind fun last => tag.close.bind (checkClose tag last)).toList.map
      Report.edits) = (if tag.close.isSome && !items.isEmpty && !broken then [stop] else []).map
        fun place => [feedEdit place] := by
    rw [← empty]
    cases shown : content.getLast? with
    | none =>
      rw [List.getLast?_eq_none_iff.1 shown]
      simp
    | some tree =>
      have full : content.isEmpty = false := by
        cases content with
        | nil => simp at shown
        | cons => rfl
      rw [ending_of_getLast? shown] at last
      have same := last.eq_not_or false
      rw [Bool.or_false, Bool.or_false] at same
      -- Without a closing tag nothing is checked at the end of the content.
      cases found : tag.close with
      | none => simp
      | some close =>
        obtain ⟨start, line⟩ := closes close found
        rw [full, ← same]
        simp only [Option.bind_some, checkClose, line, Option.isSome_some, Bool.not_false,
          Bool.true_and]
        split
        · simp [gapReport, Edit.insertBefore, feedEdit, start]
        · rfl
  rw [checkEdges, edgePlaces, List.map_append, List.map_append, first, final]

/-- The reports about the tags of an element are about the places at the ends of its content. -/
private theorem checkEdges_forest (rule : ElementNewline) (id : Nat) {inner : List Text}
    (tag : OpenTag) {inside : Outline} (close : Option ClosingTag) (nested : inside.Nested inner)
    (full : inside.IsFull)
    (spells : index.Spells (offset + tag.render.byteLength) (Piece.renderAll inside.pieces)) :
    let within := offset + tag.render.byteLength
    let token := close.map fun close => index.tokenAt (within + inside.width) close.piece.render
    (checkEdges (index.tagAt offset tag token)
        (solid (inside.forest index id (id + 1) within))).map Report.edits =
      (edgePlaces within (within + inside.width) close.isSome (inside.breaks false false)
        (inside.neighbours rule within false)).map fun place => [feedEdit place] := by
  intro within token
  have start := Tells.here index within false
  have head := head_forest rule id (id + 1) full spells start
  have last := breaks_forest id (id + 1) nested full spells false start
  have isClosed : (index.tagAt offset tag token).close.isSome = close.isSome := by
    cases close <;> rfl
  have opens : (index.tagAt offset tag token).openEnd.span.stop = within :=
    LineIndex.tagAt_stop index offset tag token
  rw [← isClosed]
  refine checkEdges_eq opens ?_ ?_ head.1 head.2 last
  · rw [← opens]
    rfl
  · intro found member
    cases close with
    | none => contradiction
    | some close =>
      cases member
      exact ⟨rfl, rfl⟩

/-! ### All reports -/

private theorem checkInside_leaf (rule : ElementNewline) (node : Node) (next : Forest) :
    rule.checkInside (.cons node .nil next) =
      if isBlankText node.kind then rule.checkInside next
      else ((rule.checkInside next).1,
        rule.wantsLine node.kind || (rule.checkInside next).2) := by
  rw [checkInside]
  split
  · rfl
  · split
    · rfl
    · split <;> simp [checkInside, checkPairs, solid, Forest.trees]

/-- The reports about what is inside the trees are about the places inside the elements. -/
theorem checkInside_forest (rule : ElementNewline) (parent id : Nat) (nested : outline.Nested outer)
    (full : outline.IsFull)
    (spells : index.Spells offset (Piece.renderAll outline.pieces)) :
    (rule.checkInside (outline.forest index parent id offset)).1.map Report.edits =
        (outline.insidePlaces rule offset).1.map (fun place => [feedEdit place]) ∧
      (rule.checkInside (outline.forest index parent id offset)).2 =
        (outline.insidePlaces rule offset).2 := by
  induction outline generalizing outer parent id offset with
  | nil => exact ⟨rfl, rfl⟩
  | single piece next ih =>
    obtain ⟨_, further⟩ := spells_single spells
    obtain ⟨_, others⟩ := full_single full
    rw [insidePlaces]
    rcases forest_single index parent id offset piece next with
      ⟨closing, shown⟩ | ⟨kind, node, found, rfl, span, extent, shown⟩
    · rw [shown, if_pos (isBetween_of_isClosing closing false)]
      exact ih parent id nested.2 others further
    · have after := ih parent (id + 1) nested.2 others further
      rw [shown, checkInside_leaf, (breaks_kindAt? found).1, wantsLine_kindAt? rule found]
      split
      · exact after
      · exact ⟨after.1, by rw [after.2]⟩
  | element tag inside close next ihInside ihNext =>
    obtain ⟨spellsInside, spellsNext⟩ := spells_element spells
    obtain ⟨_, fullInside, _, fullNext⟩ := full_element full
    have nestedInside := nested_inside nested
    have nestedNext := nested_next nested
    obtain ⟨node, shown, _, kind, _, _, _⟩ :=
      forest_element index parent id offset tag inside close next (laid_forest _ _ _ _ _ fullInside)
    let within := offset + tag.render.byteLength
    let content := inside.forest index id (id + 1) within
    let token := close.map fun close => index.tokenAt (within + inside.width) close.piece.render
    have below := ihInside id (id + 1) nestedInside fullInside spellsInside
    have after := ihNext parent (id + inside.count + 1) nestedNext fullNext spellsNext
    have pairs : (rule.checkPairs (solid content)).map Report.edits =
        (pairPlaces (inside.neighbours rule within false)).map fun place => [feedEdit place] :=
      checkPairs_forest id (id + 1) nestedInside fullInside spellsInside LastSeen.none
    have edges : (checkEdges (index.tagAt offset tag token) (solid content)).map Report.edits =
        (edgePlaces within (within + inside.width) close.isSome (inside.breaks false false)
          (inside.neighbours rule within false)).map fun place => [feedEdit place] :=
      checkEdges_forest rule id tag close nestedInside fullInside spellsInside
    -- What the rule asks of an element it can ask of the tag that is written.
    have skips : rule.skips (index.tagAt offset tag token) =
        rule.skippedNames.contains tag.name.lower := rfl
    have wants : rule.wantsLine (.element (index.tagAt offset tag token)) =
        rule.wantsPiece (.opening tag) := rfl
    rw [shown, checkInside, kind, insidePlaces]
    simp only [isBlankText, Kind.tag?, Bool.false_eq_true, if_false]
    change ((if rule.skips (index.tagAt offset tag token) then _ else _) : List Report × Bool).1.map
        Report.edits = _ ∧
      ((if rule.skips (index.tagAt offset tag token) then _ else _) : List Report × Bool).2 = _
    rw [skips, wants, after.2, below.2]
    cases skipped : rule.skippedNames.contains tag.name.lower with
    | true => exact ⟨after.1, rfl⟩
    | false =>
      refine ⟨?_, rfl⟩
      simp only [Bool.false_eq_true, if_false, List.map_append, below.1, after.1]
      rw [pairs]
      cases rule.wantsPiece (.opening tag) && (inside.insidePlaces rule within).2 with
      | true =>
        simp only [if_true]
        rw [edges]
      | false => rfl

end Outline

namespace Document

open ElementNewline

/-- The reports about a document are about the places of its outline that need a line break. -/
theorem edits_reports (rule : ElementNewline) (source : Text) {outline : Outline}
    (shown : Piece.renderAll outline.pieces = source) (nested : outline.Nested [])
    (full : outline.IsFull) :
    (rule.reports (ofOutline source outline)).map Report.edits =
      (outline.breakPlaces rule).map fun place => [feedEdit place] := by
  have spells : (LineIndex.ofText source).Spells 0 (Piece.renderAll outline.pieces) := by
    rw [shown]
    exact LineIndex.spells_ofText source
  have inside := Outline.checkInside_forest rule 0 1 nested full spells
  have unseen : Outline.LastSeen rule (LineIndex.ofText source) 0 false none :=
    Outline.LastSeen.none
  have pairs := Outline.checkPairs_forest 0 1 nested full spells unseen
  rw [reports, Outline.breakPlaces, List.map_append, List.map_append]
  exact congrArg₂ _ inside.1 pairs

end Document

end TagLint
