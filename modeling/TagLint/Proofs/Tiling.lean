import TagLint.Proofs.StableSort
import TagLint.Proofs.TreeShape

/-!
Nothing of a source is lost or counted twice: it is tiled by what its nodes are written as and by
the closing tags that were dropped.

Each node says by itself which parts of the source it is written as. An outline tiles its pieces
in order, and the tiles of its forest and its strays are the same tiles in another order.
-/
namespace TagLint

open Written (Piece OpenTag)

/-- A part of the source that a node or a dropped closing tag is written as. -/
structure Tile where
  span : Span
  isText : Bool
  deriving DecidableEq, Repr

def Tile.before (a b : Tile) : Bool :=
  a.span.start ≤ b.span.start

/-- What the node itself is written as: an element as its tags, any other node as a whole. -/
def Node.tiles (node : Node) : List Tile :=
  match node.kind with
  | .document => []
  | .element tag =>
    ⟨⟨node.span.start, tag.openEnd.span.stop⟩, false⟩ ::
      tag.close.toList.map fun close => ⟨close.span, false⟩
  | .text _ => [⟨node.span, true⟩]
  | _ => [⟨node.span, false⟩]

def Stray.tile (stray : Stray) : Tile :=
  ⟨stray.span, false⟩

/-- All tiles of a document in the order of their starts. -/
def Document.tiles (doc : Document) : List Tile :=
  (doc.nodes.flatMap Node.tiles ++ doc.strays.map Stray.tile).mergeSort Tile.before

/-- Whether the spans follow each other from `lo` to `hi`, none of them empty. -/
def Covers (lo hi : Nat) : List Span → Prop
  | [] => lo = hi
  | span :: others => span.start = lo ∧ lo < span.stop ∧ Covers span.stop hi others

namespace Forest

def tiles (forest : Forest) : List Tile :=
  forest.subtrees.flatMap fun tree => tree.node.tiles

@[simp] theorem tiles_nil : nil.tiles = [] := rfl

@[simp] theorem tiles_cons (node : Node) (inside next : Forest) :
    (cons node inside next).tiles = node.tiles ++ (inside.tiles ++ next.tiles) := by
  simp [tiles, subtrees]

end Forest

namespace Outline

/-- The tiles of an outline that starts at `offset`, one for each piece. -/
def tiles (offset : Nat) : Outline → List Tile
  | nil => []
  | single piece next =>
    ⟨⟨offset, offset + piece.width⟩, piece.isText⟩ :: next.tiles (offset + piece.width)
  | element tag inside close next =>
    let within := offset + tag.render.byteLength
    let after := within + inside.width
    ⟨⟨offset, within⟩, false⟩ :: (inside.tiles within ++
      (close.toList.map fun close => ⟨⟨after, after + close.piece.width⟩, false⟩) ++
      next.tiles (after + (close.map fun close => close.piece.width).getD 0))

end Outline

private theorem tiles_of_kindAt? {index : LineIndex} {offset : Nat} {piece : Piece} {kind : Kind}
    (found : piece.kindAt? index offset = some kind) (id : Nat) (parent : Option Nat) :
    Node.tiles ⟨id, parent, ⟨offset, offset + piece.width⟩,
        index.extent ⟨offset, offset + piece.width⟩, kind⟩ =
      [⟨⟨offset, offset + piece.width⟩, piece.isText⟩] := by
  cases piece with
  | text | comment | doctype =>
    simp only [Piece.kindAt?, Option.some.injEq] at found
    subst found
    rfl
  | closing => simp [Piece.kindAt?] at found
  | opening tag =>
    simp only [Piece.kindAt?, Option.some.injEq] at found
    subst found
    simp only [Node.tiles, LineIndex.tagAt_stop]
    rfl
  | raw tag body =>
    simp only [Piece.kindAt?, Option.some.injEq] at found
    subst found
    split <;> rfl

/-- The tiles of the forest of an outline and those of its strays are the tiles of the outline. -/
theorem Outline.count_tiles (index : LineIndex) (parent id offset : Nat) (outline : Outline)
    (tile : Tile) :
    (outline.forest index parent id offset).tiles.count tile +
        ((outline.strays offset).map Stray.tile).count tile =
      (outline.tiles offset).count tile := by
  induction outline generalizing parent id offset with
  | nil => rfl
  | single piece next ih =>
    cases kind : piece.kindAt? index offset with
    | some kind' =>
      -- A node is no stray, so the piece counts in the forest only.
      have node := Piece.kindAt?_isNone index offset piece
      have stray := Piece.strayAt?_isSome offset piece
      rw [kind, Option.isNone_some] at node
      rw [← node] at stray
      have absent : piece.strayAt? offset = none := by simpa using stray
      have others := ih parent (id + 1) (offset + piece.width)
      simp only [forest, kind, strays, absent, Option.toList_none, List.nil_append, tiles,
        Forest.tiles_cons, Forest.tiles_nil, tiles_of_kindAt? kind, List.count_append,
        List.count_cons, List.count_nil]
      omega
    | none =>
      have others := ih parent id (offset + piece.width)
      cases piece with
      | closing name tail isClosed =>
        simp only [forest, Piece.kindAt?, strays, Piece.strayAt?, Option.toList_some, tiles,
          List.map_cons, List.cons_append, List.nil_append, List.count_cons, Piece.isText,
          Stray.tile]
        omega
      | _ => simp [Piece.kindAt?] at kind
  | element tag inside close next ihInside ihNext =>
    have content := ihInside id (id + 1) (offset + tag.render.byteLength)
    have others := ihNext parent (id + inside.count + 1) (offset + tag.render.byteLength +
      inside.width + (close.map fun close => close.piece.width).getD 0)
    -- The element itself is written as its tags; its span does not matter.
    have own (token : Option Token) (extent : Extent) (stop : Nat) :
        Node.tiles ⟨id, some parent, ⟨offset, stop⟩, extent,
            .element { index.tagAt offset tag none with close := token }⟩ =
          ⟨⟨offset, offset + tag.render.byteLength⟩, false⟩ ::
            token.toList.map fun close => ⟨close.span, false⟩ := by
      simp [Node.tiles, LineIndex.tagAt_stop]
    cases close with
    | none =>
      simp only [forest, strays, tiles, OpenElement.finish, own, Option.map_none, Option.getD_none,
        Option.toList_none, List.map_nil, List.append_nil, Nat.add_zero, Forest.tiles_cons,
        Forest.ofTrees_trees, List.reverse_reverse, List.map_append, List.count_append,
        List.cons_append, List.nil_append, List.count_cons,
        LineIndex.tagAt_start] at content others ⊢
      omega
    | some close =>
      simp only [forest, strays, tiles, OpenElement.finish, own, Option.map_some, Option.getD_some,
        Option.toList_some, List.map_cons, List.map_nil, Forest.tiles_cons, Forest.ofTrees_trees,
        List.reverse_reverse, List.map_append, List.count_append, List.cons_append,
        List.nil_append, List.count_cons, List.count_nil, LineIndex.tagAt_start,
        LineIndex.tokenAt, Piece.width] at content others ⊢
      omega

def Written.Piece.spansFrom (offset : Nat) : List Piece → List Span
  | [] => []
  | piece :: others => ⟨offset, offset + piece.width⟩ :: spansFrom (offset + piece.width) others

namespace Written.Piece

theorem spansFrom_append (offset : Nat) (first second : List Piece) :
    spansFrom offset (first ++ second) =
      spansFrom offset first ++ spansFrom (offset + (renderAll first).byteLength) second := by
  induction first generalizing offset with
  | nil => rfl
  | cons piece others ih => simp [spansFrom, ih, renderAll, width, Nat.add_assoc]

theorem covers_spansFrom (offset : Nat) (pieces : List Piece)
    (nonempty : ∀ piece ∈ pieces, piece.render ≠ []) :
    Covers offset (offset + (renderAll pieces).byteLength) (spansFrom offset pieces) := by
  induction pieces generalizing offset with
  | nil => rfl
  | cons piece others ih =>
    have long := width_pos (nonempty piece List.mem_cons_self)
    have further := ih (offset + piece.width) fun p member =>
      nonempty p (List.mem_cons_of_mem piece member)
    refine ⟨rfl, by simp only; omega, ?_⟩
    simpa [renderAll, width, Nat.add_assoc] using further

end Written.Piece

namespace Outline

theorem tiles_spans (offset : Nat) (outline : Outline) :
    (outline.tiles offset).map Tile.span = Piece.spansFrom offset outline.pieces := by
  induction outline generalizing offset with
  | nil => rfl
  | single piece next ih => simp [tiles, Piece.spansFrom, ih]
  | element tag inside close next ihInside ihNext =>
    cases close <;>
      simp [tiles, Piece.spansFrom, ihInside, ihNext, Piece.spansFrom_append, width, Piece.width,
        Piece.render, Piece.renderAll, Nat.add_assoc]

theorem tiles_isText (offset : Nat) (outline : Outline) :
    (outline.tiles offset).map Tile.isText = outline.pieces.map Piece.isText := by
  induction outline generalizing offset with
  | nil => rfl
  | single piece next ih => simp [tiles, ih]
  | element tag inside close next ihInside ihNext =>
    cases close <;> simp [tiles, ihInside, ihNext, Piece.isText, ClosingTag.piece]

end Outline

theorem Covers.pairwise_lt {lo hi : Nat} {spans : List Span} (covers : Covers lo hi spans) :
    spans.Pairwise (fun a b => a.start < b.start) ∧ ∀ span ∈ spans, lo ≤ span.start := by
  induction spans generalizing lo with
  | nil => simp
  | cons span others ih =>
    obtain ⟨rfl, long, further⟩ := covers
    obtain ⟨sorted, after⟩ := ih further
    constructor
    · refine List.Pairwise.cons ?_ sorted
      intro other member
      exact Nat.lt_of_lt_of_le long (after other member)
    · intro other member
      rcases List.mem_cons.1 member with rfl | later
      · exact Nat.le_refl _
      · exact Nat.le_trans (Nat.le_of_lt long) (after other later)

theorem mergeSort_eq_of_covers {lo hi : Nat} {tiles listed : List Tile}
    (covers : Covers lo hi (tiles.map Tile.span)) (same : listed.Perm tiles) :
    listed.mergeSort Tile.before = tiles := by
  have ascending := List.pairwise_map.1 covers.pairwise_lt.1
  exact mergeSort_eq_of_perm (fun tile => tile.span.start) same ascending

namespace Text

theorem cut?_append (before after : Text) :
    cut? before.byteLength (before ++ after) = some (before, after) := by
  induction before with
  | nil => cases after <;> rfl
  | cons c before ih =>
    have positive := c.utf8Size_pos
    obtain ⟨n, size⟩ : ∃ n, byteLength (c :: before) = n + 1 :=
      Nat.exists_eq_add_one.2 (by rw [byteLength_cons]; omega)
    have left : n + 1 - c.utf8Size = byteLength before := by
      rw [← size, byteLength_cons, Nat.add_sub_cancel_left]
    have fits : c.utf8Size ≤ n + 1 := by
      rw [← size, byteLength_cons]
      exact Nat.le_add_right _ _
    rw [size, List.cons_append, cut?, if_pos fits, left, ih]
    rfl

theorem select?_append (before middle after : Text) :
    (before ++ middle ++ after).select?
      ⟨before.byteLength, before.byteLength + middle.byteLength⟩ = some middle := by
  have inner := cut?_append middle after
  simp [select?, slice?, List.append_assoc, cut?_append before (middle ++ after), inner]

end Text

/-- The spans of consecutive pieces select what the pieces render to. -/
theorem Written.Piece.select?_spansFrom (before : Text) (pieces : List Piece) :
    (spansFrom before.byteLength pieces).map (before ++ renderAll pieces).select? =
      (pieces.map render).map some := by
  induction pieces generalizing before with
  | nil => rfl
  | cons piece others ih =>
    have further := ih (before ++ piece.render)
    have here := Text.select?_append before piece.render (renderAll others)
    rw [Text.byteLength_append] at further
    simp only [renderAll, List.flatMap_cons, ← List.append_assoc] at further here ⊢
    simp only [spansFrom, List.map_cons, here, width, further]

/-- Whether the closing tag is written as an angle bracket, a slash and its name, which starts with
a letter, up to the first closing bracket after it or up to the end of the source. -/
def Stray.IsWritten (source : Text) (stray : Stray) : Prop :=
  ∃ (tail : Text) (isClosed : Bool),
    source.select? stray.span =
        some ("</".toList ++ stray.name ++ tail ++ Piece.bracket isClosed) ∧
      Text.startsWithLetter stray.name = true ∧ '>' ∉ stray.name ++ tail ∧
      (isClosed = false → stray.span.stop = source.byteLength)

theorem Outline.mem_strays {offset : Nat} {outline : Outline} {stray : Stray}
    (member : stray ∈ outline.strays offset) :
    ∃ (before after : List Piece) (tail : Text) (isClosed : Bool),
      outline.pieces = before ++ .closing stray.name tail isClosed :: after ∧
        stray.span.start = offset + (Piece.renderAll before).byteLength ∧
        stray.span.stop = stray.span.start + (Piece.closing stray.name tail isClosed).width := by
  -- Going into an element or past a piece, the pieces before the closing tag are what is passed.
  induction outline generalizing offset with
  | nil => simp [strays] at member
  | single piece next ih =>
    rcases List.mem_append.1 member with here | later
    · cases piece with
      | closing name tail isClosed =>
        simp only [Piece.strayAt?, Option.toList_some, List.mem_singleton] at here
        subst here
        exact ⟨[], next.pieces, tail, isClosed, rfl, rfl, rfl⟩
      | _ => simp [Piece.strayAt?] at here
    · obtain ⟨before, after, tail, isClosed, split, start, stop⟩ := ih later
      refine ⟨piece :: before, after, tail, isClosed, by simp [split], ?_, stop⟩
      simp [start, Piece.renderAll, Piece.width, Nat.add_assoc]
  | element tag inside close next ihInside ihNext =>
    rcases List.mem_append.1 member with within | later
    · obtain ⟨before, after, tail, isClosed, split, start, stop⟩ := ihInside within
      refine ⟨.opening tag :: before,
        after ++ (close.map ClosingTag.piece).toList ++ next.pieces, tail, isClosed,
        by simp [split], ?_, stop⟩
      simp [start, Piece.renderAll, Piece.render, Nat.add_assoc]
    · obtain ⟨before, after, tail, isClosed, split, start, stop⟩ := ihNext later
      refine ⟨.opening tag :: (inside.pieces ++ (close.map ClosingTag.piece).toList ++ before),
        after, tail, isClosed, by simp [split], ?_, stop⟩
      cases close <;>
        simp [start, Piece.renderAll, Piece.render, width, Piece.width, Nat.add_assoc]

namespace Written.Piece

/-- Among pieces that are read, no two neighbours are text. -/
theorem Reads.isChain {pairs : List Delimiters} {pieces : List Piece}
    (reads : Reads pairs pieces) :
    (pieces.map isText).IsChain fun a b => ¬(a = true ∧ b = true) := by
  induction pieces with
  | nil => exact List.IsChain.nil
  | cons first others ih =>
    cases others with
    | nil => exact List.IsChain.singleton _
    | cons second others =>
      exact List.IsChain.cons_cons reads.text_apart (ih reads.2.2)

end Written.Piece

/-- A closing tag that a read outline drops runs up to its first bracket. -/
theorem Outline.isWritten_of_mem {pairs : List Delimiters} {outline : Outline} {stray : Stray}
    (reads : Piece.Reads pairs outline.pieces) (member : stray ∈ outline.strays 0) :
    stray.IsWritten (Piece.renderAll outline.pieces) := by
  obtain ⟨before, after, tail, isClosed, split, start, stop⟩ := mem_strays member
  rw [split] at reads
  obtain ⟨letter, ends, bracket, unfinished⟩ := reads.of_append.closing_shape
  have joined : Piece.renderAll outline.pieces = Piece.renderAll before ++
      (Piece.closing stray.name tail isClosed).render ++ Piece.renderAll after := by
    rw [split]
    simp [Piece.renderAll]
  rw [Nat.zero_add] at start
  refine ⟨tail, isClosed, ?_, letter, ?_, ?_⟩
  · have place : stray.span = ⟨(Piece.renderAll before).byteLength,
        (Piece.renderAll before).byteLength +
          (Piece.closing stray.name tail isClosed).render.byteLength⟩ := by
      rw [← start]
      exact congrArg (Span.mk stray.span.start) stop
    rw [place, joined, Text.select?_append]
    rfl
  · intro found
    rcases List.mem_append.1 found with named | later
    · exact absurd (ends '>' named) (by decide)
    · exact bracket later
  · intro runs
    -- Without a bracket nothing comes after the tag.
    rw [stop, start, joined, unfinished runs]
    simp [Piece.renderAll]

namespace Document

/-- Whether the tiles of the document are the source, piece by piece. -/
structure IsTiled (source : Text) (doc : Document) : Prop where
  /-- The tiles follow each other from the start of the source to its end, none of them empty. -/
  covers : Covers 0 source.byteLength (doc.tiles.map Tile.span)
  /-- Each tile selects a text of the source; together they are the source. -/
  lossless : ∃ texts : List Text,
    (doc.tiles.map Tile.span).map source.select? = texts.map some ∧ texts.flatten = source
  /-- No text comes right after another. -/
  maximal : (doc.tiles.map Tile.isText).IsChain fun a b => ¬(a = true ∧ b = true)
  /-- A dropped closing tag runs up to its first bracket. -/
  strays : ∀ stray ∈ doc.strays, stray.IsWritten source

/-- The tiles of a parsed document are those of its outline. -/
theorem tiles_ofOutline (source : Text) (outline : Outline) (full : outline.IsFull) :
    (ofOutline source outline).tiles = outline.tiles 0 := by
  have covers : Covers 0 (0 + (Piece.renderAll outline.pieces).byteLength)
      ((outline.tiles 0).map Tile.span) := by
    rw [outline.tiles_spans]
    exact Piece.covers_spansFrom 0 outline.pieces full
  -- Nodes and strays are listed apart, so the tiles are compared by how often each is listed.
  apply mergeSort_eq_of_covers covers
  rw [List.perm_iff_count]
  intro tile
  rw [← outline.count_tiles (LineIndex.ofText source) 0 1 0, List.count_append]
  congr 1
  simp [nodes, subtrees, Tree.subtrees, Forest.tiles, List.flatMap_map, ofOutline, Node.tiles]

/-- The tiles of a parsed document follow each other from the start of its source to the end. -/
theorem covers_tiles_parse (pairs : List Delimiters) (source : Text) :
    Covers 0 source.byteLength ((parse pairs source).tiles.map Tile.span) := by
  obtain ⟨outline, same, _, parsed⟩ := exists_outline pairs source
  have reads : Piece.Reads pairs outline.pieces := same ▸ Piece.reads_scanAll pairs source
  have rendered : Piece.renderAll outline.pieces = source := by
    rw [same, Piece.renderAll_scanAll]
  have full := Outline.full_of_reads reads
  rw [parsed, tiles_ofOutline source outline full, outline.tiles_spans, ← rendered]
  simpa using Piece.covers_spansFrom 0 outline.pieces full

/-- A dropped closing tag is written as one. -/
theorem isWritten_of_mem_strays {pairs : List Delimiters} {source : Text} {stray : Stray}
    (member : stray ∈ (parse pairs source).strays) : stray.IsWritten source := by
  obtain ⟨outline, same, _, parsed⟩ := exists_outline pairs source
  have reads : Piece.Reads pairs outline.pieces := same ▸ Piece.reads_scanAll pairs source
  have rendered : Piece.renderAll outline.pieces = source := by
    rw [same, Piece.renderAll_scanAll]
  rw [parsed] at member
  rw [← rendered]
  exact Outline.isWritten_of_mem reads member

/-- The source of every document is tiled by what its nodes and its dropped closing tags are
written as. -/
theorem isTiled_parse (pairs : List Delimiters) (source : Text) :
    (parse pairs source).IsTiled source := by
  obtain ⟨outline, same, _, parsed⟩ := exists_outline pairs source
  have reads : Piece.Reads pairs outline.pieces := by
    rw [same]
    exact Piece.reads_scanAll pairs source
  have rendered : Piece.renderAll outline.pieces = source := by
    rw [same, Piece.renderAll_scanAll]
  have full := Outline.full_of_reads reads
  refine {
    covers := covers_tiles_parse pairs source
    lossless := ?lossless
    maximal := ?maximal
    strays := fun _ => isWritten_of_mem_strays }
  case lossless =>
    rw [parsed, tiles_ofOutline source outline full, outline.tiles_spans]
    have selected := Piece.select?_spansFrom [] outline.pieces
    rw [List.nil_append, rendered] at selected
    refine ⟨outline.pieces.map Piece.render, selected, ?_⟩
    rw [← rendered]
    rfl
  case maximal =>
    rw [parsed, tiles_ofOutline source outline full, outline.tiles_isText]
    exact reads.isChain

end Document
end TagLint
