import TagLint.Proofs.ClosingEdits
import TagLint.Proofs.FittingEdits
import Mathlib.Data.List.Pairwise

/-!
Where the parts of tags lie.

Inside an opening tag the name comes first, then the attributes, then what ends the tag; the closing
tag comes after it. Every part of a node lies in one of the tiles that the node is written as, and
the tiles of different nodes are apart.
-/
namespace TagLint

open Written (Piece OpenTag)
open ClosingTags (headStop)

/-- Whether two spans have nothing in common and neither has an end strictly inside the other. -/
def Span.Apart (a b : Span) : Prop :=
  a.stop ≤ b.start ∨ b.stop ≤ a.start

theorem Span.Apart.symm {a b : Span} (apart : a.Apart b) : b.Apart a :=
  Or.symm apart

/-- What is apart from a span is apart from all that lies in it. -/
theorem Span.Apart.within {a b inner : Span} (apart : a.Apart b) (start : b.start ≤ inner.start)
    (stop : inner.stop ≤ b.stop) : a.Apart inner := by
  unfold Apart at apart ⊢
  omega

theorem Covers.pairwise_apart {lo hi : Nat} {spans : List Span} (covers : Covers lo hi spans) :
    spans.Pairwise Span.Apart := by
  induction spans generalizing lo with
  | nil => exact List.Pairwise.nil
  | cons span others ih =>
    obtain ⟨_, _, further⟩ := covers
    refine List.Pairwise.cons ?_ (ih further)
    intro other member
    exact Or.inl (further.pairwise_lt.2 other member)

theorem Covers.ordered {lo hi : Nat} {spans : List Span} (covers : Covers lo hi spans) :
    ∀ span ∈ spans, span.start < span.stop := by
  induction spans generalizing lo with
  | nil => simp
  | cons span others ih =>
    obtain ⟨rfl, long, further⟩ := covers
    intro other member
    rcases List.mem_cons.1 member with rfl | later
    · exact long
    · exact ih further other later

/-- The tags of an element, whatever its content is. -/
def Kind.tags : Kind → List Tag
  | .element tag | .script tag _ | .style tag _ => [tag]
  | _ => []

def Tag.tokens (tag : Tag) : List Token :=
  tag.openStart :: tag.openEnd :: tag.close.toList

namespace Node

/-- The parts of the source that are no syntax: whole nodes other than elements, and attributes. -/
def content (node : Node) : List Span :=
  (match node.kind with
    | .document | .element _ => []
    | _ => [node.span]) ++
  node.kind.tags.flatMap fun tag => tag.attributes.map Attribute.span

/-- Where the node's tokens are. -/
def tokens (node : Node) : List Span :=
  node.kind.tags.flatMap fun tag => tag.tokens.map Token.span

end Node

section Tag

variable {index : LineIndex} {place : Nat} {written : OpenTag} {close : Option Token}

theorem LineIndex.mem_attributesAt {offset : Nat} {entries : List (Text × Written.Attribute)}
    {part : Attribute} (member : part ∈ (index.attributesAt offset entries).1) :
    offset ≤ part.span.start ∧
      part.span.stop ≤ (index.attributesAt offset entries).2 := by
  induction entries generalizing offset with
  | nil => simp [attributesAt] at member
  | cons entry others ih =>
    have further := index.attributesAt_stop
      (index.attributeAt (offset + entry.1.byteLength) entry.2).span.stop others
    rcases List.mem_cons.1 member with rfl | later
    · simp only [attributesAt, attributeAt] at further ⊢
      omega
    · have := ih later
      simp only [attributesAt, attributeAt] at this ⊢
      omega

/-- The name comes first in a tag. -/
theorem openStart_tagAt :
    (index.tagAt place written close).openStart.span.stop ≤
      headStop (index.tagAt place written close) := by
  rw [headStop_tagAt]
  simp only [LineIndex.tagAt, LineIndex.tokenAt, OpenTag.head, Text.byteLength_append]
  omega

/-- The attributes come after the name. -/
theorem attributes_tagAt {part : Attribute}
    (member : part ∈ (index.tagAt place written close).attributes) :
    (index.tagAt place written close).openStart.span.stop ≤ part.span.start ∧
      part.span.stop ≤ headStop (index.tagAt place written close) := by
  obtain ⟨start, stop⟩ := LineIndex.mem_attributesAt member
  have last := index.attributesAt_stop
    (index.tokenAt place ('<' :: written.name)).span.stop written.attributes
  refine ⟨start, ?_⟩
  rw [last] at stop
  rw [headStop_tagAt]
  simp only [LineIndex.tokenAt, OpenTag.head, OpenTag.renderAttributes,
    Text.byteLength_append] at stop ⊢
  omega

/-- What ends the tag comes last. -/
theorem headStop_le_tagAt :
    headStop (index.tagAt place written close) ≤
        (index.tagAt place written close).openEnd.span.start ∧
      (index.tagAt place written close).openEnd.span.start ≤
        (index.tagAt place written close).openEnd.span.stop := by
  rw [headStop_tagAt, openEnd_tagAt, LineIndex.tagAt_stop, byteLength_render]
  simp only [Text.byteLength_append]
  omega

/-- All parts of an opening tag lie in it. -/
theorem within_tagAt {tag : Tag} (same : tag = index.tagAt place written close) {span : Span}
    (held : span ∈ tag.attributes.map Attribute.span ∨ span = tag.openStart.span ∨
      span = tag.openEnd.span) :
    place ≤ span.start ∧ span.stop ≤ tag.openEnd.span.stop := by
  have first : tag.openStart.span.stop ≤ headStop tag := by
    rw [same]
    exact openStart_tagAt
  have last : headStop tag ≤ tag.openEnd.span.start ∧
      tag.openEnd.span.start ≤ tag.openEnd.span.stop := by
    rw [same]
    exact headStop_le_tagAt
  subst same
  have named : place ≤ (index.tagAt place written close).openStart.span.stop :=
    Nat.le_add_right _ _
  rcases held with attributes | rfl | rfl
  · obtain ⟨part, member, rfl⟩ := List.mem_map.1 attributes
    have := attributes_tagAt member
    omega
  · rw [LineIndex.tagAt_start]
    omega
  · omega

end Tag

namespace Written.Piece

/-- A located piece is what stands at its place. -/
theorem exists_of_mem_locate {offset place : Nat} {pieces : List Piece} {piece : Piece}
    (member : (place, piece) ∈ locate offset pieces) :
    ∃ before after, pieces = before ++ piece :: after ∧
      place = offset + (renderAll before).byteLength := by
  induction pieces generalizing offset with
  | nil => simp [locate] at member
  | cons first others ih =>
    rcases List.mem_cons.1 member with here | later
    · obtain ⟨rfl, rfl⟩ := Prod.mk.inj here
      exact ⟨[], others, rfl, rfl⟩
    · obtain ⟨before, after, rfl, rfl⟩ := ih later
      exact ⟨first :: before, after, rfl, by simp [renderAll, Nat.add_assoc]⟩

/-- The source divides at a located piece. -/
theorem split_of_mem_locate {pairs : List Delimiters} {source : Text} {place : Nat} {piece : Piece}
    (member : (place, piece) ∈ locate 0 (scanAll pairs source)) :
    ∃ before after : Text,
      source = before ++ piece.render ++ after ∧ before.byteLength = place := by
  obtain ⟨before, after, split, here⟩ := exists_of_mem_locate member
  refine ⟨renderAll before, renderAll after, ?_, by omega⟩
  rw [← renderAll_scanAll pairs source, split]
  simp [renderAll]

end Written.Piece

/-- An element of a document has the tags that stand at its place. -/
theorem Tree.ComesFrom.tag_eq {index : LineIndex} {located : List (Nat × Piece)}
    {outer : List Text} {tree : Tree} (comes : tree.ComesFrom index located outer) {tag : Tag}
    (kind : tree.node.kind = .element tag) :
    ∃ written, (tree.node.span.start, .opening written) ∈ located ∧
      tag = index.tagAt tree.node.span.start written tag.close ∧
      ∀ token ∈ tag.close, ∃ (place : Nat) (own : ClosingTag), (place, own.piece) ∈ located ∧
        token = index.tokenAt place own.piece.render ∧ tag.openEnd.span.stop ≤ place := by
  cases comes with
  | single place piece next read stands own span inside =>
    obtain ⟨written, rfl, rfl⟩ := Piece.opening_of_kindAt? (kind ▸ own)
    rw [span]
    exact ⟨written, read, rfl, by simp [LineIndex.tagAt]⟩
  | element place written inside close opening closing nested own start stop content =>
    rw [kind, Kind.element.injEq] at own
    subst start own
    refine ⟨written, opening, rfl, ?_⟩
    intro token closed
    obtain ⟨own, rfl, rfl⟩ := Option.map_eq_some_iff.1 closed
    refine ⟨_, own, closing own rfl, rfl, ?_⟩
    rw [LineIndex.tagAt_stop]
    exact Nat.le_add_right _ _

/-- A raw element is one piece of the source, with its content and its closing tag. -/
theorem Tree.ComesFrom.exists_raw {index : LineIndex} {located : List (Nat × Piece)}
    {outer : List Text} {tree : Tree} (comes : tree.ComesFrom index located outer) {tag : Tag}
    {content : Option Content}
    (kind : tree.node.kind = .script tag content ∨ tree.node.kind = .style tag content) :
    ∃ written body, (tree.node.span.start, .raw written body) ∈ located ∧
      tree.node.span.stop = tree.node.span.start + (Piece.raw written body).width ∧
      content = body.map (fun body => index.contentAt
        (tree.node.span.start + written.render.byteLength) body.content) ∧
      tag = index.tagAt tree.node.span.start written (body.bind fun body => body.close.map
        (index.tokenAt
          (tree.node.span.start + written.render.byteLength + body.content.text.byteLength))) := by
  cases comes with
  | element place written inside close opening closing nested own start stop content =>
    rcases kind with kind | kind <;> simp [kind] at own
  | single place piece next read stands own span inside =>
    cases piece with
    | raw written body =>
      obtain rfl : place = tree.node.span.start := by rw [span]
      refine ⟨written, body, read, congrArg Span.stop span, ?_⟩
      -- Whether the node is a script or a style, its parts are those that were read.
      simp only [Piece.kindAt?, Option.some.injEq] at own
      rcases kind with kind | kind <;> rw [kind] at own <;> split at own
      · exact ⟨(Kind.script.inj own).2.symm, (Kind.script.inj own).1.symm⟩
      · contradiction
      · contradiction
      · exact ⟨(Kind.style.inj own).2.symm, (Kind.style.inj own).1.symm⟩
    | closing => simp [Piece.kindAt?] at own
    | text | comment | doctype | opening =>
      simp only [Piece.kindAt?, Option.some.injEq] at own
      rcases kind with kind | kind <;> simp [kind] at own

/-- A raw element has the opening tag that stands at its place, and ends with its closing tag if it
has one. -/
theorem Tree.ComesFrom.raw_eq {index : LineIndex} {located : List (Nat × Piece)}
    {outer : List Text} {tree : Tree} (comes : tree.ComesFrom index located outer) {tag : Tag}
    {content : Option Content}
    (kind : tree.node.kind = .script tag content ∨ tree.node.kind = .style tag content) :
    ∃ written, tag = index.tagAt tree.node.span.start written tag.close ∧
      tag.openEnd.span.stop ≤ tree.node.span.stop ∧
      ∀ token ∈ tag.close, tag.openEnd.span.stop ≤ token.span.start ∧
        token.span.stop = tree.node.span.stop := by
  have closes : ∀ token ∈ tag.close, token.span.stop = tree.node.span.stop := by
    intro token closed
    refine comes.stop_of_close ?_
    rcases kind with kind | kind <;> rw [kind] <;> exact closed
  obtain ⟨written, body, _, stop, _, same⟩ := comes.exists_raw kind
  have shown : tag.openEnd.span.stop = tree.node.span.start + written.render.byteLength := by
    rw [same, LineIndex.tagAt_stop]
  refine ⟨written, by rw [same]; rfl, ?_, fun token closed => ⟨?_, closes token closed⟩⟩
  · simp only [Piece.width, Piece.render, Text.byteLength_append] at stop
    omega
  · rw [shown]
    rw [same] at closed
    obtain ⟨body, rfl, within⟩ := Option.bind_eq_some_iff.1 closed
    obtain ⟨close, _, rfl⟩ := Option.map_eq_some_iff.1 within
    exact Nat.le_add_right _ _

namespace Document

variable {pairs : List Delimiters} {source : Text}

/-- All tiles of a document are apart. -/
theorem tiles_apart (pairs : List Delimiters) (source : Text) :
    ((parse pairs source).nodes.flatMap Node.tiles ++
      (parse pairs source).strays.map Stray.tile).Pairwise fun a b => a.span.Apart b.span := by
  have sorted := List.pairwise_map.1 (covers_tiles_parse pairs source).pairwise_apart
  exact (List.mergeSort_perm _ Tile.before).pairwise_iff Span.Apart.symm |>.1 sorted

/-- The tiles of different nodes are apart. -/
theorem apart_of_mem_nodes {a b : Node} (first : a ∈ (parse pairs source).nodes)
    (second : b ∈ (parse pairs source).nodes) (other : a.id ≠ b.id) :
    ∀ s ∈ a.tiles, ∀ t ∈ b.tiles, s.span.Apart t.span := by
  have tiles := (List.pairwise_append.1 (tiles_apart pairs source)).1
  have nodes := (List.pairwise_flatMap.1 tiles).2
  have symmetric : Std.Symm fun a b : Node => ∀ s ∈ a.tiles, ∀ t ∈ b.tiles, s.span.Apart t.span :=
    ⟨fun _ _ apart s own t here => (apart t here s own).symm⟩
  exact nodes.forall first second fun same => other (congrArg Node.id same)

/-- Nodes of a document with the same id are the same. -/
theorem eq_of_id_eq {a b : Node} (first : a ∈ (parse pairs source).nodes)
    (second : b ∈ (parse pairs source).nodes) (same : a.id = b.id) : a = b :=
  List.inj_on_of_nodup_map (nodup_ids_parse pairs source) first second same

/-- What a node holds lies in the tiles that it is written as. -/
theorem exists_tile {node : Node} (member : node ∈ (parse pairs source).nodes) {span : Span}
    (held : span ∈ node.content ++ node.tokens) :
    ∃ tile ∈ node.tiles, tile.span.start ≤ span.start ∧ span.stop ≤ tile.span.stop := by
  obtain ⟨tree, within, rfl⟩ := List.mem_map.1 member
  rcases List.mem_cons.1 within with rfl | below
  · simp [parse, Node.content, Node.tokens, Kind.tags] at held
  obtain ⟨_, comes, _⟩ := comesFrom_parse pairs source below
  -- The tags of an element are tiles of their own; any other node is one tile as a whole.
  cases kind : tree.node.kind with
  | document => simp [Node.content, Node.tokens, kind, Kind.tags] at held
  | text | comment | doctype =>
    simp only [Node.content, Node.tokens, Node.tiles, kind, Kind.tags, List.flatMap_nil,
      List.append_nil, List.mem_singleton, exists_eq_left] at held ⊢
    subst held
    exact ⟨Nat.le_refl _, Nat.le_refl _⟩
  | element tag =>
    obtain ⟨written, _, same, _⟩ := comes.tag_eq kind
    simp only [Node.content, Node.tokens, Node.tiles, kind, Kind.tags, Tag.tokens,
      List.flatMap_cons, List.flatMap_nil, List.append_nil, List.nil_append, List.mem_append,
      List.map_cons, List.mem_cons] at held ⊢
    rcases held with attributes | start | ends | closed
    · exact ⟨_, Or.inl rfl, within_tagAt same (Or.inl attributes)⟩
    · exact ⟨_, Or.inl rfl, within_tagAt same (Or.inr (Or.inl start))⟩
    · exact ⟨_, Or.inl rfl, within_tagAt same (Or.inr (Or.inr ends))⟩
    · obtain ⟨token, own, rfl⟩ := List.mem_map.1 closed
      exact ⟨_, Or.inr (List.mem_map_of_mem own), Nat.le_refl _, Nat.le_refl _⟩
  | script tag content | style tag content =>
    have isRaw : tree.node.kind = .script tag content ∨ tree.node.kind = .style tag content := by
      simp [kind]
    obtain ⟨written, same, fits, closes⟩ := comes.raw_eq isRaw
    simp only [Node.content, Node.tokens, Node.tiles, kind, Kind.tags, Tag.tokens,
      List.flatMap_cons, List.flatMap_nil, List.append_nil, List.mem_append, List.map_cons,
      List.mem_cons, List.not_mem_nil, or_false, exists_eq_left] at held ⊢
    have opened {span : Span} (part : span ∈ tag.attributes.map Attribute.span ∨
        span = tag.openStart.span ∨ span = tag.openEnd.span) :
        tree.node.span.start ≤ span.start ∧ span.stop ≤ tree.node.span.stop := by
      have := within_tagAt same part
      omega
    rcases held with (rfl | attributes) | start | ends | closed
    · exact ⟨Nat.le_refl _, Nat.le_refl _⟩
    · exact opened (Or.inl attributes)
    · exact opened (Or.inr (Or.inl start))
    · exact opened (Or.inr (Or.inr ends))
    · obtain ⟨token, own, rfl⟩ := List.mem_map.1 closed
      have := closes token (Option.mem_toList.1 own)
      have := within_tagAt same (Or.inr (Or.inr rfl))
      have ends : tag.openEnd.span.start ≤ tag.openEnd.span.stop := by
        rw [same]
        exact headStop_le_tagAt.2
      omega

end Document
end TagLint
