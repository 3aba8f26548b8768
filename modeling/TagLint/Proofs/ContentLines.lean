import TagLint.Markup.Query
import TagLint.Proofs.ExactSpans
import TagLint.Proofs.LineCount
import Mathlib.Data.List.Chain

/-!
The lines of a content.

A content is cut at its line feeds, and each line is placed by adding up what stands before it in
the content, which may itself start in the middle of a line. The index of the source finds every
position on its own, by the line feeds of the whole source; the two agree because within a line the
column counts bytes, and after a line feed it starts again.
-/
namespace TagLint

open Written (Piece)

namespace Text

theorem feedLines_eq_splitOn (t : Text) : t.feedLines = List.splitOn '\n' t := by
  induction t using feedInduction with
  | last line unbroken =>
    rw [feedLines_of_notMem unbroken, List.splitOn,
      List.splitOnP_eq_singleton (beq_feed_of_notMem unbroken)]
  | feed line rest unbroken ih =>
    rw [feedLines_line unbroken, ih, List.splitOn, List.splitOn,
      List.splitOnP_append_cons_of_forall_mem (beq_feed_of_notMem unbroken) _ (by decide)]

theorem sinceFeed_append_of_notMem (s : Text) {t : Text} (unbroken : '\n' ∉ t) :
    (s ++ t).sinceFeed = s.sinceFeed ++ t := by
  have plain : ∀ c ∈ t.reverse, (c != '\n') = true := by
    intro c member
    rw [bne, beq_feed_of_notMem unbroken c (List.mem_reverse.1 member)]
    rfl
  unfold sinceFeed List.rtakeWhile
  rw [List.reverse_append, List.takeWhile_append_of_pos plain, List.reverse_append,
    List.reverse_reverse]

theorem sinceFeed_feed (s : Text) : (s ++ ['\n']).sinceFeed = [] :=
  List.rtakeWhile_concat_neg (· != '\n') s '\n' (by decide)

end Text

namespace LineIndex

variable {source before line after : Text}

/-- Within a line the column counts bytes. -/
theorem position_line (source_ : source = before ++ (line ++ after)) (unbroken : '\n' ∉ line) :
    (ofText source).position (before.byteLength + line.byteLength) =
      ⟨((ofText source).position before.byteLength).line,
        ((ofText source).position before.byteLength).column + line.byteLength⟩ := by
  have start := position_eq before (line ++ after)
  have stop := position_eq (before ++ line) after
  rw [List.append_assoc, ← source_, Text.byteLength_append] at stop
  rw [← source_] at start
  rw [start, stop, Text.feeds_append, Text.feeds_of_notMem unbroken,
    Text.sinceFeed_append_of_notMem before unbroken, Text.byteLength_append, Nat.add_zero]

/-- After a line feed the next line starts. -/
theorem position_feed (source_ : source = before ++ '\n' :: after) :
    (ofText source).position (before.byteLength + 1) =
      ⟨((ofText source).position before.byteLength).line + 1, 0⟩ := by
  have start := position_eq before ('\n' :: after)
  have stop := position_eq (before ++ ['\n']) after
  have width : Text.byteLength ['\n'] = 1 := by decide
  rw [List.append_assoc, List.singleton_append, ← source_, Text.byteLength_append, width] at stop
  rw [← source_] at start
  rw [start, stop, Text.feeds_append, Text.sinceFeed_feed]
  rfl

end LineIndex

/-- Two spans, of which the first is not empty, overlap just if they have a byte in common or the
second is an empty one strictly inside the first. -/
theorem Span.overlaps_iff {a b : Span} (long : a.start < a.stop) (ordered : b.start ≤ b.stop) :
    a.overlaps b = true ↔
      (∃ place, (a.start ≤ place ∧ place < a.stop) ∧ b.start ≤ place ∧ place < b.stop) ∨
        b.start = b.stop ∧ a.start < b.start ∧ b.start < a.stop := by
  simp only [overlaps, Bool.and_eq_true, decide_eq_true_eq]
  constructor
  · intro overlap
    by_cases empty : b.start = b.stop
    · exact Or.inr (by omega)
    · exact Or.inl ⟨max a.start b.start, by omega⟩
  · rintro (⟨place, within, among⟩ | inside)
    · omega
    · omega

namespace ContentLine

/-- Whether one of the regions has a byte of the line or, if the line has none, has its place
strictly inside. -/
def IsCovered (templates : List TemplateSpan) (line : ContentLine) : Prop :=
  ∃ region ∈ templates, region.isTemplate = true ∧
    ((∃ place, (region.span.start ≤ place ∧ place < region.span.stop) ∧
        line.span.start ≤ place ∧ place < line.span.stop) ∨
      line.text = [] ∧ region.span.start < line.span.start ∧
        line.span.start < region.span.stop)

/-- Whether the line is where its text stands, with the positions that the source has there. -/
structure IsPlaced (source : Text) (line : ContentLine) : Prop where
  text : source.select? line.span = some line.text
  extent : line.extent = (LineIndex.ofText source).extent line.span

/-- Regions that are not empty overlap a line just where they cover it. -/
theorem anyOverlap_iff_isCovered {source : Text} {templates : List TemplateSpan}
    {line : ContentLine} (long : ∀ part ∈ templates, part.span.start < part.span.stop)
    (placed : line.IsPlaced source) :
    TemplateSpan.anyOverlap templates line.span = true ↔ line.IsCovered templates := by
  obtain ⟨-, stop⟩ := Text.select?_spec placed.text
  have ordered : line.span.start ≤ line.span.stop := stop ▸ Nat.le_add_right _ _
  -- An empty line stands at one place, which overlaps a region in another way than a line does.
  have empty : line.span.start = line.span.stop ↔ line.text = [] := by
    constructor
    · intro same
      by_contra full
      have := Text.byteLength_pos full
      omega
    · intro none
      rw [stop, none]
      rfl
  unfold TemplateSpan.anyOverlap TemplateSpan.templatesOnly IsCovered
  rw [List.any_eq_true]
  constructor
  · rintro ⟨region, member, overlap⟩
    obtain ⟨member, isTemplate⟩ := List.mem_filter.1 member
    rw [Span.overlaps_iff (long region member) ordered, empty] at overlap
    exact ⟨region, member, isTemplate, overlap⟩
  · rintro ⟨region, member, isTemplate, covers⟩
    refine ⟨region, List.mem_filter.2 ⟨member, isTemplate⟩, ?_⟩
    rwa [Span.overlaps_iff (long region member) ordered, empty]

end ContentLine

namespace Content

section Run

variable (templates : List TemplateSpan) (offset : Nat) (position : Position)

theorem map_text_linesFrom (texts : List Text) :
    (linesFrom templates offset position texts).map ContentLine.text = texts := by
  induction texts generalizing offset position with
  | nil => rfl
  | cons text others ih => simp [linesFrom, ih]

theorem start_of_mem_head?_linesFrom (texts : List Text) :
    ∀ line ∈ (linesFrom templates offset position texts).head?, line.span.start = offset := by
  cases texts <;> simp [linesFrom]

theorem isChain_linesFrom (texts : List Text) :
    (linesFrom templates offset position texts).IsChain fun a b =>
      b.span.start = a.span.stop + 1 := by
  induction texts generalizing offset position with
  | nil => exact List.isChain_nil
  | cons text others ih =>
    rw [linesFrom, List.isChain_cons]
    exact ⟨start_of_mem_head?_linesFrom _ _ _ others, ih _ _⟩

theorem inTemplate_of_mem_linesFrom (texts : List Text) :
    ∀ line ∈ linesFrom templates offset position texts,
      line.inTemplate = TemplateSpan.anyOverlap templates line.span := by
  induction texts generalizing offset position with
  | nil => simp [linesFrom]
  | cons text others ih =>
    rw [linesFrom, List.forall_mem_cons]
    exact ⟨rfl, ih _ _⟩

/-- The last line of a text stops where the text does. -/
theorem stop_linesFrom (t : Text) :
    (linesFrom templates offset position t.feedLines).getLast?.map (fun line => line.span.stop) =
      some (offset + t.byteLength) := by
  induction t using Text.feedInduction generalizing offset position with
  | last line unbroken =>
    rw [Text.feedLines_of_notMem unbroken]
    rfl
  | feed line rest unbroken ih =>
    obtain ⟨final, found, stop⟩ := Option.map_eq_some_iff.1
      (ih (offset + line.byteLength + 1) ⟨position.line + 1, 0⟩)
    have width : '\n'.utf8Size = 1 := by decide
    rw [Text.feedLines_line unbroken, linesFrom, List.getLast?_cons, found, Option.getD_some,
      Option.map_some, stop, Text.byteLength_append, Text.byteLength_cons, width]
    congr 1
    omega

end Run

variable {source before t after : Text}

/-- One line is placed if its start is. -/
theorem isPlaced_line (inTemplate : Bool) (source_ : source = before ++ (t ++ after))
    (unbroken : '\n' ∉ t) {position : Position}
    (start : position = (LineIndex.ofText source).position before.byteLength) :
    (ContentLine.mk t ⟨before.byteLength, before.byteLength + t.byteLength⟩
      ⟨position, ⟨position.line, position.column + t.byteLength⟩⟩ inTemplate).IsPlaced source := by
  constructor
  · rw [source_, ← List.append_assoc]
    exact Text.select?_append before t after
  · rw [LineIndex.extent, LineIndex.position_line source_ unbroken, start]

/-- All lines of a text are placed if the start of the first is. -/
theorem isPlaced_linesFrom (templates : List TemplateSpan)
    (source_ : source = before ++ (t ++ after)) {position : Position}
    (start : position = (LineIndex.ofText source).position before.byteLength) :
    ∀ line ∈ linesFrom templates before.byteLength position t.feedLines,
      line.IsPlaced source := by
  induction t using Text.feedInduction generalizing before position with
  | last line unbroken =>
    rw [Text.feedLines_of_notMem unbroken, linesFrom, linesFrom, List.forall_mem_singleton]
    exact isPlaced_line _ source_ unbroken start
  | feed line rest unbroken ih =>
    have here : source = before ++ (line ++ '\n' :: (rest ++ after)) := by simp [source_]
    have ended : source = before ++ line ++ '\n' :: (rest ++ after) := by simp [source_]
    have further : source = before ++ line ++ ['\n'] ++ (rest ++ after) := by simp [source_]
    have width : (before ++ line ++ ['\n']).byteLength =
        before.byteLength + line.byteLength + 1 := by
      rw [Text.byteLength_append, Text.byteLength_append]
      rfl
    -- The next line starts after the line feed, at the column 0.
    have next : (⟨position.line + 1, 0⟩ : Position) =
        (LineIndex.ofText source).position (before ++ line ++ ['\n']).byteLength := by
      have feed := LineIndex.position_feed ended
      rw [Text.byteLength_append, LineIndex.position_line here unbroken, ← start] at feed
      rw [width, feed]
    have others := ih further next
    rw [width] at others
    rw [Text.feedLines_line unbroken, linesFrom, List.forall_mem_cons]
    exact ⟨isPlaced_line _ here unbroken start, others⟩

/-- Whether the content is cut into its lines: they give its text back, follow one another from its
start to its end, stand where the source has them, and are marked just where a template region
covers them. -/
structure IsSplit (source : Text) (content : Content) : Prop where
  count : content.lines.length = content.text.feeds + 1
  joined : ['\n'].intercalate (content.lines.map ContentLine.text) = content.text
  first : content.lines.head?.map (fun line => line.span.start) = some content.span.start
  last : content.lines.getLast?.map (fun line => line.span.stop) = some content.span.stop
  next : content.lines.IsChain fun a b => b.span.start = a.span.stop + 1
  placed : ∀ line ∈ content.lines, line.IsPlaced source
  covered : ∀ line ∈ content.lines,
    line.inTemplate = true ↔ line.IsCovered content.templates

/-- A content that is exact, and whose extent the source has, is cut into its lines. -/
theorem isSplit_of_isExact {content : Content} (exact_ : content.IsExact source)
    (extent : content.extent = (LineIndex.ofText source).extent content.span) :
    content.IsSplit source := by
  have texts := map_text_linesFrom content.templates content.span.start content.extent.start
    content.text.feedLines
  obtain ⟨⟨before, after, split, start⟩, stop⟩ := Text.select?_spec exact_.text
  rw [List.append_assoc] at split
  have placed : ∀ line ∈ content.lines, line.IsPlaced source := by
    rw [lines, ← start]
    apply isPlaced_linesFrom content.templates split
    rw [extent, start]
    rfl
  -- The regions are a part of a tiling, so none of them is empty.
  have long : ∀ part ∈ content.templates, part.span.start < part.span.stop := by
    intro part member
    rcases exact_.templates with none | covers
    · rw [none] at member
      contradiction
    · exact covers.ordered _ (List.mem_map_of_mem member)
  refine {
    count := ?count
    joined := ?joined
    first := ?first
    last := ?last
    next := isChain_linesFrom _ _ _ _
    placed := placed
    covered := ?covered }
  case count =>
    rw [← Text.length_feedLines, ← texts, List.length_map]
    rfl
  case joined =>
    rw [lines, texts, Text.feedLines_eq_splitOn]
    exact List.intercalate_splitOn '\n'
  case first =>
    obtain ⟨line, others, shown⟩ := Text.exists_splitOn (· == '\n') content.text
    rw [lines, Text.feedLines, shown]
    rfl
  case last =>
    rw [lines, stop_linesFrom, stop]
  case covered =>
    intro line member
    rw [inTemplate_of_mem_linesFrom _ _ _ _ line member]
    exact ContentLine.anyOverlap_iff_isCovered long (placed line member)

end Content

/-- What a piece holds in a document has the extent of its span. -/
theorem Written.Piece.extent_of_kindAt? {index : LineIndex} {place : Nat} {piece : Piece}
    {kind : Kind} (found : piece.kindAt? index place = some kind) :
    ∀ content ∈ kind.contents, content.extent = index.extent content.span := by
  cases piece with
  | closing => contradiction
  | raw tag body =>
    obtain rfl := Option.some.inj found
    cases body <;> split <;> simp [Kind.contents, LineIndex.contentAt]
  | opening tag =>
    obtain rfl := Option.some.inj found
    simp [Kind.contents]
  | _ =>
    obtain rfl := Option.some.inj found
    simp [Kind.contents, LineIndex.contentAt]

namespace Document

theorem extent_of_mem_nodes {pairs : List Delimiters} {source : Text} {node : Node}
    (member : node ∈ (parse pairs source).nodes) :
    ∀ content ∈ node.kind.contents,
      content.extent = (LineIndex.ofText source).extent content.span := by
  obtain ⟨tree, within, rfl⟩ := List.mem_map.1 member
  rcases List.mem_cons.1 within with rfl | below
  · simp [parse, Kind.contents]
  obtain ⟨_, comes, _⟩ := comesFrom_parse pairs source below
  cases comes with
  | single place piece next read stands kind span inside => exact Piece.extent_of_kindAt? kind
  | element place tag inside close opening closing nested kind start stop content =>
    simp [kind, Kind.contents]

/-- Whether every content of the document, such as a text or a comment, is cut into its lines. -/
def HasLines (source : Text) (doc : Document) : Prop :=
  ∀ node ∈ doc.nodes, ∀ content ∈ node.kind.contents, content.IsSplit source

/-- With any delimiters, the contents of every source are cut into their lines. -/
theorem hasLines_parse (pairs : List Delimiters) (source : Text) :
    (parse pairs source).HasLines source := by
  intro node member content among
  have exact_ := isExact_of_mem_nodes member
  exact Content.isSplit_of_isExact (exact_.contents content among)
    (extent_of_mem_nodes member content among)

end Document
end TagLint
