import TagLint.Proofs.DueBreaks
import TagLint.Proofs.ExactSpans

/-!
Where findings are shown.

A report takes its span and its positions from two parts of the document, or twice from one. The
positions are those of the span because the two parts follow each other; so line, column and source
line of a finding all tell of the place at which its span starts.
-/
namespace TagLint

open ElementNewline (gapReport solid)

/-- Whether the report is shown where its span is, and its span is one of the source. -/
structure Report.IsLocated (source : Text) (report : Report) : Prop where
  extent : report.extent = (LineIndex.ofText source).extent report.span
  text : (source.select? report.span).isSome = true

/-- What stands between two parts that follow each other is located if they are. -/
theorem ElementNewline.isLocated_gapReport {source : Text} {before after : Span}
    {beforeExtent afterExtent : Extent} (messageId : String) (tag : Text) (edit : Edit)
    (first : beforeExtent = (LineIndex.ofText source).extent before)
    (second : afterExtent = (LineIndex.ofText source).extent after)
    (starts : source.IsBoundary before.stop) (stops : source.IsBoundary after.start)
    (ordered : before.stop ≤ after.start) :
    (gapReport before after beforeExtent afterExtent messageId tag edit).IsLocated source := by
  -- The span takes the larger of two ends, and the positions do not: only for ordered parts do
  -- they agree.
  have gap : before.between after = ⟨before.stop, after.start⟩ := by
    rw [Span.between, Nat.max_eq_left ordered]
  constructor
  · rw [gapReport, gap, first, second]
    rfl
  · rw [gapReport, gap]
    exact starts.isSome_select? stops ordered

namespace Document

variable {pairs : List Delimiters} {source : Text}

/-- Nodes stand between characters. -/
theorem isBoundary_of_mem_subtrees {tree : Tree} (member : tree ∈ (parse pairs source).subtrees) :
    source.IsBoundary tree.node.span.start ∧ source.IsBoundary tree.node.span.stop := by
  obtain ⟨start, stop, _⟩ :=
    Text.isBoundary_of_select? (isExact_of_mem_nodes (List.mem_map_of_mem member)).text
  exact ⟨start, stop⟩

/-- Tokens stand between characters. -/
theorem isBoundary_of_mem_tokens {tree : Tree} (member : tree ∈ (parse pairs source).subtrees)
    {tag : Tag} (kind : tree.node.kind = .element tag) {token : Token} (own : token ∈ tag.tokens) :
    source.IsBoundary token.span.start ∧ source.IsBoundary token.span.stop := by
  have tags := (isExact_of_mem_nodes (List.mem_map_of_mem member)).tags tag
    (by rw [kind]; exact List.mem_singleton_self tag)
  have selected : (source.select? token.span).isSome = true := by
    rw [tags.tokens token own]
    rfl
  obtain ⟨start, stop, _⟩ := Text.isBoundary_of_select? selected
  exact ⟨start, stop⟩

/-- Neighbours in a group of a document are trees of it that follow each other. -/
theorem neighbours_follow {rule : ElementNewline} {group : Forest}
    (inside : rule.IsGroup (parse pairs source).root.inside group) {a b : Tree}
    (neighbours : [a, b] <:+: solid group) :
    a ∈ (parse pairs source).root.inside.subtrees ∧
      b ∈ (parse pairs source).root.inside.subtrees ∧ a.node.span.stop ≤ b.node.span.start := by
  obtain ⟨hi, laid⟩ := laid_parse pairs source
  have apart : group.trees.Pairwise fun a b => a.node.span.stop ≤ b.node.span.start := by
    cases inside with
    | document => exact laid.chain
    | element visible => exact (laid.of_mem_subtrees visible.member).1.chain
  have among {tree : Tree} (member : tree ∈ [a, b]) :
      tree ∈ (parse pairs source).root.inside.subtrees := by
    have member := ElementNewline.mem_subtrees_of_mem_solid (neighbours.subset member)
    cases inside with
    | document => exact member
    | element visible => exact (Forest.subtrees_sublist visible.member).mem member
  have two := apart.sublist (neighbours.sublist.trans List.filter_sublist)
  exact ⟨among (by simp), among (by simp), by simpa using two⟩

/-- Every report of a rule is shown where its span is. -/
theorem isLocated_of_mem_reports (rule : Rule) {report : Report}
    (member : report ∈ rule.reports (parse pairs source)) : report.IsLocated source := by
  have listed {tree : Tree} (within : tree ∈ (parse pairs source).root.inside.subtrees) :
      tree ∈ (parse pairs source).subtrees := List.mem_cons_of_mem _ within
  have bounds {tree : Tree} (within : tree ∈ (parse pairs source).root.inside.subtrees) :=
    isBoundary_of_mem_subtrees (listed within)
  cases rule with
  | closingTags rule =>
    obtain ⟨tree, within, tag, isForeign, kind, found, _⟩ := exists_element_of_mem_reports member
    have located := isLocated_parse within
    have node := isExact_of_mem_nodes (List.mem_map_of_mem (f := Tree.node) (listed within))
    rcases ClosingTags.place_of_check found with ⟨span, extent⟩ | ⟨span, extent⟩
    · have own : tag.IsExact source :=
        node.tags tag (by rw [kind]; exact List.mem_singleton_self tag)
      have shown := own.tokens tag.openEnd (by simp [Tag.tokens])
      exact ⟨by rw [extent, span, located.openEnd tag (by rw [kind]; rfl)],
        by rw [span, shown]; rfl⟩
    · exact ⟨by rw [extent, span, located.node], by rw [span]; exact node.text⟩
  | elementNewline rule =>
    cases ElementNewline.isDue_of_mem_reports member with
    | after inside neighbours | before inside neighbours =>
      obtain ⟨first, second, ordered⟩ := neighbours_follow inside neighbours
      exact ElementNewline.isLocated_gapReport _ _ _ (isLocated_parse first).node
        (isLocated_parse second).node (bounds first).2 (bounds second).1 ordered
    | @afterOpen tree first tag visible _ _ head =>
      -- The parts are the end of the opening tag and a child, which comes after it.
      have among := List.mem_of_mem_head? head
      have within := (Forest.subtrees_sublist visible.member).mem
        (ElementNewline.mem_subtrees_of_mem_solid among)
      have located := isLocated_parse visible.member
      have own : tag ∈ tree.node.kind.tag? := by rw [visible.kind]; rfl
      exact ElementNewline.isLocated_gapReport _ _ _ (located.openEnd tag own)
        (isLocated_parse within).node
        (isBoundary_of_mem_tokens (listed visible.member) visible.kind (by simp [Tag.tokens])).2
        (bounds within).1 (located.children tag own first (List.mem_filter.1 among).1).1
    | @beforeClose tree last tag close visible _ _ final closes =>
      have among := List.mem_of_getLast? final
      have within := (Forest.subtrees_sublist visible.member).mem
        (ElementNewline.mem_subtrees_of_mem_solid among)
      have located := isLocated_parse visible.member
      have own : tag ∈ tree.node.kind.tag? := by rw [visible.kind]; rfl
      exact ElementNewline.isLocated_gapReport _ _ _ (isLocated_parse within).node
        (located.close tag own close closes) (bounds within).2
        (isBoundary_of_mem_tokens (listed visible.member) visible.kind
          (by simp [Tag.tokens, closes])).1
        ((located.children tag own last (List.mem_filter.1 among).1).2 close closes)

end Document

/-- What is shown of a finding in a source: where it is, and the line that it is on. -/
structure Diagnostic.IsCoherent (path : String) (source : Text) (d : Diagnostic) : Prop where
  ordered : d.span.start ≤ d.span.stop
  bounded : d.span.stop ≤ source.byteLength
  file : d.location.file = path
  /-- Both ends of the span are between characters, at the lines and columns that are shown. -/
  start : source.IsShownAt d.span.start d.location.line d.location.column
  stop : source.IsShownAt d.span.stop d.location.endLine d.location.endColumn
  /-- The source line is the one that the span starts on, without a carriage return at its end. -/
  sourceLine : ∃ line, source.HasLineAt d.span.start line ∧
    d.sourceLine = some (line.dropFinal '\r')

/-- A place between characters is shown at the position that the index finds. -/
theorem LineIndex.isShownAt_position {source : Text} {place : Nat}
    (within : source.IsBoundary place) :
    source.IsShownAt place ((ofText source).position place).line
      (((ofText source).position place).column + 1) := by
  obtain ⟨before, after, rfl, rfl⟩ := within
  refine ⟨before, after, rfl, rfl, ?_⟩
  rw [position_eq]
  exact ⟨rfl, rfl⟩

theorem Report.IsLocated.isCoherent {source : Text} {report : Report}
    (located : report.IsLocated source) (info : RuleInfo) (severity : Severity) (path : String)
    {doc : Document} (same : doc.source = source) :
    (report.toDiagnostic info severity path doc).IsCoherent path source := by
  obtain ⟨starts, stops, ordered⟩ := Text.isBoundary_of_select? located.text
  have first := LineIndex.isShownAt_position starts
  have last := LineIndex.isShownAt_position stops
  refine {
    ordered := ordered
    bounded := ?bounded
    file := rfl
    start := ?start
    stop := ?stop
    sourceLine := ?sourceLine }
  case bounded =>
    obtain ⟨before, after, rfl, here⟩ := stops
    rw [Text.byteLength_append, here]
    exact Nat.le_add_right _ _
  case start =>
    simpa [toDiagnostic, Location.ofExtent, located.extent, LineIndex.extent] using first
  case stop =>
    simpa [toDiagnostic, Location.ofExtent, located.extent, LineIndex.extent] using last
  case sourceLine =>
    -- The line is looked up by the number that is shown, which counts the line feeds before.
    obtain ⟨before, after, split, here⟩ := starts
    obtain ⟨line, stands, shown⟩ := before.exists_hasLineAt after
    rw [← split, here] at stands
    refine ⟨line, stands, ?_⟩
    have number : report.extent.start.line = before.feeds + 1 := by
      rw [located.extent, LineIndex.extent, ← here, split, LineIndex.line_position]
    rw [toDiagnostic, number, Document.sourceLine?, same, split]
    exact shown

namespace Engine

/-- Whether the findings in a source are shown where they are. -/
def FindsCoherently (engine : Engine) (path : String) (source : Text) : Prop :=
  ∀ d ∈ engine.lint path source, d.IsCoherent path source

/-- What is shown of a finding tells where it is, whatever the rules and the source are. -/
theorem findsCoherently (engine : Engine) (path : String) (source : Text) :
    engine.FindsCoherently path source := by
  intro d member
  obtain ⟨active, _, report, reported, rfl⟩ := exists_report member
  exact (Document.isLocated_of_mem_reports active.rule reported).isCoherent _ _ path rfl

end Engine
end TagLint
