import TagLint.Proofs.Convergence
import TagLint.Proofs.OrderedEdits
import TagLint.Proofs.TagSpans

/-!
Fixes leave alone what they are not about.

A fix either puts one line feed between pieces, or rewrites what comes after the attributes of one
opening tag and takes away its closing tag. So its edits fit the source, they do not overlap, and
they are apart from every text, every attribute and the tags of all other elements.
-/
namespace TagLint

open Written (Piece OpenTag)
open ClosingTags (headStop endEdits)

/-- Whether the edit lies in the opening tag after its name and its attributes, or in the closing
tag. -/
def Edit.IsIn (tag : Tag) (e : Edit) : Prop :=
  (headStop tag ≤ e.start ∧ e.stop ≤ tag.openEnd.span.stop) ∨
    ∃ close ∈ tag.close, close.span.start ≤ e.start ∧ e.stop ≤ close.span.stop

/-- Whether a fix of a document changes nothing that it is not about. -/
structure Fix.IsHarmless (source : Text) (doc : Document) (fix : Fix) : Prop where
  /-- Its edits lie between characters of the source, one after the other. -/
  fits : fix.Fits source
  /-- What it puts in is a line feed or the end of a tag, if anything. -/
  inserts : ∀ e ∈ fix.edits, e.text ∈ [['\n'], [' ', '/', '>'], ['>'], []]
  /-- It takes nothing away, and puts nothing into what a node holds; or all of its edits lie in the
  tags of one element, apart from what is no syntax and from the tags of all others. -/
  spares :
    (∀ e ∈ fix.edits, e.start = e.stop ∧
        ∀ node ∈ doc.nodes, ∀ span ∈ node.content ++ node.tokens, e.span.Apart span) ∨
      ∃ tree ∈ doc.subtrees, ∃ tag, tree.node.kind = .element tag ∧ ∀ e ∈ fix.edits,
        e.IsIn tag ∧ (∀ node ∈ doc.nodes, ∀ span ∈ node.content, e.span.Apart span) ∧
          ∀ node ∈ doc.nodes, node.id ≠ tree.node.id → ∀ span ∈ node.tokens, e.span.Apart span

namespace Document

variable {pairs : List Delimiters} {source : Text}

/-- A line feed before a piece is put into nothing that a node holds. -/
private theorem harmless_feedFix {place : Nat}
    (start : place ∈ Piece.starts 0 (Piece.scanAll pairs source)) :
    (feedFix place).IsHarmless source (parse pairs source) := by
  have boundary : source.IsBoundary place := by
    obtain ⟨first, second, split, here⟩ := exists_cut_of_mem_starts [] start
    rw [List.nil_append, Piece.renderAll_scanAll] at split
    exact ⟨first, second, split, here⟩
  have fit : (feedEdit place).Fits source := ⟨Nat.le_refl place, boundary, boundary⟩
  refine ⟨⟨by simp [feedFix], by simpa [feedFix] using fit, by simp [feedFix]⟩,
    by simp [feedFix, feedEdit], Or.inl ?_⟩
  simp only [feedFix, List.mem_singleton, forall_eq]
  refine ⟨rfl, fun node member span held => ?_⟩
  -- The place is where some tile starts, and that tile is the one of the span or apart from it.
  obtain ⟨outline, covers, nested, parsed⟩ := exists_outline pairs source
  have full : outline.IsFull := Outline.full_of_reads (covers ▸ Piece.reads_scanAll pairs source)
  have tiles : (parse pairs source).tiles.map Tile.span =
      Piece.spansFrom 0 (Piece.scanAll pairs source) := by
    rw [parsed, tiles_ofOutline source outline full, outline.tiles_spans, covers]
  obtain ⟨own, among, rfl⟩ := List.mem_map.1 start
  rw [← tiles] at among
  obtain ⟨tile, listed, lower, upper⟩ := exists_tile member held
  have listed : tile ∈ (parse pairs source).tiles :=
    (List.mergeSort_perm _ _).mem_iff.2
      (List.mem_append_left _ (List.mem_flatMap.2 ⟨node, member, listed⟩))
  have covers := covers_tiles_parse pairs source
  have symmetric : Std.Symm Span.Apart := ⟨fun _ _ => Span.Apart.symm⟩
  by_cases same : own = tile.span
  · subst same
    exact Or.inl lower
  · rcases covers.pairwise_apart.forall among (List.mem_map_of_mem listed) same with before | after
    · have long := covers.ordered own among
      exact Or.inl (by simp only [Edit.span, feedEdit]; omega)
    · exact Or.inr (Nat.le_trans upper after)

section Element

variable {tree : Tree} {tag : Tag}

/-- Where the tags of an element lie in the source. -/
private theorem boundaries_of_kind (member : tree ∈ (parse pairs source).root.inside.subtrees)
    (kind : tree.node.kind = .element tag) :
    (headStop tag ≤ tag.openEnd.span.stop ∧ source.IsBoundary (headStop tag) ∧
        source.IsBoundary tag.openEnd.span.stop) ∧
      ∀ token ∈ tag.close, tag.openEnd.span.stop ≤ token.span.start ∧
        token.span.start ≤ token.span.stop ∧ source.IsBoundary token.span.start ∧
        source.IsBoundary token.span.stop := by
  obtain ⟨_, comes, _⟩ := comesFrom_parse pairs source member
  obtain ⟨written, opening, same, closes⟩ := comes.tag_eq kind
  obtain ⟨before, after, split, here⟩ := Piece.split_of_mem_locate opening
  refine ⟨⟨?_, ?_, ?_⟩, fun token closed => ?_⟩
  · rw [same]
    exact Nat.le_trans headStop_le_tagAt.1 headStop_le_tagAt.2
  · refine ⟨before ++ written.head, written.gap ++ written.ending.render ++ after, ?_, ?_⟩
    · rw [split, Piece.render, OpenTag.render_eq]
      simp
    · rw [same, headStop_tagAt, Text.byteLength_append, here]
  · refine ⟨before ++ written.render, after, split, ?_⟩
    rw [same, LineIndex.tagAt_stop, Text.byteLength_append, here]
  · obtain ⟨place, own, located, rfl, later⟩ := closes token closed
    obtain ⟨before, after, split, rfl⟩ := Piece.split_of_mem_locate located
    refine ⟨later, Nat.le_add_right _ _, ⟨before, own.piece.render ++ after, ?_, rfl⟩,
      ⟨before ++ own.piece.render, after, split, Text.byteLength_append _ _⟩⟩
    rw [split, List.append_assoc]

/-- An edit in the tags of an element is apart from what is no syntax, and from the tags of all
other elements. -/
private theorem apart_of_isIn (member : tree ∈ (parse pairs source).root.inside.subtrees)
    (kind : tree.node.kind = .element tag) {e : Edit} (isIn : e.IsIn tag) :
    (∀ node ∈ (parse pairs source).nodes, ∀ span ∈ node.content, e.span.Apart span) ∧
      ∀ node ∈ (parse pairs source).nodes, node.id ≠ tree.node.id →
        ∀ span ∈ node.tokens, e.span.Apart span := by
  obtain ⟨_, comes, _⟩ := comesFrom_parse pairs source member
  obtain ⟨written, _, same, _⟩ := comes.tag_eq kind
  have listed : tree.node ∈ (parse pairs source).nodes :=
    List.mem_map_of_mem (List.mem_cons_of_mem _ member)
  -- The edit lies in one of the tiles of the element.
  obtain ⟨tile, own, lower, upper⟩ : ∃ tile ∈ tree.node.tiles,
      tile.span.start ≤ e.span.start ∧ e.span.stop ≤ tile.span.stop := by
    simp only [Node.tiles, kind, List.mem_cons, List.mem_map, Option.mem_toList]
    rcases isIn with ⟨start, stop⟩ | ⟨token, closed, start, stop⟩
    · have named := within_tagAt same (Or.inr (Or.inl rfl))
      have first : tag.openStart.span.stop ≤ headStop tag := by
        rw [same]
        exact openStart_tagAt
      have long : tag.openStart.span.start ≤ tag.openStart.span.stop := by
        rw [same]
        exact Nat.le_add_right _ _
      exact ⟨_, Or.inl rfl, by simp only [Edit.span]; omega, stop⟩
    · exact ⟨_, Or.inr ⟨token, closed, rfl⟩, start, stop⟩
  have others {node : Node} (among : node ∈ (parse pairs source).nodes)
      (other : node.id ≠ tree.node.id) {span : Span} (held : span ∈ node.content ++ node.tokens) :
      e.span.Apart span := by
    obtain ⟨tile', own', lower', upper'⟩ := exists_tile among held
    have apart := apart_of_mem_nodes listed among (Ne.symm other) tile own tile' own'
    exact ((apart.within lower' upper').symm.within lower upper).symm
  refine ⟨fun node among span held => ?_, fun node among other span held =>
    others among other (List.mem_append_right _ held)⟩
  by_cases other : node.id = tree.node.id
  · -- Of the element itself, the attributes come before the edit.
    rw [eq_of_id_eq among listed other, Node.content, kind] at held
    simp only [Kind.tags, List.flatMap_cons, List.flatMap_nil, List.append_nil, List.nil_append,
      List.mem_map] at held
    obtain ⟨part, attributes, rfl⟩ := held
    rw [same] at attributes
    have before := (attributes_tagAt attributes).2
    rw [← same] at before
    obtain ⟨⟨tail, _⟩, closes⟩ := boundaries_of_kind member kind
    refine Or.inr (Nat.le_trans before ?_)
    rcases isIn with ⟨start, _⟩ | ⟨token, closed, start, _⟩
    · exact start
    · exact Nat.le_trans tail (Nat.le_trans (closes token closed).1 start)
  · exact others among other (List.mem_append_left _ held)

/-- Edits that let an element end in another way lie in its own tags. -/
private theorem harmless_endEdits {ending : Text} {close : Option Token}
    (member : tree ∈ (parse pairs source).root.inside.subtrees)
    (kind : tree.node.kind = .element tag)
    (text : ending ∈ [[' ', '/', '>'], ['>']]) (own : ∀ token ∈ close, token ∈ tag.close) :
    Fix.IsHarmless source (parse pairs source) ⟨endEdits tag ending close⟩ := by
  obtain ⟨⟨ordered, start, stop⟩, closes⟩ := boundaries_of_kind member kind
  -- One edit writes the end of the head anew, the other takes the closing tag away.
  have cases {e : Edit} (among : e ∈ endEdits tag ending close) :
      e = ⟨headStop tag, tag.openEnd.span.stop, ending⟩ ∨
        ∃ token ∈ tag.close, e = ⟨token.span.start, token.span.stop, []⟩ := by
    rcases List.mem_cons.1 among with rfl | closing
    · exact Or.inl rfl
    · obtain ⟨token, closed, rfl⟩ := List.mem_map.1 closing
      exact Or.inr ⟨token, own token (Option.mem_toList.1 closed), rfl⟩
  refine ⟨⟨by simp [endEdits], ?_, ?_⟩, ?_,
    Or.inr ⟨tree, List.mem_cons_of_mem _ member, tag, kind, ?_⟩⟩
  · intro e among
    rcases cases among with rfl | ⟨token, closed, rfl⟩
    · exact ⟨ordered, start, stop⟩
    · obtain ⟨_, ordered', start', stop'⟩ := closes token closed
      exact ⟨ordered', start', stop'⟩
  · cases close with
    | none => exact List.pairwise_singleton _ _
    | some token =>
      exact List.pairwise_pair.2 (closes token (own token rfl)).1
  · intro e among
    rcases cases among with rfl | ⟨token, closed, rfl⟩
    · simp only [List.mem_cons, List.not_mem_nil, or_false] at text ⊢
      rcases text with text | text
      · exact Or.inr (Or.inl text)
      · exact Or.inr (Or.inr (Or.inl text))
    · simp
  · intro e among
    have isIn : e.IsIn tag := by
      rcases cases among with rfl | ⟨token, closed, rfl⟩
      · exact Or.inl ⟨Nat.le_refl _, Nat.le_refl _⟩
      · exact Or.inr ⟨token, closed, Nat.le_refl _, Nat.le_refl _⟩
    exact ⟨isIn, apart_of_isIn member kind isIn⟩

end Element

/-- What `element-newline` reports about a source is mended by line feeds at the places of its
outline that need one. -/
theorem edits_reports_parse (rule : ElementNewline) {outline : Outline}
    (covers : outline.pieces = Piece.scanAll pairs source) (nested : outline.Nested []) :
    (rule.reports (parse pairs source)).map Report.edits =
      (outline.breakPlaces rule).map fun place => [feedEdit place] := by
  have full : outline.IsFull := Outline.full_of_reads (covers ▸ Piece.reads_scanAll pairs source)
  have shown : Piece.renderAll outline.pieces = source := by
    rw [covers, Piece.renderAll_scanAll]
  rw [parse_eq_ofOutline pairs source covers nested]
  exact edits_reports rule source shown nested full

/-- What `element-newline` reports is mended by a line feed at a cut of the source's outline. -/
theorem exists_cut_of_mem_reports {rule : ElementNewline} {report : Report} {outline : Outline}
    (covers : outline.pieces = Piece.scanAll pairs source) (nested : outline.Nested [])
    (member : report ∈ rule.reports (parse pairs source)) :
    ∃ place, outline.Cut place 0 ∧ report.edits = [feedEdit place] := by
  have among : report.edits ∈ (outline.breakPlaces rule).map fun place => [feedEdit place] := by
    rw [← edits_reports_parse rule covers nested]
    exact List.mem_map_of_mem member
  obtain ⟨place, listed, same⟩ := List.mem_map.1 among
  exact ⟨place, Outline.cut_of_mem rule listed, same.symm⟩

/-- A report about a line break puts in a line feed at the start of a piece. -/
theorem exists_place_of_mem_reports {rule : ElementNewline} {report : Report}
    (member : report ∈ rule.reports (parse pairs source)) :
    ∃ place ∈ Piece.starts 0 (Piece.scanAll pairs source), report.edits = [feedEdit place] := by
  obtain ⟨outline, covers, nested, _⟩ := exists_outline pairs source
  obtain ⟨place, cut, edits⟩ := exists_cut_of_mem_reports covers nested member
  exact ⟨place, covers ▸ cut.mem_starts, edits⟩

/-- A report about a closing tag is about an element of the document. -/
theorem exists_element_of_mem_reports {rule : ClosingTags} {report : Report}
    (member : report ∈ rule.reports (parse pairs source)) :
    ∃ tree ∈ (parse pairs source).root.inside.subtrees, ∃ tag isForeign,
      tree.node.kind = .element tag ∧ rule.check isForeign tree tag = some report ∧
        ClosingTags.closesItself tag = tag.isSelfClosing := by
  obtain ⟨outline, covers, nested, parsed⟩ := exists_outline pairs source
  have full : outline.IsFull := Outline.full_of_reads (covers ▸ Piece.reads_scanAll pairs source)
  have within : report ∈ rule.reports (ofOutline source outline) := parsed ▸ member
  rw [ClosingTags.reports_ofOutline source full] at within
  obtain ⟨tree, below, tag, isForeign, kind, found⟩ := ClosingTags.exists_of_mem_reportsIn within
  have below : tree ∈ (parse pairs source).root.inside.subtrees := by
    rw [parsed]
    exact below
  obtain ⟨_, comes, _⟩ := comesFrom_parse pairs source below
  obtain ⟨written, _, same, _⟩ := comes.tag_eq kind
  refine ⟨tree, below, tag, isForeign, kind, found, ?_⟩
  rw [same]
  exact closesItself_tagAt

/-- The edits of a report make a fix as they are, and it is harmless. -/
theorem harmless_of_mem_reports (rule : Rule) {report : Report}
    (member : report ∈ rule.reports (parse pairs source)) (edited : report.edits ≠ []) :
    Fix.IsHarmless source (parse pairs source) ⟨report.edits⟩ := by
  cases rule with
  | elementNewline rule =>
    obtain ⟨place, start, edits⟩ := exists_place_of_mem_reports member
    rw [edits]
    exact harmless_feedFix start
  | closingTags rule =>
    obtain ⟨tree, below, tag, isForeign, kind, found, closes⟩ :=
      exists_element_of_mem_reports member
    cases (ClosingTags.check_mends closes found edited).2 with
    | collapse message open_ blank edits =>
      rw [edits]
      exact harmless_endEdits below kind (by simp) fun token own => own
    | unslash message closes may edits =>
      rw [edits]
      exact harmless_endEdits below kind (by simp) (by simp)

end Document

/-- The edits of a report of a rule make its fix; none is dropped. -/
theorem Report.fix?_of_mem_reports {pairs : List Delimiters} {source : Text} (rule : Rule)
    {report : Report} (member : report ∈ rule.reports (Document.parse pairs source)) :
    report.rawFix? = (if report.edits = [] then none else some ⟨report.edits⟩) ∧
      report.fix? = report.rawFix? := by
  by_cases edited : report.edits = []
  · simp [fix?, rawFix?, Fix.ofEdits?, edited]
  · have fits := (Document.harmless_of_mem_reports rule member edited).fits
    have made : report.rawFix? = some ⟨report.edits⟩ :=
      Fix.ofEdits?_eq edited (fun e among => (fits.edits e among).ordered) fits.sorted
    have apart : Fix.hasOverlap ⟨report.edits⟩ = false := Fix.overlapsIn_eq_false fits.sorted
    rw [if_neg edited, fix?, made]
    simp [apart]

namespace Engine

variable {engine : Engine} {path : String} {source : Text}

theorem mem_lint_iff {d : Diagnostic} : d ∈ engine.lint path source ↔
    d ∈ engine.rawDiagnostics (engine.parse source) path ∧
      Directive.isDisabled (engine.parse source).directives d.ruleId d.location.line = false := by
  rw [lint, lintDocument, (List.mergeSort_perm _ _).mem_iff, Directive.filter, List.mem_filter,
    Bool.not_eq_true']

theorem mem_rawDiagnostics_iff {d : Diagnostic} :
    d ∈ engine.rawDiagnostics (engine.parse source) path ↔
      ∃ active ∈ engine.rules, ∃ report ∈ active.rule.reports (engine.parse source),
        d = report.toDiagnostic active.rule.info active.severity path (engine.parse source) := by
  simp only [rawDiagnostics, ActiveRule.diagnostics, List.mem_flatMap, List.mem_map, eq_comm]

/-- Every finding is made of a report of a rule that is on. -/
theorem exists_report {d : Diagnostic} (member : d ∈ engine.lint path source) :
    ∃ active ∈ engine.rules, ∃ report ∈ active.rule.reports (engine.parse source),
      d = report.toDiagnostic active.rule.info active.severity path (engine.parse source) :=
  mem_rawDiagnostics_iff.1 (mem_lint_iff.1 member).1

/-- The fix of a finding has the edits that its rule reports, and it is harmless. -/
theorem fix_of_reported {active : ActiveRule} {report : Report}
    (reported : report ∈ active.rule.reports (engine.parse source)) {fix : Fix}
    (fixed : (report.toDiagnostic active.rule.info active.severity path
      (engine.parse source)).fix = some fix) :
    fix = ⟨report.edits⟩ ∧ report.edits ≠ [] ∧ fix.IsHarmless source (engine.parse source) := by
  obtain ⟨made, kept⟩ := Report.fix?_of_mem_reports active.rule reported
  have fixed : report.fix? = some fix := fixed
  rw [kept, made] at fixed
  split at fixed
  · contradiction
  next edited =>
    obtain rfl := Option.some.inj fixed
    exact ⟨rfl, edited, Document.harmless_of_mem_reports active.rule reported edited⟩

theorem harmless_of_mem_lint {d : Diagnostic} (member : d ∈ engine.lint path source) {fix : Fix}
    (fixed : d.fix = some fix) : fix.IsHarmless source (engine.parse source) := by
  obtain ⟨active, _, report, reported, rfl⟩ := exists_report member
  exact (fix_of_reported reported fixed).2.2

/-- A fix of one edit is merged into it. -/
theorem merged?_of_reported {active : ActiveRule} {report : Report}
    (reported : report ∈ active.rule.reports (engine.parse source)) {fix : Fix}
    (fixed : (report.toDiagnostic active.rule.info active.severity path
      (engine.parse source)).fix = some fix) {e : Edit} (single : report.edits = [e]) :
    fix.merged? source = some e := by
  obtain ⟨rfl, _, harmless⟩ := fix_of_reported reported fixed
  rw [single] at harmless ⊢
  exact (harmless.fits.edits e List.mem_cons_self).merged?

/-- Findings of a source can be mended without fail, whichever of them are chosen. -/
theorem exists_applied_of_mem_lint {found : List Diagnostic}
    (among : ∀ d ∈ found, d ∈ engine.lint path source) :
    ∃ applied, applyFixes? source (Diagnostic.fixes found) = some applied ∧
      applied.Follows source (Diagnostic.fixes found) := by
  refine exists_applied fun fix member => ?_
  obtain ⟨d, listed, fixed⟩ := List.mem_filterMap.1 member
  exact (harmless_of_mem_lint (among d listed) fixed).fits

/-- All that can be mended is mended without fail. -/
theorem exists_applied_lint (engine : Engine) (path : String) (source : Text) :
    ∃ applied, applyFixes? source (Diagnostic.fixes (engine.lint path source)) = some applied ∧
      applied.Follows source (Diagnostic.fixes (engine.lint path source)) :=
  exists_applied_of_mem_lint fun _ member => member

/-- Whether the fixes of the findings in a source touch nothing that they are not about. -/
structure FixesHarmlessly (engine : Engine) (path : String) (source : Text) : Prop where
  harmless : ∀ d ∈ engine.lint path source, ∀ fix ∈ d.fix,
    fix.IsHarmless source (engine.parse source)
  /-- No report loses its fix because of edits that overlap. -/
  kept : ∀ active ∈ engine.rules, ∀ report ∈ active.rule.reports (engine.parse source),
    (report.toDiagnostic active.rule.info active.severity path (engine.parse source)).fix =
      report.rawFix?
  /-- Any of the findings can be mended together. -/
  applies : ∀ found : List Diagnostic, (∀ d ∈ found, d ∈ engine.lint path source) →
    (applyFixes? source (Diagnostic.fixes found)).isSome = true

/-- The fixes of all findings are well formed and touch no content. -/
theorem fixesHarmlessly (engine : Engine) (path : String) (source : Text) :
    engine.FixesHarmlessly path source := by
  refine {
    harmless := ?harmless
    kept := ?kept
    applies := ?applies }
  case harmless =>
    intro d member fix fixed
    exact harmless_of_mem_lint member fixed
  case kept =>
    intro active _ report reported
    exact (Report.fix?_of_mem_reports active.rule reported).2
  case applies =>
    intro found among
    obtain ⟨applied, applies, _⟩ := exists_applied_of_mem_lint among
    rw [applies]
    rfl

end Engine
end TagLint
