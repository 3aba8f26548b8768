import TagLint.Proofs.Directives
import TagLint.Proofs.Settling

/-!
What directives turn off stays off, as long as fixes keep the directives in their places.

Where all that `require-closing-tags` reports is covered, passes only put in line feeds, and what is
read of the output is the outline of the source with the line feeds in it. Each tag that is reported
there has been reported before, and the directive that covered it covers it still.
-/
namespace TagLint

open Written (Piece OpenTag)

theorem Rule.exists_closingTags {rule : Rule} (about : rule.info.id = ClosingTags.info.id) :
    ∃ closing, rule = .closingTags closing := by
  cases rule with
  | closingTags closing => exact ⟨closing, rfl⟩
  | elementNewline newline =>
    have other : ElementNewline.info.id ≠ ClosingTags.info.id := by decide
    exact absurd about other

namespace Engine

variable {engine : Engine} {path : String} {source : Text}

/-- Whether directives turn off all that is found about closing tags. -/
def IsExempt (engine : Engine) (path : String) (source : Text) : Prop :=
  ∀ d ∈ engine.rawDiagnostics (engine.parse source) path, d.ruleId = ClosingTags.info.id →
    Directive.isDisabled (engine.parse source).directives d.ruleId d.location.line = true

instance (engine : Engine) (path : String) (source : Text) :
    Decidable (engine.IsExempt path source) :=
  inferInstanceAs (Decidable (∀ d ∈ engine.rawDiagnostics (engine.parse source) path,
    d.ruleId = ClosingTags.info.id →
      Directive.isDisabled (engine.parse source).directives d.ruleId d.location.line = true))

theorem isExempt_iff : engine.IsExempt path source ↔
    ∀ d ∈ engine.lint path source, d.ruleId ≠ ClosingTags.info.id := by
  constructor
  · intro exempt d member about
    obtain ⟨raw, kept⟩ := mem_lint_iff.1 member
    rw [exempt d raw about] at kept
    contradiction
  · intro quiet d raw about
    by_contra kept
    exact quiet d (mem_lint_iff.2 ⟨raw, by simpa using kept⟩) about

/-- Whether edits leave directives and what they cover in their places, and bare elements bare. -/
structure Spares (engine : Engine) (path : String) (source : Text) (edits : List Edit) : Prop where
  /-- Of the directives that turn a finding about closing tags off, one is for the whole document,
  or none of the edits is between it and the finding. -/
  lines : ∀ d ∈ engine.rawDiagnostics (engine.parse source) path, d.ruleId = ClosingTags.info.id →
    Directive.isDisabled (engine.parse source).directives d.ruleId d.location.line = true →
      ∃ node ∈ (engine.parse source).nodes, ∃ directive ∈ node.directive?,
        directive.covers d.ruleId.toList d.location.line = true ∧
          (directive.line = none ∨
            ∀ e ∈ edits, ¬(node.span.stop ≤ e.start ∧ e.start ≤ d.span.start))
  /-- No edit is right inside an element without a closing tag that may close itself while nothing
  is inside. -/
  contents : ∀ active ∈ engine.rules, ∀ rule, active.rule = .closingTags rule → ∀ e ∈ edits,
    ∀ tree ∈ (engine.parse source).openAt e.start, ∀ tag ∈ tree.node.kind.tag?,
      tag.close = none → tree.children = [] → rule.mayStandAlone tag.name = false

/-- Where directives turn off all that is found about closing tags, passes put in line feeds
only. -/
private theorem feeds_of_taken (exempt : engine.IsExempt path source) {outline : Outline}
    (covers : outline.pieces = Piece.scanAll engine.config.templates source)
    (nested : outline.Nested []) {applied : Applied}
    (follows : applied.Follows source (Diagnostic.fixes (engine.lint path source))) :
    ∀ e ∈ applied.selection.taken, e = feedEdit e.start ∧ outline.Cut e.start 0 := by
  intro e member
  obtain ⟨fix, among, merged⟩ := follows.merged e member
  obtain ⟨d, found, fixed⟩ := List.mem_filterMap.1 among
  have other := isExempt_iff.1 exempt d found
  obtain ⟨active, on, report, reported, rfl⟩ := exists_report found
  have merged' {e' : Edit} (single : report.edits = [e']) : fix.merged? source = some e' :=
    merged?_of_reported reported fixed single
  -- Findings about closing tags are turned off, so the edit is one that puts in a line break.
  cases kind : active.rule with
  | closingTags closing =>
    have about : active.rule.info.id ≠ ClosingTags.info.id := other
    rw [kind] at about
    exact absurd rfl about
  | elementNewline rule =>
    rw [kind] at reported
    obtain ⟨place, cut, single⟩ := Document.exists_cut_of_mem_reports covers nested reported
    obtain rfl := Option.some.inj ((merged' single).symm.trans merged)
    exact ⟨rfl, cut⟩

/-- No edit is right inside a bare element without a closing tag, where the rule asks. -/
private theorem spared_of_contents {outline : Outline} (nested : outline.Nested [])
    (reads : Piece.Reads engine.config.templates outline.pieces) {rule : ClosingTags}
    {edits : List Edit}
    (contents : ∀ e ∈ edits,
      ∀ tree ∈ (engine.parse (Piece.renderAll outline.pieces)).openAt e.start,
        ∀ tag ∈ tree.node.kind.tag?, tag.close = none → tree.children = [] →
          rule.mayStandAlone tag.name = false) :
    ∀ opening ∈ outline.openings false [], rule.asksInside opening = true →
      opening.isClosed = false → opening.inside.isBare = true →
        ∀ place, (edits.map Edit.start).contains place = true →
          ¬(opening.within ≤ place ∧ place ≤ opening.within + opening.inside.width) := by
  intro opening among asks unclosed bare place put between
  obtain ⟨e, member, rfl⟩ := List.mem_map.1 (List.contains_iff_mem.1 put)
  simp only [ClosingTags.asksInside, Bool.and_eq_true, Bool.not_eq_true'] at asks
  have full := Outline.full_of_reads reads
  have long : 0 < opening.tag.render.byteLength := by
    obtain ⟨after, split⟩ :=
      Piece.exists_of_mem_reached (Outline.mem_reached_of_mem_openings among)
    rw [List.nil_append] at split
    exact Piece.width_pos (full (.opening opening.tag) (by simp [split]))
  -- The edit is put behind the head, where the element that was left open is still open.
  have later : opening.start < e.start := by
    have := between.1
    rw [Opening.within] at this
    omega
  let index := LineIndex.ofText (Piece.renderAll outline.pieces)
  obtain ⟨tree, isOpen, kind, empty⟩ :=
    Outline.exists_openAt index 0 1 nested full among unclosed asks.1.1 asks.1.2 later between.2
  rw [bare, List.isEmpty_iff] at empty
  have opened : tree ∈ (engine.parse (Piece.renderAll outline.pieces)).openAt e.start := by
    rw [parse, Document.parse_renderAll nested reads]
    exact isOpen
  have own : index.tagAt opening.start opening.tag none ∈ tree.node.kind.tag? := by
    rw [kind]
    rfl
  have stands : rule.mayStandAlone opening.tag.name = false :=
    contents e member tree opened _ own rfl empty
  rw [stands] at asks
  exact Bool.false_ne_true asks.2

/-- What is read of the output of such a pass is the outline of the source with the line feeds woven
into it. -/
private theorem exists_weaves_of_taken (clear : OpenersClear engine.config.templates)
    (exempt : engine.IsExempt path source) {outline : Outline}
    (covers : outline.pieces = Piece.scanAll engine.config.templates source)
    (nested : outline.Nested []) {applied : Applied}
    (follows : applied.Follows source (Diagnostic.fixes (engine.lint path source))) :
    ∃ woven : Outline,
      outline.Weaves (applied.selection.taken.map Edit.start).contains 0 false woven ∧
        woven.Nested [] ∧ Piece.Reads engine.config.templates woven.pieces ∧
        applied.output = Piece.renderAll woven.pieces := by
  have reads : Piece.Reads engine.config.templates outline.pieces :=
    covers ▸ Piece.reads_scanAll engine.config.templates source
  have shown : source = Piece.renderAll outline.pieces := by
    rw [covers, Piece.renderAll_scanAll]
  have feeds := feeds_of_taken exempt covers nested follows
  have cuts (place : Nat)
      (put : (applied.selection.taken.map Edit.start).contains place = true) :
      outline.Cut place 0 := by
    obtain ⟨e, member, rfl⟩ := List.mem_map.1 (List.contains_iff_mem.1 put)
    exact (feeds e member).2
  obtain ⟨woven, weaves, nestedWoven, readsWoven, fed⟩ :=
    Outline.exists_weaves_of_cut clear nested reads cuts
  refine ⟨woven, weaves, nestedWoven, readsWoven, ?_⟩
  rw [fed]
  exact feedAll_of_rewrites (Outline.full_of_reads reads) follows.apart
    (fun e member => ⟨(feeds e member).1, (feeds e member).2.mem_starts⟩)
    (shown ▸ follows.rewrites)

/-- What is exempt is exempt after a pass that leaves directives in their places. -/
theorem isExempt_of_pass (clear : OpenersClear engine.config.templates)
    (exempt : engine.IsExempt path source) {applied : Applied}
    (applies : applyFixes? source (Diagnostic.fixes (engine.lint path source)) = some applied)
    (spares : engine.Spares path source applied.selection.taken) :
    engine.IsExempt path applied.output := by
  obtain ⟨other, applies', follows⟩ := engine.exists_applied_lint path source
  obtain rfl := Option.some.inj (applies'.symm.trans applies)
  obtain ⟨outline, covers, nested, _⟩ := Document.exists_outline engine.config.templates source
  have reads : Piece.Reads engine.config.templates outline.pieces :=
    covers ▸ Piece.reads_scanAll engine.config.templates source
  have shown : source = Piece.renderAll outline.pieces := by
    rw [covers, Piece.renderAll_scanAll]
  obtain ⟨woven, weaves, nestedWoven, readsWoven, output⟩ :=
    exists_weaves_of_taken clear exempt covers nested follows
  rw [output]
  subst shown
  intro d' raw' about
  obtain ⟨active, on, report', reported', rfl⟩ := mem_rawDiagnostics_iff.1 raw'
  obtain ⟨rule, kind⟩ := Rule.exists_closingTags about
  -- What is reported of the output was reported of the source, and a directive covered it there.
  have closing (report : Report) (doc : Document) :
      report ∈ active.rule.reports doc ↔ report ∈ rule.reports doc := by
    rw [kind]
    rfl
  obtain ⟨opening, among, lead, before', ahead, starts, isAt', report, reported, isAt⟩ :=
    Document.exists_report_of_weaves weaves nested reads nestedWoven readsWoven
      (spared_of_contents nested reads fun e member => spares.contents active on rule kind e member)
      ((closing _ _).1 reported')
  let d := report.toDiagnostic active.rule.info active.severity path
    (engine.parse (Piece.renderAll outline.pieces))
  have raw : d ∈ engine.rawDiagnostics (engine.parse (Piece.renderAll outline.pieces)) path :=
    mem_rawDiagnostics_iff.2 ⟨active, on, report, (closing _ _).2 reported, rfl⟩
  obtain ⟨node, member, directive, found, covering, kept⟩ :=
    spares.lines d raw about (exempt d raw about)
  have line : d.location.line =
      (Piece.renderAll opening.before).feeds + Text.feeds lead + 1 := isAt.line
  rw [line] at covering
  have free : directive.line = none ∨
      ∀ place, (other.selection.taken.map Edit.start).contains place = true →
        ¬(node.span.stop ≤ place ∧ place ≤ opening.start + Text.byteLength lead) := by
    refine kept.imp_right fun free place put between => ?_
    obtain ⟨e, taken, rfl⟩ := List.mem_map.1 (List.contains_iff_mem.1 put)
    exact free e taken ⟨between.1, isAt.start ▸ between.2⟩
  obtain ⟨directive', member', covering'⟩ :=
    Document.exists_covers_of_weaves weaves nested reads nestedWoven readsWoven among starts ahead
      member found covering free
  rw [← isAt'.line] at covering'
  exact List.any_eq_true.2 ⟨directive', member', covering'⟩

/-- Whether a pass uncovers something: directives turn off all that is found about closing tags in
the source, but not in the output. -/
def Uncovers (engine : Engine) (path : String) (source output : Text) : Prop :=
  engine.IsExempt path source ∧ (engine.pass? path source).map Applied.output = some output ∧
    ClosingTags.info.id ∈ (engine.lint path output).map Diagnostic.ruleId

instance (engine : Engine) (path : String) (source output : Text) :
    Decidable (engine.Uncovers path source output) :=
  inferInstanceAs (Decidable (_ ∧ _ ∧ _))

end Engine
end TagLint
