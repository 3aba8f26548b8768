import TagLint.Proofs.FixLoop

/-!
The fix loop settles by itself where no element is to close itself.

A pass then either takes a slash away and puts none in, or does nothing but put in line feeds, each
at a place that needs one. So the number of slashes and the number of missing line breaks, in this
order, get less with every pass, whichever of the fixes it applies.
-/
namespace TagLint

open Written (Piece)
open ClosingTags (headStop closesItself endEdits)

namespace Edit

/-- What the edit takes away of the source. -/
def removed (source : Text) (e : Edit) : Text :=
  (source.slice? e.start e.stop).getD []

/-- Of each character a text has as many more as are put in and as many fewer as are taken away. -/
theorem Rewrites.count_eq {offset : Nat} {s t : Text} {edits : List Edit}
    (rewrites : Rewrites offset s edits t) (c : Char) (before after : Text)
    (here : before.byteLength = offset) :
    t.count c + (edits.flatMap (removed (before ++ s ++ after))).count c =
      s.count c + (edits.flatMap Edit.text).count c := by
  induction rewrites generalizing before after with
  | keep => simp
  | replace offset old new =>
    have own := Text.slice?_append before old after
    rw [Text.byteLength_append, here] at own
    simp only [List.flatMap_cons, List.flatMap_nil, List.append_nil, removed, own, Option.getD_some]
    exact Nat.add_comm _ _
  | @append offset s s' t t' edits edits' _ _ ihFirst ihSecond =>
    have first := ihFirst before (s' ++ after) here
    have second := ihSecond (before ++ s) after (by rw [Text.byteLength_append, here])
    rw [← List.append_assoc, List.append_assoc _ s s'] at first
    rw [List.append_assoc before s s'] at second
    simp only [List.count_append, List.flatMap_append]
    omega

/-- Edits turn a text into one text only. -/
theorem Rewrites.unique {s t t' : Text} {edits : List Edit} (first : Rewrites 0 s edits t)
    (second : Rewrites 0 s edits t') : t = t' := by
  have spliced {u : Text} (rewrites : Rewrites (Text.byteLength []) s edits u) :=
    rewrites.spliced?_eq []
  exact Option.some.inj ((spliced first).symm.trans (spliced second))

end Edit

/-- Edits that put line feeds in before some of the pieces turn their source into what the pieces
are with them. -/
theorem feedAll_of_rewrites {pieces : List Piece} (full : ∀ piece ∈ pieces, piece.render ≠ [])
    {edits : List Edit} (apart : Edit.Apart edits)
    (feeds : ∀ e ∈ edits, e = feedEdit e.start ∧ e.start ∈ Piece.starts 0 pieces) {output : Text}
    (rewrites : Edit.Rewrites 0 (Piece.renderAll pieces) edits output) :
    output = Piece.feedAll (edits.map Edit.start).contains 0 pieces := by
  let places := edits.map Edit.start
  -- The places are the starts that they choose, both in ascending order.
  have ascending : places.Pairwise fun a b => a < b := List.pairwise_map.2 apart.ascending
  have chosen : ((Piece.starts 0 pieces).filter places.contains).Pairwise fun a b => a < b :=
    (Piece.starts_pairwise 0 full).filter _
  have same : (Piece.starts 0 pieces).filter places.contains = places := by
    refine List.Perm.eq_of_pairwise (fun a b _ _ one other => absurd one (Nat.lt_asymm other))
      chosen ascending ?_
    apply (List.perm_ext_iff_of_nodup (chosen.imp Nat.ne_of_lt) (ascending.imp Nat.ne_of_lt)).2
    intro place
    rw [List.mem_filter, List.contains_iff_mem]
    constructor
    · exact And.right
    · intro member
      obtain ⟨e, among, rfl⟩ := List.mem_map.1 member
      exact ⟨(feeds e among).2, member⟩
  have fed := rewrites_feedAll places.contains 0 pieces
  have all : places.map feedEdit = edits := by
    rw [List.map_map]
    conv_rhs => rw [← List.map_id edits]
    exact List.map_congr_left fun e member => ((feeds e member).1).symm
  rw [same, all] at fed
  exact rewrites.unique fed

namespace ClosingTags

variable {rule : ClosingTags} {isForeign : Bool} {tree : Tree} {tag : Tag} {report : Report}

/-- Where no element is to close itself, only a tag that does has a fix. -/
theorem closesItself_of_never (never : rule.prefersSelfClosing = false)
    (found : rule.check isForeign tree tag = some report) (edited : report.edits ≠ []) :
    closesItself tag = true := by
  unfold check at found
  simp only [never, Bool.false_and] at found
  split at found
  · -- A custom element that may close itself is left as it is.
    unfold checkEnd at found
    split at found
    · obtain rfl := Option.some.inj found
      simp [endReport] at edited
    · simp at found
  · split at found
    · unfold checkEnd at found
      simp only [Bool.false_and, Bool.not_false, Bool.true_and, Bool.false_eq_true,
        if_false] at found
      split at found
      next closes => exact closes
      · contradiction
    · split at found
      · obtain rfl := Option.some.inj found
        exact absurd rfl edited
      · contradiction

end ClosingTags

/-- What comes after the attributes of a tag that closes itself has a slash. -/
theorem Document.slash_mem_removed {pairs : List Delimiters} {source : Text} {tree : Tree}
    {tag : Tag} (member : tree ∈ (parse pairs source).root.inside.subtrees)
    (kind : tree.node.kind = .element tag) (closes : closesItself tag = true) (text : Text) :
    '/' ∈ (Edit.replace ⟨headStop tag, tag.openEnd.span.stop⟩ text).removed source := by
  obtain ⟨_, comes, _⟩ := comesFrom_parse pairs source member
  obtain ⟨written, opening, same, _⟩ := comes.tag_eq kind
  obtain ⟨before, after, split, here⟩ := Piece.split_of_mem_locate opening
  -- What is removed is the gap after the attributes and the end of the tag, which has the slash.
  have slashed : written.ending = .selfClosing := by
    rw [same, closesItself_tagAt] at closes
    cases ending : written.ending <;>
      simp [LineIndex.tagAt, Written.OpenTag.isSelfClosing, ending] at closes ⊢
  have slice := Text.slice?_append (before ++ written.head) (written.gap ++ written.ending.render)
    after
  have shown :
      source = before ++ written.head ++ (written.gap ++ written.ending.render) ++ after := by
    rw [split, Piece.render, Written.OpenTag.render_eq]
    simp
  have start : headStop tag = (before ++ written.head).byteLength := by
    rw [same, headStop_tagAt, Text.byteLength_append, here]
  have stop : tag.openEnd.span.stop =
      (before ++ written.head ++ (written.gap ++ written.ending.render)).byteLength := by
    rw [same, LineIndex.tagAt_stop, byteLength_render, ← here]
    simp only [Text.byteLength_append]
    omega
  rw [← shown, ← start, ← stop] at slice
  simp only [Edit.removed, Edit.replace, slice, Option.getD_some, slashed]
  simp [Written.Ending.render]

namespace Engine

variable {engine : Engine} {rule : ElementNewline} {path : String} {source : Text}

/-- Whether the rules that are on let no element close itself, and break lines as the given rule
does. -/
def NeverCloses (engine : Engine) (rule : ElementNewline) : Prop :=
  ∀ active ∈ engine.rules, active.rule = .elementNewline rule ∨
    ∃ closing, active.rule = .closingTags closing ∧ closing.prefersSelfClosing = false

private theorem of_closingTagsRule {config : Config} {rules : List ActiveRule}
    (made : closingTagsRule config = .ok rules)
    (never : config.rules.closingTags.options.selfClosing = .never) :
    ∀ active ∈ rules, ∃ closing, active.rule = .closingTags closing ∧
      closing.prefersSelfClosing = false := by
  unfold closingTagsRule at made
  simp only at made
  split at made
  · split at made
    next closing read =>
      obtain rfl := Except.ok.inj made
      have style : closing.prefersSelfClosing = false := by
        rw [(ClosingTags.of_ofOptions read).1, never]
        rfl
      simpa using style
    · contradiction
  · obtain rfl := Except.ok.inj made
    simp

private theorem of_elementNewlineRule {config : Config} {rules : List ActiveRule}
    (made : elementNewlineRule config = .ok rules) :
    ∃ rule, ∀ active ∈ rules, active.rule = .elementNewline rule := by
  unfold elementNewlineRule at made
  simp only at made
  split at made
  · split at made
    next rule _ =>
      obtain rfl := Except.ok.inj made
      exact ⟨rule, by simp⟩
    · contradiction
  · obtain rfl := Except.ok.inj made
    exact ⟨⟨[], []⟩, by simp⟩

/-- The engine of a configuration in the style `never` has such rules. -/
theorem exists_neverCloses {config : Config} (made : ofConfig config = .ok engine)
    (never : config.rules.closingTags.options.selfClosing = .never) :
    engine.config = config ∧ ∃ rule, engine.NeverCloses rule := by
  unfold ofConfig at made
  cases closing : closingTagsRule config with
  | error =>
    rw [closing] at made
    contradiction
  | ok first =>
    cases newline : elementNewlineRule config with
    | error =>
      rw [closing, newline] at made
      contradiction
    | ok second =>
      rw [closing, newline] at made
      obtain rfl := Except.ok.inj made
      obtain ⟨rule, breaks⟩ := of_elementNewlineRule newline
      refine ⟨rfl, rule, fun active on => ?_⟩
      rcases List.mem_append.1 on with one | other
      · exact Or.inr (of_closingTagsRule closing never active one)
      · exact Or.inl (breaks active other)

/-- A fix takes a slash away, or it puts in a line feed that is missing. -/
theorem exists_edit_of_mem_fixes (never : engine.NeverCloses rule) {fix : Fix}
    (member : fix ∈ Diagnostic.fixes (engine.lint path source)) :
    ∃ e, fix.merged? source = some e ∧ '/' ∉ e.text ∧
      ('/' ∈ e.removed source ∨ ∃ place, e = feedEdit place ∧
        [feedEdit place] ∈ (rule.reports (engine.parse source)).map Report.edits) := by
  obtain ⟨d, found, fixed⟩ := List.mem_filterMap.1 member
  obtain ⟨active, on, report, reported, rfl⟩ := exists_report found
  have edited := (fix_of_reported reported fixed).2.1
  -- Each of these fixes has one edit, and it is merged into that.
  have merged {e : Edit} (single : report.edits = [e]) : fix.merged? source = some e :=
    merged?_of_reported reported fixed single
  rcases never active on with newline | ⟨closing, closes, style⟩
  · rw [newline] at reported
    obtain ⟨place, _, single⟩ := Document.exists_place_of_mem_reports reported
    refine ⟨_, merged single, by simp [feedEdit], Or.inr ⟨place, rfl, ?_⟩⟩
    rw [← single]
    exact List.mem_map_of_mem reported
  · rw [closes] at reported
    obtain ⟨tree, below, tag, isForeign, kind, found, written⟩ :=
      Document.exists_element_of_mem_reports reported
    have slashed := ClosingTags.closesItself_of_never style found edited
    cases (ClosingTags.check_mends written found edited).2 with
    | collapse message open_ => exact absurd slashed (by simp [open_])
    | unslash message closes may edits =>
      exact ⟨_, merged edits, by simp [Edit.replace],
        Or.inl (Document.slash_mem_removed below kind slashed _)⟩

/-- What is still to do: the slashes in the source, and the line breaks that are missing. -/
def unsettled (engine : Engine) (rule : ElementNewline) (source : Text) : Nat × Nat :=
  (source.count '/', (rule.reports (engine.parse source)).length)

/-- Line feeds that are put in where they are missing leave fewer to put in. -/
private theorem length_reports_lt (clear : OpenersClear engine.config.templates)
    {taken : List Edit} (ascending : Edit.Apart taken) (some : taken ≠ [])
    (missing : ∀ e ∈ taken, ∃ place, e = feedEdit place ∧
      [feedEdit place] ∈ (rule.reports (engine.parse source)).map Report.edits)
    {output : Text} (rewrites : Edit.Rewrites 0 source taken output) :
    (rule.reports (engine.parse output)).length < (rule.reports (engine.parse source)).length := by
  obtain ⟨outline, covers, nested, parsed⟩ :=
    Document.exists_outline engine.config.templates source
  have reads : Piece.Reads engine.config.templates outline.pieces :=
    covers ▸ Piece.reads_scanAll engine.config.templates source
  have full := Outline.full_of_reads reads
  have shown : Piece.renderAll outline.pieces = source := by
    rw [covers, Piece.renderAll_scanAll]
  have edits := Document.edits_reports rule source shown nested full
  rw [← parsed] at edits
  have listed : ∀ e ∈ taken, e = feedEdit e.start ∧ e.start ∈ outline.breakPlaces rule := by
    intro e member
    obtain ⟨place, rfl, reported⟩ := missing e member
    rw [parse, edits] at reported
    obtain ⟨other, among, same⟩ := List.mem_map.1 reported
    obtain rfl : other = place := congrArg Edit.start (List.singleton_inj.1 same)
    exact ⟨rfl, among⟩
  let places := taken.map Edit.start
  have among : ∀ place, places.contains place = true → place ∈ outline.breakPlaces rule := by
    intro place put
    obtain ⟨e, member, rfl⟩ := List.mem_map.1 (List.contains_iff_mem.1 put)
    exact (listed e member).2
  -- The output is read as the outline with the line feeds in it.
  obtain ⟨woven, nestedWoven, readsWoven, rendered, fewer⟩ :=
    Outline.exists_fed clear rule nested reads among
  have written : output = Piece.renderAll woven.pieces := by
    rw [rendered]
    rw [← shown] at rewrites
    exact feedAll_of_rewrites full ascending (fun e member =>
      ⟨(listed e member).1, (Outline.cut_of_mem rule (listed e member).2).mem_starts⟩) rewrites
  have parsedWoven := Document.parse_eq_ofOutline engine.config.templates _
    (Piece.scanAll_renderAll readsWoven).symm nestedWoven
  have editsWoven := Document.edits_reports rule _ rfl nestedWoven
    (Outline.full_of_reads readsWoven)
  rw [← parsedWoven, ← written] at editsWoven
  have put : 0 < (outline.breakPlaces rule).countP places.contains := by
    obtain ⟨e, member⟩ := List.exists_mem_of_ne_nil taken some
    exact List.countP_pos_iff.2 ⟨e.start, (listed e member).2,
      List.contains_iff_mem.2 (List.mem_map_of_mem member)⟩
  have count := congrArg List.length edits
  have countWoven := congrArg List.length editsWoven
  simp only [List.length_map] at count countWoven
  unfold parse
  omega

/-- Every pass leaves less to do. -/
theorem unsettled_lt (never : engine.NeverCloses rule)
    (apart : OpenersApart engine.config.templates) {applied : Applied}
    (made : engine.pass? path source = some applied) :
    Prod.Lex (· < ·) (· < ·) (engine.unsettled rule applied.output)
      (engine.unsettled rule source) := by
  obtain ⟨_, follows, counted⟩ := of_pass? made
  have edits : ∀ e ∈ applied.selection.taken, '/' ∉ e.text ∧
      ('/' ∈ e.removed source ∨ ∃ place, e = feedEdit place ∧
        [feedEdit place] ∈ (rule.reports (engine.parse source)).map Report.edits) := by
    intro e member
    obtain ⟨fix, among, merged⟩ := follows.merged e member
    obtain ⟨other, same, rest⟩ := exists_edit_of_mem_fixes never among
    obtain rfl := Option.some.inj (same.symm.trans merged)
    exact rest
  have count := follows.rewrites.count_eq '/' [] [] rfl
  have none : (applied.selection.taken.flatMap Edit.text).count '/' = 0 := by
    rw [List.count_eq_zero, List.mem_flatMap]
    rintro ⟨e, among, slash⟩
    exact (edits e among).1 slash
  rw [List.nil_append, List.append_nil, none, Nat.add_zero] at count
  -- Either a slash goes away, or every edit feeds a line and reports go away.
  by_cases taken : '/' ∈ applied.selection.taken.flatMap (Edit.removed source)
  · have fewer := List.count_pos_iff.2 taken
    exact Prod.Lex.left _ _ (by omega)
  · have missing (e : Edit) (among : e ∈ applied.selection.taken) :
        ∃ place, e = feedEdit place ∧
          [feedEdit place] ∈ (rule.reports (engine.parse source)).map Report.edits :=
      (edits e among).2.resolve_left fun slash => taken (List.mem_flatMap.2 ⟨e, among, slash⟩)
    have kept := List.count_eq_zero.2 taken
    have same : applied.output.count '/' = source.count '/' := by omega
    have some : applied.selection.taken ≠ [] := List.ne_nil_of_length_pos counted
    rw [unsettled, unsettled, same]
    exact Prod.Lex.right _
      (length_reports_lt apart.clear follows.apart some missing follows.rewrites)

/-- Passes come to an end where no finding has a fix. -/
theorem exists_settled (never : engine.NeverCloses rule)
    (apart : OpenersApart engine.config.templates) (path : String) (source : Text) :
    ∃ count final, engine.Reaches path count source final ∧
      ∀ d ∈ engine.lint path final, d.fix = none := by
  cases made : engine.pass? path source with
  | none => exact ⟨0, source, .done source, pass?_eq_none_iff.1 made⟩
  | some applied =>
    obtain ⟨count, final, rest, settled⟩ := exists_settled never apart path applied.output
    exact ⟨count + 1, final, .pass (of_pass? made).1 rest, settled⟩
termination_by engine.unsettled rule source
decreasing_by exact unsettled_lt never apart made

/-- The fix loop ends by itself in the style `never`, whatever the other options are. -/
theorem settles {config : Config} (made : ofConfig config = .ok engine)
    (never : config.rules.closingTags.options.selfClosing = .never)
    (apart : OpenersApart config.templates) (path : String) (source : Text) :
    ∃ count final, engine.Reaches path count source final ∧
      ∀ d ∈ engine.lint path final, d.fix = none := by
  obtain ⟨rfl, rule, closes⟩ := exists_neverCloses made never
  exact exists_settled closes apart path source

theorem settles_sample :
    ∃ engine, ofConfig .initial = .ok engine ∧
      Config.initial.rules.closingTags.options.selfClosing = .never ∧
      OpenersApart Config.initial.templates ∧
      ∃ count final, engine.Reaches "icon.html" count "<svg><g/><p>a<br/></svg>".toList final ∧
        ∀ d ∈ engine.lint "icon.html" final, d.fix = none := by
  have made : ofConfig .initial = .ok ⟨.initial,
      [⟨.closingTags ⟨false, false, [.text ['-']]⟩, .error⟩,
        ⟨.elementNewline ⟨[], []⟩, .warning⟩]⟩ := by
    rfl
  have apart : OpenersApart Config.initial.templates := by
    unfold OpenersApart
    decide
  exact ⟨_, made, rfl, apart, settles made rfl apart _ _⟩

end Engine

end TagLint
