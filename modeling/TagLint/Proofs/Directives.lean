import TagLint.Proofs.Complaints

/-!
Directives and what they cover, in an outline and with line feeds woven into it.

A directive for the next line is read again wherever its comment comes to be, and it is about the
line that comes after it there. So it goes on to cover an opening tag while no line feed is put in
between the two; and what is reported of an outline with line feeds in it was reported before.
-/
namespace TagLint

open Written (Piece OpenTag)

/-- The directive that the node is, if it is one. -/
def Node.directive? (node : Node) : Option Directive :=
  match node.kind with
  | .comment content => Directive.ofComment? content.text node.extent.stop.line
  | _ => none

theorem Document.directives_eq (doc : Document) :
    doc.directives = doc.nodes.filterMap Node.directive? := rfl

namespace Directive

/-- The directive of a comment is for the whole document or for the line after the comment, wherever
the comment is. -/
theorem ofComment?_line {comment : Text} {lastLine : Nat} {directive : Directive}
    (found : ofComment? comment lastLine = some directive) :
    (directive.line = none ∧ ∀ other, ofComment? comment other = some directive) ∨
      directive.line = some (lastLine + 1) ∧
        ∀ other, ofComment? comment other = some ⟨directive.rules, some (other + 1)⟩ := by
  obtain ⟨rest, keyed, found⟩ := Option.bind_eq_some_iff.1 found
  cases nextLine : dropLead? nextLineSuffix rest with
  | none =>
    simp only [nextLine, Option.map_eq_some_iff] at found
    obtain ⟨list, arguments, rfl⟩ := found
    exact Or.inl ⟨rfl, fun other => by simp [ofComment?, keyed, nextLine, arguments]⟩
  | some rest' =>
    simp only [nextLine, Option.map_eq_some_iff] at found
    obtain ⟨list, arguments, rfl⟩ := found
    exact Or.inr ⟨rfl, fun other => by simp [ofComment?, keyed, nextLine, arguments]⟩

end Directive

namespace Written.Piece

/-- The directive that the piece is if it ends on the line. -/
def directive? (lastLine : Nat) : Piece → Option Directive
  | .comment body _ => Directive.ofComment? body.text lastLine
  | _ => none

theorem directive?_of_bare {piece piece' : Piece} (bare : piece'.bare = piece.bare)
    (lastLine : Nat) :
    piece'.directive? lastLine = piece.directive? lastLine := by
  have own (piece : Piece) : piece.bare.directive? lastLine = piece.directive? lastLine := by
    cases piece <;> rfl
  rw [← own, bare, own]

end Written.Piece

/-- The directive that a node is, with the offset after the node. -/
def Node.directiveAt? (node : Node) : Option (Nat × Directive) :=
  node.directive?.map fun directive => (node.span.stop, directive)

/-- The directive that the piece is if it comes after the pieces `pre`, with the offset after it. -/
def Written.Piece.directiveAt? (index : LineIndex) (pre : List Piece) (piece : Piece) :
    Option (Nat × Directive) :=
  let stop := (Piece.renderAll (pre ++ [piece])).byteLength
  (piece.directive? (index.position stop).line).map fun directive => (stop, directive)

namespace Outline

/-- The directives of an outline are its pieces that are directives, in order. -/
theorem directives_forest (index : LineIndex) (parent id : Nat) (pre : List Piece)
    {outline : Outline} (full : outline.IsFull) :
    ((outline.forest index parent id (Piece.renderAll pre).byteLength).subtrees.flatMap fun tree =>
        tree.node.directiveAt?.toList) =
      (Piece.reached pre outline.pieces).flatMap fun met =>
        (met.2.directiveAt? index met.1).toList := by
  induction outline generalizing parent id pre with
  | nil => rfl
  | single piece next ih =>
    obtain ⟨_, fullNext⟩ := full_single full
    have others (id : Nat) := ih parent id (pre ++ [piece]) fullNext
    rw [Piece.byteLength_concat] at others
    rw [pieces_single, Piece.reached, List.flatMap_cons]
    -- Only a comment can be a directive, and its node ends where the piece does.
    cases piece with
    | closing name tail isClosed => exact others id
    | comment body isClosed =>
      rw [Piece.directiveAt?, Piece.byteLength_concat]
      simp only [forest, Piece.kindAt?, Forest.subtrees, List.nil_append, List.flatMap_cons, others]
      rfl
    | raw tag body =>
      simp only [forest, Piece.kindAt?, Forest.subtrees, List.nil_append, List.flatMap_cons, others]
      congr 1
      split <;> rfl
    | _ =>
      simp only [forest, Piece.kindAt?, Forest.subtrees, List.nil_append, List.flatMap_cons, others]
      rfl
  | element tag inside close next ihInside ihNext =>
    obtain ⟨opens, fullInside, _, fullNext⟩ := full_element full
    obtain ⟨node, shown, _, kind, _⟩ :=
      forest_element index parent id (Piece.renderAll pre).byteLength tag inside close next
        (laid_forest _ _ _ _ _ fullInside)
    have plain : node.directiveAt? = none := by simp [Node.directiveAt?, Node.directive?, kind]
    rw [shown, ← byteLength_element, ← Piece.byteLength_opening, Forest.subtrees,
      reached_element, List.flatMap_cons, List.flatMap_cons, List.flatMap_append,
      List.flatMap_append, List.flatMap_append, ihInside _ _ _ fullInside, ihNext _ _ _ fullNext,
      plain]
    cases close <;> rfl

/-- Every opening tag is one of the pieces. -/
theorem mem_reached_of_mem_openings {outline : Outline} {isForeign : Bool} {pre : List Piece}
    {opening : Opening} (member : opening ∈ outline.openings isForeign pre) :
    (opening.before, .opening opening.tag) ∈ Piece.reached pre outline.pieces := by
  induction outline generalizing isForeign pre with
  | nil => simp [openings] at member
  | single piece next ih =>
    cases piece with
    | opening tag =>
      rcases List.mem_cons.1 member with rfl | later
      · exact List.mem_cons_self
      · exact List.mem_cons_of_mem _ (ih later)
    | _ => exact List.mem_cons_of_mem _ (ih member)
  | element tag inside close next ihInside ihNext =>
    rw [reached_element]
    rcases List.mem_cons.1 member with rfl | further
    · exact List.mem_cons_self
    · refine List.mem_cons_of_mem _ ?_
      rcases List.mem_append.1 further with deeper | later
      · exact List.mem_append_left _ (ihInside deeper)
      · exact List.mem_append_right _ (List.mem_append_right _ (ihNext later))

end Outline

section Lines

variable {pieces before first : List Piece} {piece other : Piece} {lead : Text}

/-- The line of a place inside of a piece. -/
theorem Written.Piece.line_reached (member : (before, piece) ∈ reached [] pieces)
    (starts : lead <+: piece.render) :
    ((LineIndex.ofText (renderAll pieces)).position
        ((renderAll before).byteLength + lead.byteLength)).line =
      (renderAll before).feeds + lead.feeds + 1 := by
  obtain ⟨after, split⟩ := exists_of_mem_reached member
  obtain ⟨rest, shown⟩ := starts
  have text : renderAll pieces = (renderAll before ++ lead) ++ (rest ++ renderAll after) := by
    rw [List.nil_append] at split
    rw [split, renderAll_append, renderAll_cons, ← shown]
    simp
  rw [text, ← Text.byteLength_append, LineIndex.line_position, Text.feeds_append]

theorem Written.Piece.line_after (member : (before, piece) ∈ reached [] pieces) :
    ((LineIndex.ofText (renderAll pieces)).position
        (renderAll (before ++ [piece])).byteLength).line =
      (renderAll (before ++ [piece])).feeds + 1 := by
  rw [byteLength_concat, line_reached member (List.prefix_refl _), renderAll_append,
    Text.feeds_append, renderAll_singleton]

/-- A piece that ends on an earlier line comes before. -/
theorem Written.Piece.exists_middle (one : (first, other) ∈ reached [] pieces)
    (member : (before, piece) ∈ reached [] pieces) (apart : other ≠ piece)
    (starts : lead <+: piece.render)
    (earlier : (renderAll (first ++ [other])).feeds < (renderAll before).feeds + lead.feeds) :
    ∃ middle, before = first ++ [other] ++ middle := by
  obtain ⟨after, split⟩ := exists_of_mem_reached one
  obtain ⟨after', split'⟩ := exists_of_mem_reached member
  -- Both are in one list, so one of the two comes first.
  rcases List.append_eq_append_iff.1 (split.symm.trans split') with
    ⟨middle, rfl, joined⟩ | ⟨middle, rfl, joined⟩
  · cases middle with
    | nil => exact absurd (List.cons.inj joined).1 apart
    | cons own middle =>
      obtain ⟨rfl, _⟩ := List.cons.inj joined
      exact ⟨middle, by simp⟩
  · -- It is not this one, for what comes later does not end on an earlier line.
    exfalso
    cases middle with
    | nil => exact apart (List.cons.inj joined).1.symm
    | cons own middle =>
      obtain ⟨rfl, _⟩ := List.cons.inj joined
      obtain ⟨rest, shown⟩ := starts
      simp only [renderAll_append, renderAll_cons, Text.feeds_append, ← shown] at earlier
      omega

/-- A directive for the next line goes on to cover what it covers, if no line feed comes in
between. -/
theorem Outline.Weaves.exists_directive {outline woven : Outline} {places : Nat → Bool}
    (weaves : outline.Weaves places 0 false woven) {before' : List Piece}
    (comment : (first, other) ∈ Piece.reached [] outline.pieces) (silent : other.isText = false)
    (member : (before, piece) ∈ Piece.reached [] outline.pieces) (apart : other ≠ piece)
    (ahead : Ahead places true before before') (starts : lead <+: piece.render)
    (next : (Piece.renderAll before).feeds + lead.feeds =
      (Piece.renderAll (first ++ [other])).feeds + 1)
    (free : ∀ place, places place = true →
      ¬((Piece.renderAll (first ++ [other])).byteLength ≤ place ∧
        place ≤ (Piece.renderAll before).byteLength)) :
    ∃ first' other', (first', other') ∈ Piece.reached [] woven.pieces ∧
      other'.bare = other.bare ∧
        (Piece.renderAll before').feeds + lead.feeds =
          (Piece.renderAll (first' ++ [other'])).feeds + 1 := by
  obtain ⟨middle, rfl⟩ := Piece.exists_middle comment member apart starts (by omega)
  obtain ⟨first', other', within, bare, full⟩ :=
    weaves.exists_reached rfl (Ahead.nil places) comment silent
  have shown := (full.piece (Piece.render_of_bare bare)).renderAll_eq ahead free
  refine ⟨first', other', within, bare, ?_⟩
  rw [shown, Text.feeds_append]
  rw [Piece.renderAll_append, Text.feeds_append] at next
  omega

end Lines

/-- Whether the report is about the place after the pieces `before` and then `lead`. -/
structure Report.IsAt (report : Report) (before : List Piece) (lead : Text) : Prop where
  start : report.span.start = (Piece.renderAll before).byteLength + lead.byteLength
  line : report.extent.start.line = (Piece.renderAll before).feeds + lead.feeds + 1

namespace Document

variable {pairs : List Delimiters} {outline : Outline} {rule : ClosingTags}

private theorem isAt_of_place {opening : Opening} (member : opening ∈ outline.openings false [])
    {lead : Text} (complains : rule.complaint? opening = some lead) {report : Report}
    (same : ClosingTags.placeOf report = (opening.start + lead.byteLength,
      (LineIndex.ofText (Piece.renderAll outline.pieces)).position
        (opening.start + lead.byteLength))) : report.IsAt opening.before lead := by
  obtain ⟨start, position⟩ := Prod.mk.inj same
  refine ⟨start, ?_⟩
  rw [position]
  exact Piece.line_reached (Outline.mem_reached_of_mem_openings member)
    (ClosingTags.complaint?_prefix complains)

section Outlined

variable (nested : outline.Nested []) (reads : Piece.Reads pairs outline.pieces)
include nested reads

theorem parse_renderAll : parse pairs (Piece.renderAll outline.pieces) =
    ofOutline (Piece.renderAll outline.pieces) outline :=
  parse_eq_ofOutline pairs _ (Piece.scanAll_renderAll reads).symm nested

private theorem map_placeOf_reports :
    (rule.reports (parse pairs (Piece.renderAll outline.pieces))).map ClosingTags.placeOf =
      (outline.openings false []).filterMap
        (rule.place? (LineIndex.ofText (Piece.renderAll outline.pieces))) := by
  have full := Outline.full_of_reads reads
  rw [parse_renderAll nested reads, ClosingTags.reports_ofOutline _ full,
    List.filterMap_eq_flatMap_toList]
  exact Outline.placeOf_reportsIn 0 1 false [] full

private theorem filterMap_directiveAt? :
    (parse pairs (Piece.renderAll outline.pieces)).nodes.filterMap Node.directiveAt? =
      (Piece.reached [] outline.pieces).filterMap fun met =>
        met.2.directiveAt? (LineIndex.ofText (Piece.renderAll outline.pieces)) met.1 := by
  rw [List.filterMap_eq_flatMap_toList, List.filterMap_eq_flatMap_toList,
    ← Outline.directives_forest _ 0 1 [] (Outline.full_of_reads reads),
    parse_renderAll nested reads, nodes, List.flatMap_map]
  rfl

/-- Each report about closing tags is a complaint about an opening tag. -/
theorem exists_opening_of_mem_reports {report : Report}
    (member : report ∈ rule.reports (parse pairs (Piece.renderAll outline.pieces))) :
    ∃ opening ∈ outline.openings false [], ∃ lead, rule.complaint? opening = some lead ∧
      report.IsAt opening.before lead := by
  have among : ClosingTags.placeOf report ∈ _ := List.mem_map_of_mem member
  rw [map_placeOf_reports nested reads] at among
  obtain ⟨opening, listed, placed⟩ := List.mem_filterMap.1 among
  obtain ⟨lead, complains, same⟩ := Option.map_eq_some_iff.1 placed
  exact ⟨opening, listed, lead, complains, isAt_of_place listed complains same.symm⟩

/-- Each complaint about an opening tag is reported. -/
theorem exists_report_of_mem_openings {opening : Opening}
    (member : opening ∈ outline.openings false []) {lead : Text}
    (complains : rule.complaint? opening = some lead) :
    ∃ report ∈ rule.reports (parse pairs (Piece.renderAll outline.pieces)),
      report.IsAt opening.before lead := by
  let index := LineIndex.ofText (Piece.renderAll outline.pieces)
  let place := opening.start + lead.byteLength
  have placed : (place, index.position place) ∈
      (outline.openings false []).filterMap (rule.place? index) :=
    List.mem_filterMap.2 ⟨opening, member, Option.map_eq_some_iff.2 ⟨lead, complains, rfl⟩⟩
  rw [← map_placeOf_reports nested reads] at placed
  obtain ⟨report, reported, same⟩ := List.mem_map.1 placed
  exact ⟨report, reported, isAt_of_place member complains same⟩

/-- Each directive is a piece, and it is about the line after it if it is about one line. -/
theorem exists_reached_of_directive {node : Node}
    (member : node ∈ (parse pairs (Piece.renderAll outline.pieces)).nodes) {directive : Directive}
    (found : node.directive? = some directive) :
    ∃ before piece, (before, piece) ∈ Piece.reached [] outline.pieces ∧
      piece.directive? ((Piece.renderAll (before ++ [piece])).feeds + 1) = some directive ∧
      node.span.stop = (Piece.renderAll (before ++ [piece])).byteLength := by
  have located : node.directiveAt? = some (node.span.stop, directive) := by
    rw [Node.directiveAt?, found]
    rfl
  have among := List.mem_filterMap.2 ⟨node, member, located⟩
  rw [filterMap_directiveAt? nested reads] at among
  obtain ⟨⟨before, piece⟩, reached, placed⟩ := List.mem_filterMap.1 among
  obtain ⟨other, own, same⟩ := Option.map_eq_some_iff.1 placed
  obtain ⟨stop, rfl⟩ := Prod.mk.inj same
  rw [Piece.line_after reached] at own
  exact ⟨before, piece, reached, own, stop.symm⟩

/-- The directives of a document are its pieces that are directives, each read at the line that it
ends on. -/
theorem directives_eq_reached : (parse pairs (Piece.renderAll outline.pieces)).directives =
    (Piece.reached [] outline.pieces).filterMap fun met =>
      met.2.directive? ((Piece.renderAll (met.1 ++ [met.2])).feeds + 1) := by
  let index := LineIndex.ofText (Piece.renderAll outline.pieces)
  have own (node : Node) : node.directive? = node.directiveAt?.map Prod.snd := by
    simp [Node.directiveAt?, Function.comp_def]
  have listed : (parse pairs (Piece.renderAll outline.pieces)).directives =
      ((parse pairs (Piece.renderAll outline.pieces)).nodes.filterMap Node.directiveAt?).map
        Prod.snd := by
    rw [directives_eq, List.map_filterMap]
    exact congrArg (List.filterMap · _) (funext own)
  rw [listed, filterMap_directiveAt? nested reads, List.map_filterMap]
  refine List.filterMap_congr fun met reached => ?_
  rw [← Piece.line_after reached]
  simp [Piece.directiveAt?, Function.comp_def]

theorem mem_directives_of_reached {before : List Piece} {piece : Piece}
    (reached : (before, piece) ∈ Piece.reached [] outline.pieces) {directive : Directive}
    (found : piece.directive? ((Piece.renderAll (before ++ [piece])).feeds + 1) = some directive) :
    directive ∈ (parse pairs (Piece.renderAll outline.pieces)).directives := by
  rw [directives_eq_reached nested reads]
  exact List.mem_filterMap.2 ⟨(before, piece), reached, found⟩

end Outlined

section Woven

variable {woven : Outline} {places : Nat → Bool}
  (weaves : outline.Weaves places 0 false woven)
  (nested : outline.Nested []) (reads : Piece.Reads pairs outline.pieces)
  (nestedWoven : woven.Nested []) (readsWoven : Piece.Reads pairs woven.pieces)
include weaves nested reads nestedWoven readsWoven

/-- What is reported of an outline with line feeds in it was reported before, if none of them got
into an element that has to be bare. -/
theorem exists_report_of_weaves
    (spared : ∀ opening ∈ outline.openings false [], rule.asksInside opening = true →
      opening.isClosed = false → opening.inside.isBare = true → ∀ place, places place = true →
        ¬(opening.within ≤ place ∧ place ≤ opening.within + opening.inside.width))
    {report' : Report}
    (member : report' ∈ rule.reports (parse pairs (Piece.renderAll woven.pieces))) :
    ∃ opening ∈ outline.openings false [], ∃ lead before',
      Ahead places true opening.before before' ∧ lead <+: opening.tag.render ∧
        report'.IsAt before' lead ∧
        ∃ report ∈ rule.reports (parse pairs (Piece.renderAll outline.pieces)),
          report.IsAt opening.before lead := by
  obtain ⟨opening', member', lead, complains', isAt'⟩ :=
    exists_opening_of_mem_reports nestedWoven readsWoven member
  obtain ⟨opening, among, same⟩ := weaves.exists_opening rfl (Ahead.nil places) member'
  -- Had an element been bare that is not so now, a line feed would have got into it.
  have complains : rule.complaint? opening = some lead := by
    refine same.complaint? complains' fun asks unclosed bare => ?_
    by_contra fed
    rcases same.inside with unchanged | within
    · exact fed (unchanged ▸ bare)
    · obtain ⟨place, put, later, before⟩ := within.exists_place bare (by simpa using fed)
      exact spared opening among asks unclosed bare place put ⟨later, before⟩
  exact ⟨opening, among, lead, opening'.before, same.ahead, ClosingTags.complaint?_prefix complains,
    isAt', exists_report_of_mem_openings nested reads among complains⟩

/-- A directive goes on to cover what it covers, if it is for the whole document or no line feed
comes in between. -/
theorem exists_covers_of_weaves {opening : Opening} (among : opening ∈ outline.openings false [])
    {lead : Text} (starts : lead <+: opening.tag.render) {before' : List Piece}
    (ahead : Ahead places true opening.before before') {node : Node}
    (member : node ∈ (parse pairs (Piece.renderAll outline.pieces)).nodes) {directive : Directive}
    (found : node.directive? = some directive) {id : Text}
    (covers : directive.covers id
      ((Piece.renderAll opening.before).feeds + lead.feeds + 1) = true)
    (kept : directive.line = none ∨ ∀ place, places place = true →
      ¬(node.span.stop ≤ place ∧ place ≤ opening.start + lead.byteLength)) :
    ∃ directive' ∈ (parse pairs (Piece.renderAll woven.pieces)).directives,
      directive'.covers id ((Piece.renderAll before').feeds + lead.feeds + 1) = true := by
  obtain ⟨first, comment, reached, own, stop⟩ :=
    exists_reached_of_directive nested reads member found
  obtain ⟨body, isClosed, rfl⟩ : ∃ body isClosed, comment = .comment body isClosed := by
    cases comment with
    | comment body isClosed => exact ⟨body, isClosed, rfl⟩
    | _ => simp [Piece.directive?] at own
  -- The comment is in the output too, where it is read at the line that it ends on then.
  have again {first' : List Piece} {comment' : Piece}
      (within : (first', comment') ∈ Piece.reached [] woven.pieces)
      (bare : comment'.bare = (Piece.comment body isClosed).bare) {directive' : Directive}
      (everywhere : Directive.ofComment? body.text
        ((Piece.renderAll (first' ++ [comment'])).feeds + 1) = some directive') :
      directive' ∈ (parse pairs (Piece.renderAll woven.pieces)).directives := by
    refine mem_directives_of_reached nestedWoven readsWoven within ?_
    rw [Piece.directive?_of_bare bare]
    exact everywhere
  rcases Directive.ofComment?_line own with ⟨whole, everywhere⟩ | ⟨line, everywhere⟩
  · obtain ⟨first', comment', within, bare, _⟩ :=
      weaves.exists_reached rfl (Ahead.nil places) reached rfl
    refine ⟨directive, again within bare (everywhere _), ?_⟩
    simpa only [Directive.covers, whole, Option.all_none] using covers
  · simp only [Directive.covers, line, Option.all_some, Bool.and_eq_true, beq_iff_eq] at covers
    have free : ∀ place, places place = true →
        ¬((Piece.renderAll (first ++ [.comment body isClosed])).byteLength ≤ place ∧
          place ≤ (Piece.renderAll opening.before).byteLength) := by
      intro place put between
      apply kept.resolve_left (by simp [line]) place put
      rw [stop, Opening.start]
      omega
    obtain ⟨first', comment', within, bare, next⟩ := weaves.exists_directive reached rfl
      (Outline.mem_reached_of_mem_openings among) (by simp) ahead starts (by omega) free
    refine ⟨_, again within bare (everywhere _), ?_⟩
    simp only [Directive.covers, Option.all_some, Bool.and_eq_true, beq_iff_eq]
    constructor
    · exact covers.1
    · omega

end Woven

end Document

end TagLint
