import TagLint.Proofs.Restyling
import Mathlib.Data.List.Chain

/-!
What applying all fixes of `require-closing-tags` makes of a document.

Together the fixes restyle the outline of the source, so the document that is parsed of their output
has the same element tree, where the last attribute of each tag ends before the new end and opening
delimiters leave alone the new ends and the places where closing tags were (`OpenersSpare`). A fix
may open an element of a foreign subtree; then nothing of the element tree may come after the element
among its siblings (`Forest.opensApart`), or it would come to be inside.
-/
namespace TagLint

open Written (Piece OpenTag Ending Construct)
open ClosingTags (reportsIn hasBlankInside)

/-- Whether a finding about the end of the tag has a fix. -/
def Tag.isMended (found : List Diagnostic) (tag : Tag) : Bool :=
  found.any fun d => d.span == tag.openEnd.span && d.fix.isSome

/-- Whether an element of a foreign subtree that closes itself, and no longer does so when the
findings are fixed, has nothing of the element tree after it among its siblings, and no element
around it is called the same. -/
def Forest.opensApart (found : List Diagnostic) (outer : List Text) : Forest → Bool
  | nil => true
  | cons node inside next =>
    (node.kind.tag?.all fun tag =>
      !(tag.isSelfClosing && isForeignIn outer && tag.isMended found) ||
        (next.elements == .nil && outer.all fun other => !Text.sameName other tag.name)) &&
      inside.opensApart found ((node.kind.tag?.map Tag.name).toList ++ outer) &&
      next.opensApart found outer

theorem Forest.apart_of_opensApart {found : List Diagnostic} {outer : List Text} {node : Node}
    {inside next : Forest} (apart : (cons node inside next).opensApart found outer = true)
    {tag : Tag} (kind : node.kind = .element tag) (closes : tag.isSelfClosing = true)
    (foreign : isForeignIn outer = true) (mended : tag.isMended found = true) :
    next.elements = .nil ∧ ∀ other ∈ outer, Text.sameName other tag.name = false := by
  simp only [opensApart, Bool.and_eq_true] at apart
  simpa [kind, Kind.tag?, closes, foreign, mended] using apart.1.1

theorem Forest.opensApart_cons {found : List Diagnostic} {outer : List Text} {node : Node}
    {inside next : Forest} (apart : (cons node inside next).opensApart found outer = true) :
    inside.opensApart found ((node.kind.tag?.map Tag.name).toList ++ outer) = true ∧
      next.opensApart found outer = true := by
  simp only [opensApart, Bool.and_eq_true] at apart
  exact ⟨apart.1.2, apart.2⟩

variable {pairs : List Delimiters} {rule : ClosingTags}

theorem Report.edits_ne_nil {report : Report} (fixed : report.fix?.isSome = true) :
    report.edits ≠ [] := by
  intro nothing
  simp [Report.fix?, Report.rawFix?, Fix.ofEdits?, nothing] at fixed

/-- What is fixed of the findings of a rule whose edits are in order. -/
theorem ClosingTags.fixes_eq {severity : Severity} {path : String} {doc : Document}
    (ordered : ∀ report ∈ rule.reports doc,
      (report.edits.Pairwise fun a b => a.before b = true) ∧
        Fix.overlapsIn report.edits = false) :
    Diagnostic.fixes ((ActiveRule.mk (.closingTags rule) severity).diagnostics path doc) =
      (rule.reports doc).filterMap fun report =>
        if report.edits.isEmpty then none else some ⟨report.edits⟩ := by
  rw [Diagnostic.fixes, ActiveRule.diagnostics, List.filterMap_map]
  refine List.filterMap_congr fun report member => ?_
  obtain ⟨inOrder, apart⟩ := ordered report member
  change report.fix? = _
  cases edits : report.edits with
  | nil => simp [Report.fix?, Report.rawFix?, Fix.ofEdits?, edits]
  | cons first others =>
    rw [edits] at inOrder apart
    simp [Report.fix?_eq edits inOrder apart]

/-- Whether the last attribute of each tag among the pieces that one of the reports mends ends
before the new end. -/
def AdmitsEnds (pairs : List Delimiters) (reports : List Report) (offset : Nat)
    (pieces : List Piece) : Prop :=
  ∀ report ∈ reports, ∀ place tag ending kept closing,
    report.MendsTag place tag ending kept closing →
    (place, Piece.opening tag) ∈ Piece.locate offset pieces →
    tag.admits pairs ending = true

theorem AdmitsEnds.sub {reports reports' : List Report} {offset place : Nat}
    {all pieces : List Piece} (mends : AdmitsEnds pairs reports offset all)
    (front back : List Piece) (shape : all = front ++ pieces ++ back)
    (fewer : ∀ report ∈ reports', report ∈ reports)
    (here : place = offset + (Piece.renderAll front).byteLength) :
    AdmitsEnds pairs reports' place pieces := by
  intro report member spot tag ending kept closing mended located
  refine mends report (fewer report member) spot tag ending kept closing mended ?_
  rw [shape, Piece.locate_append, Piece.locate_append, ← here]
  exact List.mem_append_left _ (List.mem_append_right _ located)

/-- Whether the opening delimiters that stand in a text leave alone what was written at the spans,
and the places among them where nothing was. -/
structure OpenersSpare (pairs : List Delimiters) (t : Text) (spans : List Span) : Prop where
  /-- One that begins before what was written, or with its first character, ends before it. -/
  written : ∀ span ∈ spans, span.start < span.stop →
    OpenersEndBy pairs t (· ≤ span.start) span.start
  /-- Where nothing was written, one that begins behind the span before ends in front of the
  place. -/
  joined : spans.IsChain fun last span => span.start = span.stop →
    OpenersEndBy pairs t (fun place => last.stop ≤ place ∧ place < span.start) span.start
  /-- Markup that has come right behind a blank does not begin with one. -/
  markup : ∀ span ∈ spans, span.start = span.stop → ∀ (before : Text) (c : Char) (after : Text),
    t = before ++ c :: after → (before ++ [c]).byteLength = span.start → isBlankChar c = true →
    (Construct.of? after).isSome = true → Template.opener? pairs after [] = none

namespace OpenersSpare

variable {t : Text} {spans spans' : List Span}

/-- A text in which no opening delimiter stands is left alone everywhere. -/
theorem of_absent (absent : ∀ pair ∈ pairs, ¬pair.opening <:+: t) (spans : List Span) :
    OpenersSpare pairs t spans where
  written _ _ _ := .of_absent absent _ _
  joined := (List.pairwise_of_forall fun _ _ _ => .of_absent absent _ _).isChain
  markup := by
    rintro _ _ _ before c after rfl _ _ _
    rw [Template.opener?_eq_none_iff]
    rintro pair member _ ⟨rest, rfl⟩
    exact absent pair member ⟨before ++ [c], rest, by simp⟩

theorem left_of_append (spare : OpenersSpare pairs t (spans ++ spans')) :
    OpenersSpare pairs t spans where
  written span member := spare.written span (List.mem_append_left _ member)
  joined := spare.joined.left_of_append
  markup span member := spare.markup span (List.mem_append_left _ member)

theorem right_of_append (spare : OpenersSpare pairs t (spans ++ spans')) :
    OpenersSpare pairs t spans' where
  written span member := spare.written span (List.mem_append_right _ member)
  joined := spare.joined.right_of_append
  markup span member := spare.markup span (List.mem_append_right _ member)

end OpenersSpare

/-- Whether opening delimiters leave alone what the fixes write into the middle one of three texts,
which their edits make of a text that starts at the offset. -/
def Fix.Spared (pairs : List Delimiters) (fixes : List Fix) (offset : Nat) (left t right : Text) :
    Prop :=
  OpenersSpare pairs (left ++ (t ++ right))
    (Edit.landings offset left.byteLength (fixes.flatMap Fix.edits))

section Spared

variable {fixes fixes' : List Fix} {offset place : Nat} {left right s s' t t' : Text}
  {edits edits' : List Edit}

theorem Fix.Turn.spared_append (first : Fix.Turn fixes offset s edits t)
    (second : Fix.Turn fixes' place s' edits' t') (here : place = offset + s.byteLength)
    (spared : Fix.Spared pairs (fixes ++ fixes') offset left (t ++ t') right) :
    Fix.Spared pairs fixes offset left t (t' ++ right) ∧
      Fix.Spared pairs fixes' place (left ++ t) t' right := by
  subst here
  rw [Fix.Spared, first.landings_append second, List.append_assoc] at spared
  constructor
  · exact spared.left_of_append
  · rw [Fix.Spared, Text.byteLength_append, List.append_assoc]
    exact spared.right_of_append

theorem Fix.Turn.spared_left (turn : Fix.Turn fixes (offset + s.byteLength) s' edits t)
    (spared : Fix.Spared pairs fixes offset left (s ++ t) right) :
    Fix.Spared pairs fixes (offset + s.byteLength) (left ++ s) t right :=
  ((Fix.Turn.keep offset s).spared_append turn rfl spared).2

variable {tag : OpenTag} {ending : Ending} {kept closing : Text}

/-- The new end of a tag is left alone. -/
theorem Fix.Spared.mended (ends : ending ≠ .unfinished)
    (spared : Fix.Spared pairs [⟨tag.mendEdits offset ending kept closing⟩] offset left
      ((tag.mend ending).render ++ t) right) :
    OpenersApartFrom pairs (left ++ tag.head) ending.mended (t ++ right) := by
  have landed := landings_mendEdits offset left.byteLength ending kept closing tag
  have size := Text.byteLength_pos (Ending.mended_ne_nil ends)
  have spare := spared.written ⟨left.byteLength + tag.head.byteLength,
    left.byteLength + tag.head.byteLength + ending.mended.byteLength⟩ (by simp [landed])
    (Nat.lt_add_of_pos_right size)
  simpa [OpenersApartFrom, OpenTag.render_mend] using spare

/-- So is the place of the closing tag, by what begins behind the new end. -/
theorem Fix.Spared.removed (full : closing ≠ [])
    (spared : Fix.Spared pairs [⟨tag.mendEdits offset ending kept closing⟩] offset left
      ((tag.mend ending).render ++ kept) right) : OpenersApartAt pairs kept right := by
  let lead := left ++ (tag.mend ending).render
  have landed : Edit.landings offset left.byteLength
      (tag.mendEdits offset ending kept closing) =
        [⟨left.byteLength + tag.head.byteLength, lead.byteLength⟩,
          ⟨(lead ++ kept).byteLength, (lead ++ kept).byteLength⟩] := by
    simp [landings_mendEdits, full, lead, OpenTag.render_mend, Nat.add_assoc]
  have spare : OpenersSpare pairs (lead ++ (kept ++ right))
      [⟨left.byteLength + tag.head.byteLength, lead.byteLength⟩,
        ⟨(lead ++ kept).byteLength, (lead ++ kept).byteLength⟩] := by
    rw [← landed]
    simpa [Fix.Spared, lead] using spared
  constructor
  · refine ((List.isChain_pair.1 spare.joined) rfl).quiet fun front x whole some_ => ?_
    have := Text.byteLength_pos some_
    simp only [whole, Text.byteLength_append]
    omega
  · intro r c ends blank begins
    refine spare.markup _ (List.mem_cons_of_mem _ List.mem_cons_self) rfl (lead ++ r) c right ?_ ?_
      blank begins <;> simp [ends]

end Spared

namespace Outline

section Blank

variable {index : LineIndex} {parent id offset : Nat} {around : Node} {outline : Outline}

/-- Where only blank texts are inside an element, the pieces inside it are these and closing tags
that close nothing, and no report is about them. -/
private theorem blank_of_hasBlankInside
    (blank : hasBlankInside ⟨around, outline.forest index parent id offset⟩ = true) :
    (∀ piece ∈ outline.pieces, piece.isBlank = true) ∧
      ∀ isForeign, reportsIn rule isForeign (outline.forest index parent id offset) = [] := by
  -- Only blank texts are nodes that count as nothing; a stray closing tag is no node at all.
  induction outline generalizing parent id offset with
  | nil => exact ⟨by simp, fun _ => rfl⟩
  | element tag inside close next =>
    simp [forest, hasBlankInside, Tree.children, Forest.trees, OpenElement.finish] at blank
  | single piece next ih =>
    cases kind : piece.kindAt? index offset with
    | none =>
      have closing : piece.isClosing = true := by
        rw [← Piece.kindAt?_isNone index offset, kind]
        rfl
      have isBlank : piece.isBlank = true := by
        cases piece <;> simp_all [Piece.isClosing, Piece.isBlank]
      simp only [forest, kind] at blank ⊢
      obtain ⟨pieces, reports⟩ := ih blank
      refine ⟨?_, reports⟩
      simpa [isBlank] using pieces
    | some kind' =>
      simp only [forest, kind] at blank ⊢
      have both : hasBlankInside ⟨around, .cons ⟨id, some parent, ⟨offset, offset + piece.width⟩,
          index.extent ⟨offset, offset + piece.width⟩, kind'⟩ .nil .nil⟩ = true ∧
          hasBlankInside ⟨around, next.forest index parent (id + 1) (offset + piece.width)⟩ =
            true := by
        simpa [hasBlankInside, Tree.children, Forest.trees] using blank
      obtain ⟨pieces, reports⟩ := ih both.2
      cases piece with
      | text content =>
        obtain rfl := Option.some.inj kind
        refine ⟨?_, fun isForeign => ?_⟩
        · have isBlank : content.text.isBlank = true := by
            simpa [hasBlankInside, Tree.children, Forest.trees, LineIndex.contentAt] using both.1
          simpa [Piece.isBlank, isBlank] using pieces
        · simp only [reportsIn, Kind.tag?, reports]
          rfl
      | raw tag body =>
        obtain rfl := Option.some.inj kind
        simp only [hasBlankInside, Tree.children, Forest.trees] at both
        split at both <;> simp at both
      | closing _ _ _ => simp [Piece.kindAt?] at kind
      | _ =>
        obtain rfl := Option.some.inj kind
        simp [hasBlankInside, Tree.children, Forest.trees] at both

end Blank

section Turns

variable {index : LineIndex} {parent id offset : Nat} {outer : List Text} {found : List Diagnostic}

/-- Whether the fixes turn the outline into what restyles it, wherever opening delimiters leave
alone what the fixes write. -/
structure Turns (pairs : List Delimiters) (outer : List Text) (offset : Nat) (fixes : List Fix)
    (outline : Outline) (edits : List Edit) (t : Text) : Prop where
  restyles : ∀ left right : Text, Fix.Spared pairs fixes offset left t right →
    outline.Restyles pairs outer left t right
  turn : Fix.Turn fixes offset (Piece.renderAll outline.pieces) edits t
  empty : outline = nil → t = []

theorem Turns.single {fixes : List Fix} {next : Outline} {edits : List Edit} {t : Text}
    (piece : Piece) (rest : Turns pairs outer (offset + piece.width) fixes next edits t) :
    Turns pairs outer offset fixes (single piece next) edits (piece.render ++ t) :=
  ⟨fun _ _ spared => .single piece (rest.restyles _ _ (rest.turn.spared_left spared)),
    rest.turn.keep_left piece.render, by simp⟩

/-- Whether a tag of each report with a fix is found to be mended. -/
def Finds (found : List Diagnostic) (reports : List Report) : Prop :=
  ∀ report ∈ reports, report.fix?.isSome = true →
    ∃ d ∈ found, d.span = report.span ∧ d.fix.isSome = true

theorem Finds.sub {reports reports' : List Report} (finds : Finds found reports)
    (fewer : ∀ report ∈ reports', report ∈ reports) : Finds found reports' :=
  fun report member => finds report (fewer report member)

/-- A tag is found to be mended where the report about it has a fix. -/
private theorem Finds.isMended {reports : List Report} (finds : Finds found reports) {tag : OpenTag}
    {tree : Tree} {isForeign : Bool} {close : Option Token} {report : Report}
    (checked : rule.check isForeign tree (index.tagAt offset tag close) = some report)
    (member : report ∈ reports) (fixed : report.fix?.isSome = true) :
    (index.tagAt offset tag close).isMended found = true := by
  obtain ⟨d, known, same, made⟩ := finds report member fixed
  have about := (ClosingTags.check_mends closesItself_tagAt checked
    (Report.edits_ne_nil fixed)).1
  rw [Tag.isMended, List.any_eq_true]
  exact ⟨d, known, by simp [same, about, made]⟩

private theorem filterMap_first (first : Option Report) (reports : List Report) :
    (first.toList ++ reports).filterMap Report.fix? =
      (first.bind Report.fix?).toList ++ reports.filterMap Report.fix? := by
  cases first with
  | none => rfl
  | some report => cases made : report.fix? <;> simp [made]

/-- The fix of a report about a tag that has nothing inside it. -/
private theorem turns_single {tag : OpenTag} {next : Outline} {report : Report}
    {fixes : List Fix} {node : Node} {edits : List Edit} {t : Text}
    (checked : rule.check (isForeignIn outer) ⟨node, .nil⟩ (index.tagAt offset tag none) =
      some report) (fixed : report.fix?.isSome = true)
    (admits : AdmitsEnds pairs [report] offset [.opening tag])
    (apart : tag.isSelfClosing = true → isForeignIn outer = true →
      next.elements = .nil ∧ ∀ other ∈ outer, Text.sameName other tag.name = false)
    (rest : Turns pairs outer (offset + tag.render.byteLength) fixes next edits t) :
    ∃ edits t, Turns pairs outer offset (report.fix?.toList ++ fixes)
      (single (.opening tag) next) edits t := by
  -- Either end is written anew in one way; only an element it opens has to be told apart.
  have alone {ending : Ending} (mended : report.MendsTag offset tag ending [] [])
      (opens : (tag.mend ending).waitsIn outer = true →
        tag.isSelfClosing = true ∧ isForeignIn outer = true) :
      ∃ edits t, Turns pairs outer offset (report.fix?.toList ++ fixes)
        (single (.opening tag) next) edits t := by
    have turn := mended.turn
    rw [List.append_nil, List.append_nil, List.append_nil] at turn
    rw [mended.fixed]
    refine ⟨[tag.mendEdit offset ending [] []] ++ edits, (tag.mend ending).render ++ t,
      fun left right spared => ?_, ?_, by simp⟩
    · obtain ⟨first, others⟩ := turn.spared_append rest.turn rfl spared
      rw [← List.append_nil (tag.mend ending).render] at first
      refine .mend mended.ends
        (admits report (by simp) offset tag ending [] [] mended (by simp [Piece.locate]))
        (Fix.Spared.mended (t := []) mended.ends first) (fun waits => ?_)
        (rest.restyles _ _ others)
      obtain ⟨closes, foreign⟩ := opens waits
      exact apart closes foreign
    · exact turn.append rest.turn
  have nothing : (none : Option ClosingTag) = none → ([] : Text) = [] := fun _ => rfl
  rcases mendsTag_of_check nothing checked (Report.edits_ne_nil fixed) with
    ⟨_, _, mended⟩ | ⟨closes, may, mended⟩
  · -- A tag that closes itself waits for nothing.
    refine alone mended fun waits => ?_
    simp [OpenTag.waitsIn, OpenTag.isSelfClosing, OpenTag.mend] at waits
  · refine alone mended fun waits => ⟨closes, ?_⟩
    have plain : isVoidIn outer tag.name = false := by
      simp only [OpenTag.waitsIn, Bool.not_eq_true', Bool.or_eq_false_iff] at waits
      exact waits.2
    rcases may with void | foreign
    · simpa [isVoidIn, void] using plain
    · exact foreign

private theorem exists_turns_kept {tag : OpenTag} {inside next : Outline}
    {close : Option ClosingTag} {fixes fixes' : List Fix} {edits edits' : List Edit} {s t : Text}
    (nested : (element tag inside close next).Nested outer)
    (within : Turns pairs (tag.name :: outer) (offset + tag.render.byteLength) fixes inside edits s)
    (rest : Turns pairs outer (offset + tag.render.byteLength + inside.width +
      (close.map fun close => close.piece.width).getD 0) fixes' next edits' t) :
    ∃ edits t, Turns pairs outer offset (fixes ++ fixes') (element tag inside close next) edits
      t := by
  cases close with
  | none =>
    obtain rfl := nested.2.2
    obtain rfl := rest.empty rfl
    have joined := within.turn.append rest.turn
    refine ⟨edits ++ edits', tag.render ++ s, fun left right spared => ?_, ?_, by simp⟩
    · rw [← List.append_nil s] at spared
      obtain ⟨first, _⟩ := within.turn.spared_append rest.turn rfl (joined.spared_left spared)
      exact .unclosed (within.restyles _ _ first)
    · simpa [Piece.renderAll, Piece.render] using joined.keep_left tag.render
  | some close =>
    have later := rest.turn.keep_left close.piece.render
    have joined := within.turn.append later
    refine ⟨edits ++ edits', tag.render ++ (s ++ (close.piece.render ++ t)),
      fun left right spared => ?_, ?_, by simp⟩
    · obtain ⟨first, second⟩ := within.turn.spared_append later rfl (joined.spared_left spared)
      rw [List.append_assoc] at first
      exact .element close (within.restyles _ _ first)
        (rest.restyles _ _ (rest.turn.spared_left second))
    · simpa [Piece.renderAll, Piece.render] using joined.keep_left tag.render

/-- The fix of a report about an element lets it close itself. -/
private theorem exists_turns_collapse {tag : OpenTag} {inside next : Outline}
    {close : Option ClosingTag} {node : Node} {report : Report} {fixes : List Fix}
    {edits : List Edit} {t : Text} (nested : (element tag inside close next).Nested outer)
    (checked : rule.check (isForeignIn outer)
      ⟨node, inside.forest index id (id + 1) (offset + tag.render.byteLength)⟩
      (index.tagAt offset tag (close.map fun close =>
        index.tokenAt (offset + tag.render.byteLength + inside.width) close.piece.render)) =
          some report)
    (fixed : report.fix?.isSome = true)
    (admits : AdmitsEnds pairs [report] offset [.opening tag])
    (rest : Turns pairs outer (offset + tag.render.byteLength + inside.width +
      (close.map fun close => close.piece.width).getD 0) fixes next edits t) :
    reportsIn rule (isForeignIn (tag.name :: outer))
        (inside.forest index id (id + 1) (offset + tag.render.byteLength)) = [] ∧
      ∃ edits t, Turns pairs outer offset (report.fix?.toList ++ fixes)
        (element tag inside close next) edits t := by
  let kept := (close.map fun _ => Piece.renderAll inside.pieces).getD []
  have alone : close = none → kept = [] := by
    rintro rfl
    rfl
  have whole : rule.check (isForeignIn outer)
      ⟨node, inside.forest index id (id + 1) (offset + tag.render.byteLength)⟩
      (index.tagAt offset tag (close.map fun close =>
        index.tokenAt (offset + tag.render.byteLength + kept.byteLength) close.piece.render)) =
          some report := by
    cases close <;> exact checked
  rcases mendsTag_of_check alone whole (Report.edits_ne_nil fixed) with
    ⟨_, isBlank, mended⟩ | ⟨closes, _⟩
  · obtain ⟨blank, silent⟩ : _ ∧ ∀ isForeign, reportsIn rule isForeign _ = [] :=
      blank_of_hasBlankInside isBlank
    have ended := admits report (by simp) _ _ _ _ _ mended (by simp [Piece.locate])
    refine ⟨silent _, ?_⟩
    obtain ⟨closing, taken⟩ :
        ∃ closing, (close.map fun own => own.piece.render).getD [] = closing := ⟨_, rfl⟩
    rw [taken] at mended
    -- What is inside stays where it is.
    have turn : Fix.Turn [⟨tag.mendEdits offset .selfClosing kept closing⟩] offset
        (tag.render ++ (Piece.renderAll inside.pieces ++ closing))
        [tag.mendEdit offset .selfClosing kept closing]
        ((tag.mend .selfClosing).render ++ Piece.renderAll inside.pieces) := by
      cases close with
      | none =>
        subst taken
        simpa [kept] using mended.turn.keep_right (Piece.renderAll inside.pieces)
      | some close => exact mended.turn
    have here : offset + tag.render.byteLength + inside.width +
        (close.map fun close => close.piece.width).getD 0 =
          offset + (tag.render ++ (Piece.renderAll inside.pieces ++ closing)).byteLength := by
      subst taken
      cases close <;> simp [width, Piece.width, Nat.add_assoc]
    rw [mended.fixed]
    refine ⟨[tag.mendEdit offset .selfClosing kept closing] ++ edits,
      (tag.mend .selfClosing).render ++ Piece.renderAll inside.pieces ++ t,
      fun left right spared => ?_, ?_, by simp⟩
    · obtain ⟨first, others⟩ := turn.spared_append rest.turn here spared
      rw [List.append_assoc]
      refine .collapse blank ended (first.mended mended.ends) (fun given => ?_)
        (rest.restyles _ _ ?_)
      · obtain ⟨own, rfl⟩ := Option.ne_none_iff_exists'.1 given
        subst taken
        exact first.removed (by simp [ClosingTag.piece, Piece.render])
      · rwa [List.append_assoc]
    · have joined := turn.append_at here rest.turn
      subst taken
      cases close <;> simpa [Piece.renderAll, Piece.render] using joined
  · rw [isSelfClosing_of_nested nested] at closes
    contradiction

/-- A piece that nothing is inside of stays as it is, or it is a tag that its report mends. -/
private theorem exists_turns_single {piece : Piece} {next : Outline} {node : Node}
    {reports : List Report} {edits : List Edit} {t : Text}
    (kind : piece.kindAt? index offset = some node.kind)
    (mends : AdmitsEnds pairs
      ((node.kind.tag?.bind (rule.check (isForeignIn outer) ⟨node, .nil⟩)).toList ++ reports)
      offset (single piece next).pieces)
    (finds : Finds found
      ((node.kind.tag?.bind (rule.check (isForeignIn outer) ⟨node, .nil⟩)).toList ++ reports))
    (apart : (Forest.cons node .nil (next.forest index parent (id + 1)
      (offset + piece.width))).opensApart found outer = true)
    (rest : Turns pairs outer (offset + piece.width) (reports.filterMap Report.fix?) next edits t) :
    ∃ edits t, Turns pairs outer offset
      (((node.kind.tag?.bind (rule.check (isForeignIn outer) ⟨node, .nil⟩)).toList ++
        reports).filterMap Report.fix?) (single piece next) edits t := by
  rw [filterMap_first]
  cases made : (node.kind.tag?.bind (rule.check (isForeignIn outer) ⟨node, .nil⟩)).bind
    Report.fix? with
  | none => exact ⟨edits, _, rest.single piece⟩
  | some fix =>
    -- Only an element has a report, so the piece is an opening tag.
    obtain ⟨report, first, made⟩ := Option.bind_eq_some_iff.1 made
    obtain ⟨tag, isTag, checked⟩ := Option.bind_eq_some_iff.1 first
    have isElement := Kind.tag?_eq_some_iff.1 isTag
    have fixed : report.fix?.isSome = true := Option.isSome_of_eq_some made
    obtain ⟨written, rfl, rfl⟩ := Piece.opening_of_kindAt? (isElement ▸ kind)
    rw [first] at mends finds
    rw [← made]
    refine turns_single checked fixed (mends.sub [] next.pieces rfl (by simp) rfl) ?_ rest
    intro closes foreign
    obtain ⟨elements, other⟩ := Forest.apart_of_opensApart apart isElement closes
      foreign (finds.isMended checked (by simp) fixed)
    rw [elements_forest] at elements
    exact ⟨elements, other⟩

/-- The fixes of all reports about an outline turn it into one with the same elements. -/
theorem exists_turns {outline : Outline} (nested : outline.Nested outer) (full : outline.IsFull)
    (mends : AdmitsEnds pairs
      (reportsIn rule (isForeignIn outer) (outline.forest index parent id offset)) offset
      outline.pieces)
    (finds : Finds found
      (reportsIn rule (isForeignIn outer) (outline.forest index parent id offset)))
    (apart : (outline.forest index parent id offset).opensApart found outer = true) :
    ∃ edits t, Turns pairs outer offset
      ((reportsIn rule (isForeignIn outer)
        (outline.forest index parent id offset)).filterMap Report.fix?) outline edits t := by
  induction outline generalizing outer parent id offset with
  | nil => exact ⟨[], [], fun _ _ _ => .nil, .keep offset [], fun _ => rfl⟩
  | single piece next ih =>
    obtain ⟨_, nestedNext⟩ := nested
    obtain ⟨_, fullNext⟩ := full_single full
    have shape : (single piece next).pieces = [piece] ++ next.pieces ++ [] := by simp
    have width : offset + piece.width = offset + (Piece.renderAll [piece]).byteLength := by
      simp [Piece.renderAll]
    cases kind : piece.kindAt? index offset with
    | none =>
      simp only [forest, kind] at mends finds apart ⊢
      obtain ⟨edits, t, rest⟩ := ih nestedNext fullNext
        (mends.sub [piece] [] shape (fun _ member => member) width) finds apart
      exact ⟨edits, _, rest.single piece⟩
    | some kind' =>
      simp only [forest, kind, reportsIn, List.append_nil] at mends finds apart ⊢
      obtain ⟨edits, t, rest⟩ := ih nestedNext fullNext
        (mends.sub [piece] [] shape (fun _ member => List.mem_append_right _ member) width)
        (finds.sub fun _ member => List.mem_append_right _ member)
        (Forest.opensApart_cons apart).2
      exact exists_turns_single kind mends finds apart rest
  | element tag inside close next ihInside ihNext =>
    obtain ⟨_, fullInside, _, fullNext⟩ := full_element full
    obtain ⟨node, shown, _, kind, _⟩ :=
      forest_element index parent id offset tag inside close next (laid_forest _ _ _ _ _ fullInside)
    have foreign : (isForeignIn outer || node.isForeignRoot) =
        isForeignIn (tag.name :: outer) := by
      rw [isForeignRoot_of_kind kind, isForeignIn_cons]
    rw [shown, reportsIn, foreign] at mends finds ⊢
    rw [shown] at apart
    obtain ⟨apartInside, apartNext⟩ := Forest.opensApart_cons apart
    rw [kind] at apartInside
    have shapeInside : (element tag inside close next).pieces = [.opening tag] ++ inside.pieces ++
        ((close.map ClosingTag.piece).toList ++ next.pieces) := by simp
    have shapeNext : (element tag inside close next).pieces = ([.opening tag] ++ inside.pieces ++
        (close.map ClosingTag.piece).toList) ++ next.pieces ++ [] := by simp
    -- The reports are the one about the element, those inside it and those after it.
    obtain ⟨editsInside, s, within⟩ := ihInside (nested_inside nested) fullInside
      (mends.sub _ _ shapeInside (fun _ member => List.mem_append_left _
        (List.mem_append_right _ member)) (by simp [Piece.renderAll, Piece.render]))
      (finds.sub fun _ member => List.mem_append_left _ (List.mem_append_right _ member))
      apartInside
    obtain ⟨edits, t, rest⟩ := ihNext (nested_next nested) fullNext
      (mends.sub _ _ shapeNext (fun _ member => List.mem_append_right _ member) (by
        have opening : (Piece.opening tag).render = tag.render := rfl
        cases close <;> simp [Piece.renderAll, Piece.width, opening, width, Nat.add_assoc]))
      (finds.sub fun _ member => List.mem_append_right _ member) apartNext
    rw [List.append_assoc, filterMap_first, List.filterMap_append]
    cases made : (node.kind.tag?.bind (rule.check (isForeignIn outer)
      ⟨node, inside.forest index id (id + 1) (offset + tag.render.byteLength)⟩)).bind
        Report.fix? with
    | none =>
      rw [Option.toList_none, List.nil_append]
      exact exists_turns_kept nested within rest
    | some fix =>
      -- With a fix it comes to close itself, and what is inside it has no reports.
      obtain ⟨report, first, made⟩ := Option.bind_eq_some_iff.1 made
      obtain ⟨tag', isTag, checked⟩ := Option.bind_eq_some_iff.1 first
      have fixed : report.fix?.isSome = true := Option.isSome_of_eq_some made
      rw [kind] at isTag
      obtain rfl := Option.some.inj isTag
      rw [first] at mends
      obtain ⟨silent, turns⟩ := exists_turns_collapse nested checked fixed
        (mends.sub [] (inside.pieces ++ (close.map ClosingTag.piece).toList ++ next.pieces) rfl
          (by simp) rfl) rest
      rw [silent, ← made]
      exact turns

end Turns

end Outline

namespace Document

/-- Whether the fixes of the findings open no element of a foreign subtree to what comes after
it. -/
def opensApart (found : List Diagnostic) (doc : Document) : Bool :=
  doc.root.inside.opensApart found []

/-- Whether all findings can be fixed with each tag read with its new end, and with all that comes
after it where it was. -/
structure AreMendable (pairs : List Delimiters) (source : Text) (found : List Diagnostic) :
    Prop where
  /-- No last attribute goes on into the new end of its tag. -/
  admits : ∀ d ∈ found, d.fix.isSome = true → d.AdmitsEnd pairs source
  /-- In the output opening delimiters leave alone the new ends, and the places where closing tags
  were. -/
  openers : ∀ applied, applyFixes? source (Diagnostic.fixes found) = some applied →
    OpenersSpare pairs applied.output
      (Edit.landings 0 0 ((Diagnostic.fixes found).flatMap Fix.edits))
  apart : (parse pairs source).opensApart found = true

/-- Whether the element tree is the same with all findings of the rule fixed. -/
def keepsElements? (pairs : List Delimiters) (rule : ClosingTags) (source : Text) : Option Bool :=
  let found := (ActiveRule.mk (.closingTags rule) .warning).diagnostics "page.html"
    (parse pairs source)
  (applyFixes? source (Diagnostic.fixes found)).map fun applied =>
    decide ((parse pairs applied.output).elements = (parse pairs source).elements)

/-- Edits that are in order need no sorting. -/
private theorem keepsElements?_eq {pairs : List Delimiters} {rule : ClosingTags} {source : Text}
    (ordered : ∀ report ∈ rule.reports (parse pairs source),
      (report.edits.Pairwise fun a b => a.before b = true) ∧
        Fix.overlapsIn report.edits = false) :
    keepsElements? pairs rule source = (applyFixes? source
      ((rule.reports (parse pairs source)).filterMap fun report =>
        if report.edits.isEmpty then none else some ⟨report.edits⟩)).map fun applied =>
          decide ((parse pairs applied.output).elements = (parse pairs source).elements) := by
  simp only [keepsElements?, ClosingTags.fixes_eq ordered]

end Document

end TagLint
