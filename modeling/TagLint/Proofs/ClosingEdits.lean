import TagLint.Engine.FixLoop
import TagLint.Proofs.ClosingReports
import TagLint.Proofs.Splicing
import TagLint.Proofs.TagMending
import Mathlib.Data.List.Sort

/-!
The fixes of `require-closing-tags` on the pieces of a source.

A fix of the rule is about one opening tag, and applied it is one edit: the tag gets another end,
and the closing tag is taken away if the element had one, with what was between them kept.
-/
namespace TagLint

open Written (Piece OpenTag Ending)
open ClosingTags (headStop endEdits closesItself hasBlankInside)

/-- The fix that is made of a report. -/
def Report.fix? (report : Report) : Option Fix :=
  report.rawFix?.filter fun fix => !fix.hasOverlap

/-- Edits in order that do not overlap make a fix as they are. -/
theorem Report.fix?_eq {report : Report} {first : Edit} {others : List Edit}
    (edits : report.edits = first :: others)
    (ordered : (first :: others).Pairwise fun a b => a.before b = true)
    (apart : Fix.overlapsIn (first :: others) = false) :
    report.fix? = some ⟨first :: others⟩ := by
  have sorted : (first :: others).mergeSort Edit.before = first :: others :=
    List.mergeSort_of_pairwise ordered
  simp [fix?, rawFix?, Fix.ofEdits?, edits, sorted, Fix.hasOverlap, apart]

/-- The message of the reports that give a tag this end. -/
def Written.Ending.messageId : Ending → String
  | .selfClosing => "MISSING_SELF"
  | _ => "UNEXPECTED"

/-- The edits that give the tag at `place` another end, and take away the closing tag after what is
kept, if there is one. -/
def Written.OpenTag.mendEdits (place : Nat) (ending : Ending) (kept closing : Text)
    (tag : OpenTag) : List Edit :=
  ⟨place + tag.head.byteLength, place + tag.render.byteLength, ending.mended⟩ ::
    if closing.isEmpty then []
    else
      let start := place + tag.render.byteLength + kept.byteLength
      [⟨start, start + closing.byteLength, []⟩]

/-- The one edit that does what `mendEdits` do. -/
def Written.OpenTag.mendEdit (place : Nat) (ending : Ending) (kept closing : Text)
    (tag : OpenTag) : Edit :=
  ⟨place + tag.head.byteLength,
    place + tag.render.byteLength + kept.byteLength + closing.byteLength, ending.mended ++ kept⟩

section Tag

variable {index : LineIndex} {place : Nat} {tag : OpenTag} {close : Option Token}

theorem byteLength_render (tag : OpenTag) : tag.render.byteLength =
    tag.head.byteLength + (tag.gap ++ tag.ending.render).byteLength := by
  rw [OpenTag.render_eq, Text.byteLength_append]

theorem LineIndex.getLast?_attributesAt (index : LineIndex) (offset : Nat)
    (attributes : List (Text × Written.Attribute)) :
    ((index.attributesAt offset attributes).1.getLast?.map fun last => last.span.stop).getD offset =
      (index.attributesAt offset attributes).2 := by
  induction attributes generalizing offset with
  | nil => rfl
  | cons entry others ih =>
    have further := ih (index.attributeAt (offset + entry.1.byteLength) entry.2).span.stop
    simp only [attributesAt, List.getLast?_cons, Option.map_some, Option.getD_some] at further ⊢
    rw [← further]
    cases (index.attributesAt _ others).1.getLast? <;> rfl

theorem headStop_tagAt :
    headStop (index.tagAt place tag close) = place + tag.head.byteLength := by
  have last := index.getLast?_attributesAt
    (index.tokenAt place ('<' :: tag.name)).span.stop tag.attributes
  have stop := index.attributesAt_stop
    (index.tokenAt place ('<' :: tag.name)).span.stop tag.attributes
  have shown : tag.head.byteLength = Text.byteLength ('<' :: tag.name) +
      (OpenTag.renderAttributes tag.attributes).byteLength := Text.byteLength_append _ _
  rw [shown, ← Nat.add_assoc]
  refine Eq.trans ?_ (last.trans stop)
  simp only [headStop, LineIndex.tagAt]
  cases (index.attributesAt _ tag.attributes).1.getLast? <;> rfl

theorem openEnd_tagAt :
    (index.tagAt place tag close).openEnd.span.start =
      place + (tag.head ++ tag.gap).byteLength := by
  have stop := index.attributesAt_stop
    (index.tokenAt place ('<' :: tag.name)).span.stop tag.attributes
  simp only [LineIndex.tagAt, LineIndex.tokenAt] at stop ⊢
  rw [stop]
  simp only [OpenTag.head, OpenTag.renderAttributes, Text.byteLength_append]
  omega

theorem closesItself_tagAt :
    closesItself (index.tagAt place tag close) = (index.tagAt place tag close).isSelfClosing := by
  simp only [closesItself, LineIndex.tagAt, LineIndex.tokenAt, OpenTag.isSelfClosing]
  cases tag.ending <;> rfl

end Tag

section Edits

variable {place : Nat} {ending : Ending} {kept closing : Text} {tag : OpenTag}

theorem rewrites_mendEdit (place : Nat) (ending : Ending) (kept closing : Text) (tag : OpenTag) :
    Edit.Rewrites place (tag.render ++ (kept ++ closing)) [tag.mendEdit place ending kept closing]
      ((tag.mend ending).render ++ kept) := by
  have replaced := Edit.Rewrites.replace (place + tag.head.byteLength)
    (tag.gap ++ tag.ending.render ++ (kept ++ closing)) (ending.mended ++ kept)
  have ends : place + tag.head.byteLength +
      (tag.gap ++ tag.ending.render ++ (kept ++ closing)).byteLength =
        place + tag.render.byteLength + kept.byteLength + closing.byteLength := by
    rw [byteLength_render]
    simp only [Text.byteLength_append]
    omega
  rw [ends] at replaced
  have whole := replaced.keep_left tag.head
  rw [OpenTag.render_eq, OpenTag.render_mend, List.append_assoc, List.append_assoc tag.head]
  exact whole

/-- The end of the tag is written anew, what the element has is kept, and its closing tag goes. -/
private theorem rewrites_mendEdits (place : Nat) (ending : Ending) (kept closing : Text)
    (tag : OpenTag) :
    Edit.Rewrites (place + tag.head.byteLength) (tag.gap ++ tag.ending.render ++ (kept ++ closing))
      (tag.mendEdits place ending kept closing) (ending.mended ++ kept) := by
  have first := Edit.Rewrites.replace (place + tag.head.byteLength)
    (tag.gap ++ tag.ending.render) ending.mended
  have start : place + tag.head.byteLength + (tag.gap ++ tag.ending.render).byteLength =
      place + tag.render.byteLength := by
    rw [byteLength_render, Nat.add_assoc]
  rw [start] at first
  cases closing with
  | nil =>
    rw [List.append_nil]
    exact first.append (.keep _ kept)
  | cons c closing =>
    have last := Edit.Rewrites.replace (place + tag.render.byteLength + kept.byteLength)
      (c :: closing) []
    rw [← start] at last
    have joined := first.append (last.keep_left kept)
    rw [start, List.append_nil] at joined
    exact joined

theorem rewrites_render_mendEdits (place : Nat) (ending : Ending) (kept closing : Text)
    (tag : OpenTag) :
    Edit.Rewrites place (tag.render ++ (kept ++ closing)) (tag.mendEdits place ending kept closing)
      ((tag.mend ending).render ++ kept) := by
  have whole := (rewrites_mendEdits place ending kept closing tag).keep_left tag.head
  rw [OpenTag.render_eq, OpenTag.render_mend, List.append_assoc, List.append_assoc tag.head]
  exact whole

/-- The new end lands behind the head of the tag, and the closing tag is gone behind what is
kept. -/
theorem landings_mendEdits (place out : Nat) (ending : Ending) (kept closing : Text)
    (tag : OpenTag) :
    Edit.landings place out (tag.mendEdits place ending kept closing) =
      ⟨out + tag.head.byteLength, out + tag.head.byteLength + ending.mended.byteLength⟩ ::
        if closing.isEmpty then []
        else
          let start := out + (tag.mend ending).render.byteLength + kept.byteLength
          [⟨start, start⟩] := by
  have width : (tag.mend ending).render.byteLength =
      tag.head.byteLength + ending.mended.byteLength := by
    rw [OpenTag.render_mend, Text.byteLength_append]
  cases closing with
  | nil => simp [OpenTag.mendEdits, Edit.landings]
  | cons c closing =>
    have second (n : Nat) : n + kept.byteLength - n = kept.byteLength := by omega
    simp [OpenTag.mendEdits, Edit.landings, second, width, ← Nat.add_assoc]

/-- The edits that give a tag another end, and what is taken with it, merge into one. -/
private theorem merged?_mendEdits (alone : closing = [] → kept = []) {before : Text}
    (here : before.byteLength = place) (after : Text) :
    (Fix.mk (tag.mendEdits place ending kept closing)).merged?
        (before ++ (tag.render ++ (kept ++ closing)) ++ after) =
      some (tag.mendEdit place ending kept closing) := by
  have start : (before ++ tag.head).byteLength = place + tag.head.byteLength := by
    rw [Text.byteLength_append, here]
  have width := byteLength_render tag
  have stop : (before ++ tag.head ++
      (tag.gap ++ tag.ending.render ++ (kept ++ closing))).byteLength =
        place + tag.render.byteLength + kept.byteLength + closing.byteLength := by
    rw [width]
    simp only [Text.byteLength_append] at start ⊢
    omega
  have range : (Fix.mk (tag.mendEdits place ending kept closing)).span =
      (tag.mendEdit place ending kept closing).span := by
    cases closing with
    | nil => simp [Fix.span, OpenTag.mendEdits, OpenTag.mendEdit, Edit.span, alone]
    | cons c closing =>
      simp only [Fix.span, OpenTag.mendEdits, OpenTag.mendEdit, Edit.span, List.isEmpty_cons,
        Bool.false_eq_true, if_false, List.map_cons, List.map_nil, List.min?_cons, List.max?_cons]
      simp
      omega
  have rewrites := rewrites_mendEdits place ending kept closing tag
  rw [← start] at rewrites
  have merged := rewrites.merged?_eq (by rw [range, start, stop]; rfl) after
  have shown : before ++ tag.head ++ (tag.gap ++ tag.ending.render ++ (kept ++ closing)) ++ after =
      before ++ (tag.render ++ (kept ++ closing)) ++ after := by
    rw [OpenTag.render_eq]
    simp
  rw [start, stop, shown] at merged
  exact merged

end Edits

/-- Whether the report is about the end of the tag at `place`, and its fix gives the tag this end
and takes away the closing tag after what is kept. -/
structure Report.MendsTag (report : Report) (place : Nat) (tag : OpenTag) (ending : Ending)
    (kept closing : Text) : Prop where
  ends : ending ≠ .unfinished
  message : report.messageId = ending.messageId
  stop : report.span.stop = place + tag.render.byteLength
  alone : closing = [] → kept = []
  fixed : report.fix? = some ⟨tag.mendEdits place ending kept closing⟩

/-- The fix of a report about a tag turns the tag, and what is taken with it, into the mended
one. -/
theorem Report.MendsTag.turn {report : Report} {place : Nat} {tag : OpenTag} {ending : Ending}
    {kept closing : Text} (mends : report.MendsTag place tag ending kept closing) :
    Fix.Turn [⟨tag.mendEdits place ending kept closing⟩] place (tag.render ++ (kept ++ closing))
      [tag.mendEdit place ending kept closing] ((tag.mend ending).render ++ kept) := by
  have width := byteLength_render tag
  have named : 0 < tag.head.byteLength := by
    rw [OpenTag.head, List.cons_append, Text.byteLength_cons]
    have := Char.utf8Size_pos '<'
    omega
  refine ⟨?_, rewrites_mendEdit place ending kept closing tag, ?_, ⟨?_, ?_⟩, ?_⟩
  · intro before after here
    rw [List.mapM_cons, merged?_mendEdits mends.alone here after]
    rfl
  · simpa using rewrites_render_mendEdits place ending kept closing tag
  · simp only [List.mem_singleton, forall_eq, OpenTag.mendEdit]
    omega
  · exact List.pairwise_singleton _ _
  · simp only [List.mem_singleton, forall_eq, OpenTag.mendEdit, Text.byteLength_append]
    omega

section Fix

variable {index : LineIndex} {place : Nat} {tag : OpenTag} {close : Option Token} {report : Report}

theorem fix?_alone {ending : Ending}
    (edits : report.edits = endEdits (index.tagAt place tag close) ending.mended none) :
    report.fix? = some ⟨tag.mendEdits place ending [] []⟩ := by
  simp only [endEdits, headStop_tagAt, LineIndex.tagAt_stop, Option.toList_none, List.map_nil]
    at edits
  exact Report.fix?_eq edits (List.pairwise_singleton _ _) rfl

theorem fix?_closed {ending : Ending} {kept closing : Text} (full : closing ≠ [])
    (edits : report.edits = endEdits (index.tagAt place tag close) ending.mended
      (some (index.tokenAt (place + tag.render.byteLength + kept.byteLength) closing))) :
    report.fix? = some ⟨tag.mendEdits place ending kept closing⟩ := by
  have width := byteLength_render tag
  obtain ⟨c, closing, rfl⟩ := List.exists_cons_of_ne_nil full
  simp only [endEdits, headStop_tagAt, LineIndex.tagAt_stop, Option.toList_some, List.map_cons,
    List.map_nil, LineIndex.tokenAt, Edit.remove, Edit.replace] at edits
  have after : ¬place + tag.render.byteLength + kept.byteLength <
      place + tag.render.byteLength := by omega
  refine (Report.fix?_eq edits ?_ (by simp [Fix.overlapsIn, after]) :)
  rw [List.pairwise_pair]
  simp only [Edit.before, Bool.or_eq_true, decide_eq_true_eq, Bool.and_eq_true, beq_iff_eq]
  omega

/-- A report with edits about an element lets it close itself, if only blanks are inside it, or lets
it no longer do so. -/
theorem mendsTag_of_check {rule : ClosingTags} {isForeign : Bool} {tree : Tree}
    {own : Option ClosingTag} {kept : Text} (alone : own = none → kept = [])
    (found : rule.check isForeign tree (index.tagAt place tag (own.map fun own =>
      index.tokenAt (place + tag.render.byteLength + kept.byteLength) own.piece.render)) =
        some report) (edited : report.edits ≠ []) :
    (tag.isSelfClosing = false ∧ hasBlankInside tree = true ∧
        report.MendsTag place tag .selfClosing kept
          ((own.map fun own => own.piece.render).getD [])) ∨
      (tag.isSelfClosing = true ∧ (isVoidName tag.name = true ∨ isForeign = true) ∧
        report.MendsTag place tag .plain [] []) := by
  obtain ⟨span, mends⟩ := ClosingTags.check_mends closesItself_tagAt found edited
  have stop : report.span.stop = place + tag.render.byteLength := by
    rw [span, LineIndex.tagAt_stop]
  cases mends with
  | collapse message plain blank edits =>
    rw [closesItself_tagAt] at plain
    cases own with
    | none =>
      obtain rfl := alone rfl
      exact Or.inl ⟨plain, blank, by decide, message, stop, fun _ => rfl, fix?_alone edits⟩
    | some own =>
      have full : own.piece.render ≠ [] := by simp [ClosingTag.piece, Piece.render]
      exact Or.inl ⟨plain, blank, by decide, message, stop, fun empty => absurd empty full,
        fix?_closed full edits⟩
  | unslash message closes may edits =>
    rw [closesItself_tagAt] at closes
    exact Or.inr ⟨closes, may, by decide, message, stop, fun _ => rfl, fix?_alone edits⟩

end Fix

/-- Whether the report is about one of the trees, and mends its opening tag, which is one of the
pieces. -/
inductive Report.MendsIn (index : LineIndex) (offset : Nat) (pieces : List Piece)
    (trees : List Tree) (report : Report) : Prop where
  | intro (before after : List Piece) {tag : OpenTag} {ending : Ending} {kept closing : Text}
      (rest : Text) {tree : Tree} {close : Option Token}
      (split : pieces = before ++ .opening tag :: after)
      (follows : Piece.renderAll after = kept ++ closing ++ rest)
      (mends : report.MendsTag (offset + (Piece.renderAll before).byteLength) tag ending kept
        closing)
      (member : tree ∈ trees)
      (kind : tree.node.kind =
        .element (index.tagAt (offset + (Piece.renderAll before).byteLength) tag close))
      (span : report.span =
        (index.tagAt (offset + (Piece.renderAll before).byteLength) tag close).openEnd.span)

namespace Outline

open ClosingTags (reportsIn)

theorem isSelfClosing_of_nested {outer : List Text} {tag : OpenTag} {inside next : Outline}
    {close : Option ClosingTag} (nested : (element tag inside close next).Nested outer) :
    tag.isSelfClosing = false := by
  cases close with
  | none =>
    have waits := nested.1
    simp only [OpenTag.waitsIn, Bool.not_eq_true', Bool.or_eq_false_iff] at waits
    exact waits.1
  | some close =>
    rcases nested.2.1 with ⟨waits, _⟩ | ⟨plain, _⟩
    · simp only [OpenTag.waitsIn, Bool.not_eq_true', Bool.or_eq_false_iff] at waits
      exact waits.1
    · exact plain

variable {index : LineIndex} {offset : Nat} {report : Report} {rule : ClosingTags}

/-- What mends a tag of some pieces mends it among more of them. -/
private theorem mendsIn_append {pieces : List Piece} {trees trees' : List Tree} {place : Nat}
    (mends : report.MendsIn index place pieces trees) (front back : List Piece)
    (here : place = offset + (Piece.renderAll front).byteLength)
    (more : ∀ tree ∈ trees, tree ∈ trees') :
    report.MendsIn index offset (front ++ pieces ++ back) trees' := by
  subst here
  obtain ⟨before, after, rest, split, follows, mends, member, kind, span⟩ := mends
  have joined : offset + (Piece.renderAll (front ++ before)).byteLength =
      offset + (Piece.renderAll front).byteLength + (Piece.renderAll before).byteLength := by
    rw [Piece.renderAll_append, Text.byteLength_append, Nat.add_assoc]
  rw [← joined] at mends kind span
  refine .intro (front ++ before) (after ++ back) (rest ++ Piece.renderAll back) ?_ ?_ mends
    (more _ member) kind span
  · rw [split]
    simp
  · rw [Piece.renderAll_append, follows]
    simp

private theorem mendsIn_here {tag : OpenTag} (own : Option ClosingTag) (kept rest : Text)
    {after : List Piece} {isForeign : Bool} {tree : Tree} {trees : List Tree}
    (alone : own = none → kept = [])
    (follows : Piece.renderAll after =
      kept ++ (own.map fun own => own.piece.render).getD [] ++ rest)
    (member : tree ∈ trees)
    (kind : tree.node.kind = .element (index.tagAt offset tag (own.map fun own =>
      index.tokenAt (offset + tag.render.byteLength + kept.byteLength) own.piece.render)))
    (found : report ∈ (tree.node.kind.tag?.bind (rule.check isForeign tree)).toList)
    (edited : report.edits ≠ []) :
    report.MendsIn index offset (.opening tag :: after) trees := by
  rw [kind, Option.mem_toList] at found
  have found := Option.mem_def.1 found
  have span := (ClosingTags.check_mends closesItself_tagAt found edited).1
  rcases mendsTag_of_check alone found edited with ⟨_, _, mends⟩ | ⟨_, _, mends⟩
  · exact .intro [] after rest rfl follows mends member kind span
  · exact .intro [] after (Piece.renderAll after) rfl rfl mends member kind span

/-- A piece that stands alone and has a report is an opening tag, with nothing to remove after
it. -/
private theorem mendsIn_single {piece : Piece} {kind : Kind} {next : Outline} {isForeign : Bool}
    {tree : Tree} {trees : List Tree} (shown : piece.kindAt? index offset = some kind)
    (member : tree ∈ trees) (own : tree.node.kind = kind)
    (found : report ∈ (tree.node.kind.tag?.bind (rule.check isForeign tree)).toList)
    (edited : report.edits ≠ []) :
    report.MendsIn index offset (single piece next).pieces trees := by
  obtain ⟨tag, isTag, _⟩ := Option.bind_eq_some_iff.1 (Option.mem_toList.1 found)
  rw [own, Kind.tag?_eq_some_iff] at isTag
  obtain ⟨written, rfl, rfl⟩ := Piece.opening_of_kindAt? (isTag ▸ shown)
  obtain rfl := Option.some.inj shown
  exact mendsIn_here none [] (Piece.renderAll next.pieces) (fun _ => rfl) rfl member own found
    edited

/-- A report with edits mends the opening tag of an element. -/
theorem mendsIn_of_mem {outer : List Text} {outline : Outline} (nested : outline.Nested outer)
    (full : outline.IsFull) {isForeign : Bool} {parent id : Nat}
    (member : report ∈ reportsIn rule isForeign (outline.forest index parent id offset))
    (edited : report.edits ≠ []) :
    report.MendsIn index offset outline.pieces
      (outline.forest index parent id offset).subtrees := by
  induction outline generalizing outer isForeign parent id offset with
  | nil => simp [forest, reportsIn] at member
  | single piece next ih =>
    obtain ⟨_, nestedNext⟩ := nested
    obtain ⟨_, fullNext⟩ := full_single full
    have width : offset + piece.width = offset + (Piece.renderAll [piece]).byteLength := by
      simp [Piece.renderAll]
    have shape : (single piece next).pieces = [piece] ++ next.pieces ++ [] := by simp
    have later {id : Nat} {trees : List Tree}
        (member : report ∈ reportsIn rule isForeign
          (next.forest index parent id (offset + piece.width)))
        (more : ∀ tree ∈ (next.forest index parent id (offset + piece.width)).subtrees,
          tree ∈ trees) : report.MendsIn index offset (single piece next).pieces trees := by
      rw [shape]
      exact mendsIn_append (ih nestedNext fullNext member) [piece] [] width more
    cases kind : piece.kindAt? index offset with
    | none =>
      simp only [forest, kind] at member ⊢
      exact later member fun _ within => within
    | some kind' =>
      simp only [forest, kind, reportsIn, List.mem_append, List.append_nil] at member ⊢
      rcases member with here | further
      · exact mendsIn_single kind (Forest.mem_subtrees_cons.2 (Or.inl rfl)) rfl here edited
      · exact later further fun _ within => Forest.mem_subtrees_cons.2 (Or.inr (Or.inr within))
  | element tag inside close next ihInside ihNext =>
    obtain ⟨_, fullInside, _, fullNext⟩ := full_element full
    obtain ⟨node, shown, _, kind, _⟩ :=
      forest_element index parent id offset tag inside close next (laid_forest _ _ _ _ _ fullInside)
    rw [shown, reportsIn, List.mem_append, List.mem_append] at member
    rw [shown]
    rcases member with (here | within) | later
    · -- What is removed up to the closing tag is all that is inside the element.
      cases close with
      | none =>
        exact mendsIn_here none [] _ (fun _ => rfl) rfl (Forest.mem_subtrees_cons.2 (Or.inl rfl))
          kind here edited
      | some own =>
        refine mendsIn_here (some own) (Piece.renderAll inside.pieces)
          (Piece.renderAll next.pieces) (by simp) ?_ (Forest.mem_subtrees_cons.2 (Or.inl rfl)) kind
          here edited
        simp [Piece.renderAll]
    -- Further in or further on, the pieces before the element only move its tag along.
    · have shape : (element tag inside close next).pieces = [.opening tag] ++ inside.pieces ++
          ((close.map ClosingTag.piece).toList ++ next.pieces) := by simp
      rw [shape]
      refine mendsIn_append (ihInside (nested_inside nested) fullInside within) _ _ ?_
        fun _ deeper => Forest.mem_subtrees_cons.2 (Or.inr (Or.inl deeper))
      simp [Piece.renderAll, Piece.render]
    · have shape : (element tag inside close next).pieces = [.opening tag] ++ inside.pieces ++
          (close.map ClosingTag.piece).toList ++ next.pieces ++ [] := by simp
      rw [shape]
      refine mendsIn_append (ihNext (nested_next nested) fullNext later) _ _ ?_
        fun _ further => Forest.mem_subtrees_cons.2 (Or.inr (Or.inr further))
      have opening : (Piece.opening tag).render = tag.render := rfl
      cases close <;> simp [Piece.renderAll, Piece.width, opening, width, Nat.add_assoc]

end Outline

end TagLint
