import TagLint.Proofs.ForeignSubtrees
import TagLint.Proofs.ReportPlaces

/-!
Which line breaks `element-newline` asks for, said of the finished tree.

The rule walks the tree once: it reports on the way, and hands up whether something inside an
element wants a line of its own. Here the reports are told without a walk. A break is due between
two neighbours inside the document or a visible element, or at an end of the content of a visible
element that wants a line and has something inside that wants one; these breaks are reported, and
no others, each of them once (`ElementNewline.reportsDue_parse`).
-/
namespace TagLint

open Written (Piece)

/-- Whether the tree is an element without a closing tag. -/
def Tree.IsUnclosed (tree : Tree) : Prop :=
  ∃ tag, tree.node.kind = .element tag ∧ tag.close = none

/-- Whether the tree ends with blanks that break the line: the last node in it is a text with such
blanks at its end, and no element around this text has a closing tag. -/
def Tree.EndsBroken (tree : Tree) : Prop :=
  ∃ last ∈ tree.subtrees.getLast?,
    (∃ content, last.node.kind = .text content ∧
      content.text.trailingBlanks.hasLineBreak = true) ∧
    ∀ around ∈ tree.subtrees, last ∈ around.inside.subtrees → around.IsUnclosed

namespace ElementNewline

/-- Whether nothing breaks the line between the two neighbours. -/
structure Meets (a b : Tree) : Prop where
  line : a.node.extent.stop.line = b.node.extent.start.line
  earlier : ¬a.EndsBroken
  later : startsWithBreak b.node.kind = false

variable (rule : ElementNewline)

/-- Whether the tree is an element whose content is left alone. -/
def IsSkipped (tree : Tree) : Prop :=
  ∃ tag, tree.node.kind = .element tag ∧ rule.skips tag = true

/-- Whether the tree is an element in the forest with the tag, and is not left alone; nor is any
element around it. -/
structure IsVisible (forest : Forest) (tree : Tree) (tag : Tag) : Prop where
  member : tree ∈ forest.subtrees
  kind : tree.node.kind = .element tag
  own : rule.skips tag = false
  around : ¬forest.HasAround rule.IsSkipped tree

/-- Whether something in the forest that is no blank text wants a line of its own, and no element
around it is left alone. -/
def HasWish (forest : Forest) : Prop :=
  ∃ tree ∈ forest.subtrees, ¬forest.HasAround rule.IsSkipped tree ∧
    isBlankText tree.node.kind = false ∧ rule.wantsLine tree.node.kind = true

/-- The content of the document, or of a visible element in it. -/
inductive IsGroup (forest : Forest) : Forest → Prop where
  | document : IsGroup forest forest
  | element {tree : Tree} {tag : Tag} (visible : rule.IsVisible forest tree tag) :
      IsGroup forest tree.inside

/-- The reports that are due about a document with this content. -/
inductive IsDue (forest : Forest) : Report → Prop where
  /-- A line break after a neighbour that wants one. -/
  | after {group : Forest} {a b : Tree} (inside : rule.IsGroup forest group)
      (neighbours : [a, b] <:+: solid group) (meets : Meets a b)
      (wants : rule.wantsLine a.node.kind = true) :
      IsDue forest (gapReport a.node.span b.node.span a.node.extent b.node.extent
        "EXPECT_NEW_LINE_AFTER" (label a.node.kind) (Edit.insertAfter a.node.span ['\n']))
  /-- A line break before a neighbour that wants one, after one that does not. -/
  | before {group : Forest} {a b : Tree} (inside : rule.IsGroup forest group)
      (neighbours : [a, b] <:+: solid group) (meets : Meets a b)
      (plain : rule.wantsLine a.node.kind = false)
      (wants : rule.wantsLine b.node.kind = true) :
      IsDue forest (gapReport a.node.span b.node.span a.node.extent b.node.extent
        "EXPECT_NEW_LINE_BEFORE" (label b.node.kind) (Edit.insertBefore b.node.span ['\n']))
  /-- A line break after the opening tag of an element that wants one. -/
  | afterOpen {tree first : Tree} {tag : Tag} (visible : rule.IsVisible forest tree tag)
      (wants : rule.wantsLine tree.node.kind = true) (below : rule.HasWish tree.inside)
      (head : (solid tree.inside).head? = some first)
      (line : tag.openEnd.extent.stop.line = first.node.extent.start.line)
      (unbroken : startsWithBreak first.node.kind = false) :
      IsDue forest (gapReport tag.openEnd.span first.node.span tag.openEnd.extent
        first.node.extent "EXPECT_NEW_LINE_AFTER_OPEN" (label (.element tag))
        (Edit.insertAfter tag.openEnd.span ['\n']))
  /-- A line break before the closing tag of an element that wants one. -/
  | beforeClose {tree last : Tree} {tag : Tag} {close : Token}
      (visible : rule.IsVisible forest tree tag)
      (wants : rule.wantsLine tree.node.kind = true) (below : rule.HasWish tree.inside)
      (final : (solid tree.inside).getLast? = some last) (closes : tag.close = some close)
      (line : last.node.extent.stop.line = close.extent.start.line)
      (unbroken : ¬last.EndsBroken) :
      IsDue forest (gapReport last.node.span close.span last.node.extent close.extent
        "EXPECT_NEW_LINE_BEFORE_CLOSE" (label (.element tag))
        (Edit.insertBefore close.span ['\n']))

/-- Whether what is reported about the document is what is due. -/
structure ReportsDue (doc : Document) : Prop where
  due : ∀ report, report ∈ rule.reports doc ↔ rule.IsDue doc.root.inside report
  once : (rule.reports doc).Nodup
  /-- No line break is asked for twice. -/
  apart : ((rule.reports doc).map Report.edits).Nodup

end ElementNewline

section Ends

open ElementNewline

variable {forest : Forest} {parent id lo hi : Nat}

/-- A tree in a laid forest is laid by itself. -/
theorem Forest.Laid.exists_alone (laid : forest.Laid parent id lo hi) {tree : Tree}
    (member : tree ∈ forest.subtrees) :
    ∃ parent id, (Forest.cons tree.node tree.inside .nil).Laid parent id tree.node.span.start
      tree.node.span.stop := by
  induction forest generalizing parent id lo hi with
  | nil => simp [Forest.subtrees] at member
  | cons node inside next ihInside ihNext =>
    obtain ⟨ids, ⟨_, long⟩, kinds, within, later⟩ := laid
    rcases Forest.mem_subtrees_cons.1 member with rfl | deeper | more
    · exact ⟨_, _, ids, ⟨Nat.le_refl _, long⟩, kinds, within, Nat.le_refl _⟩
    · exact ihInside within deeper
    · exact ihNext later more

/-- Only an element has something inside. -/
theorem Forest.Laid.inside_eq_nil {node : Node} {inside next : Forest}
    (laid : (Forest.cons node inside next).Laid parent id lo hi) (plain : node.kind.tag? = none) :
    inside = .nil := by
  by_contra full
  have element := laid.2.2.1.2 full
  rw [plain] at element
  contradiction

/-- The last tree ends with a break just where the last node of the forest does and nothing closes
after it. -/
theorem ElementNewline.lastEndsWithBreak_iff (laid : forest.Laid parent id lo hi) :
    lastEndsWithBreak forest = true ↔ ∃ last ∈ forest.subtrees.getLast?,
      (∃ content, last.node.kind = .text content ∧
        content.text.trailingBlanks.hasLineBreak = true) ∧
      ¬forest.HasAround (fun around => ¬around.IsUnclosed) last := by
  fun_induction lastEndsWithBreak forest generalizing parent id lo hi with
  | case1 => simp [Forest.subtrees]
  | case2 node inside content kind =>
    obtain rfl := laid.inside_eq_nil (by rw [kind]; rfl)
    have clear : ¬Forest.HasAround (fun around => ¬around.IsUnclosed) (.cons node .nil .nil)
        ⟨node, .nil⟩ := Forest.not_hasAround_head laid
    simp [Forest.subtrees, kind, clear]
  | case3 node inside tag kind ih =>
    have within := ih laid.2.2.2.1
    have unclosed : Tree.IsUnclosed ⟨node, inside⟩ ↔ tag.close = none := by
      simp [Tree.IsUnclosed, kind]
    rw [Bool.and_eq_true, within, Option.isNone_iff_eq_none, Forest.subtrees, Forest.subtrees,
      List.append_nil, List.getLast?_cons]
    -- The last node in an element is the last one inside it; without one it is the element itself,
    -- which is no text.
    cases shown : inside.subtrees.getLast? with
    | none => simp [kind]
    | some last =>
      have around : Forest.HasAround (fun around => ¬around.IsUnclosed) (.cons node inside .nil)
          last ↔ ¬Tree.IsUnclosed ⟨node, inside⟩ ∨
            inside.HasAround (fun around => ¬around.IsUnclosed) last :=
        Forest.hasAround_inside laid (List.mem_of_getLast? shown)
      simp only [Option.getD_some, Option.mem_some_iff, exists_eq_left', around, unclosed, not_or,
        not_not]
      exact ⟨fun both => ⟨both.2.1, both.1, both.2.2⟩, fun both => ⟨both.2.1, both.1, both.2.2⟩⟩
  | case4 node inside plain other =>
    have kind : node.kind.tag? = none := by
      cases shown : node.kind with
      | element tag => exact absurd shown (other tag)
      | _ => rfl
    obtain rfl := laid.inside_eq_nil kind
    have text (content : Content) : node.kind ≠ .text content := plain content
    simp [Forest.subtrees, text]
  | case5 node inside node' inside' next ih =>
    -- What comes before the last trees is not around any node in them.
    have later := laid.2.2.2.2
    rw [ih later]
    have full : (Forest.cons node' inside' next).subtrees ≠ [] := by simp [Forest.subtrees]
    have last : (Forest.cons node inside (.cons node' inside' next)).subtrees.getLast? =
        (Forest.cons node' inside' next).subtrees.getLast? := by
      rw [Forest.subtrees, List.getLast?_cons_of_ne_nil (by simp [full]),
        List.getLast?_append_of_ne_nil _ full]
    rw [last]
    refine exists_congr fun own => and_congr_right fun final => and_congr_right fun _ => ?_
    rw [Forest.hasAround_next laid (List.mem_of_getLast? final)]

theorem ElementNewline.endsWithBreak_iff (laid : forest.Laid parent id lo hi) {tree : Tree}
    (member : tree ∈ forest.subtrees) : endsWithBreak tree = true ↔ tree.EndsBroken := by
  obtain ⟨parent, id, alone⟩ := laid.exists_alone member
  have listed : (Forest.cons tree.node tree.inside .nil).subtrees = tree.subtrees := by
    simp [Forest.subtrees, Tree.subtrees]
  rw [endsWithBreak, lastEndsWithBreak_iff alone, Tree.EndsBroken]
  simp only [Forest.HasAround, listed, not_exists, not_and, not_not]

end Ends

namespace ElementNewline

variable {rule : ElementNewline} {forest : Forest} {parent id lo hi : Nat} {report : Report}

/-- The reports about an element, without those about what is further inside. -/
def ownReports (rule : ElementNewline) (tree : Tree) (tag : Tag) : List Report :=
  rule.checkPairs (solid tree.inside) ++
    if rule.wantsLine tree.node.kind && (rule.checkInside tree.inside).2 then
      checkEdges tag (solid tree.inside)
    else []

/-- What checking the first tree adds to checking the others. -/
theorem checkInside_cons {node : Node} {inside next : Forest}
    (laid : (Forest.cons node inside next).Laid parent id lo hi) :
    (∀ report, report ∈ (rule.checkInside (.cons node inside next)).1 ↔
      (∃ tag, node.kind = .element tag ∧ rule.skips tag = false ∧
        report ∈ rule.ownReports ⟨node, inside⟩ tag) ∨
      (¬rule.IsSkipped ⟨node, inside⟩ ∧ report ∈ (rule.checkInside inside).1) ∨
      report ∈ (rule.checkInside next).1) ∧
    ((rule.checkInside (.cons node inside next)).2 = true ↔
      (isBlankText node.kind = false ∧ rule.wantsLine node.kind = true) ∨
      (¬rule.IsSkipped ⟨node, inside⟩ ∧ (rule.checkInside inside).2 = true) ∨
      (rule.checkInside next).2 = true) := by
  cases own : node.kind.tag? with
  | none =>
    -- Nothing is inside a blank text or any other node that is no element.
    obtain rfl := laid.inside_eq_nil own
    have plain (tag : Tag) : node.kind ≠ .element tag := by
      intro kind
      rw [kind] at own
      contradiction
    cases blank : isBlankText node.kind <;> simp [checkInside, blank, own, plain]
  | some tag =>
    have kind : node.kind = .element tag := Kind.tag?_eq_some_iff.1 own
    have solid_ : isBlankText (.element tag) = false := rfl
    -- A skipped element counts for itself, but not for what is inside it.
    cases skips : rule.skips tag with
    | true =>
      have skipped : rule.IsSkipped ⟨node, inside⟩ := ⟨tag, kind, skips⟩
      simp [checkInside, kind, solid_, Kind.tag?, skips, skipped]
    | false =>
      have entered : ¬rule.IsSkipped ⟨node, inside⟩ := by
        rintro ⟨other, same, left⟩
        obtain rfl := Kind.element.inj (kind.symm.trans same)
        rw [skips] at left
        contradiction
      constructor
      · intro report
        simp only [checkInside, kind, solid_, Bool.false_eq_true, if_false, Kind.tag?, skips,
          List.mem_append, ownReports, entered, not_false_eq_true, true_and, Kind.element.injEq,
          exists_eq_left']
        tauto
      · simp [checkInside, kind, solid_, Kind.tag?, skips, entered, or_assoc]

/-- Whether something inside an element wants a line is handed up to it. -/
theorem checkInside_snd_iff (laid : forest.Laid parent id lo hi) :
    (rule.checkInside forest).2 = true ↔ rule.HasWish forest := by
  induction forest generalizing parent id lo hi with
  | nil => simp [checkInside, HasWish, Forest.subtrees]
  | cons node inside next ihInside ihNext =>
    rw [HasWish, Forest.exists_clear_cons laid, ← HasWish, ← HasWish, ← ihInside laid.2.2.2.1,
      ← ihNext laid.2.2.2.2]
    exact (checkInside_cons laid).2

/-- What is reported inside the trees are the reports about the visible elements. -/
theorem mem_checkInside_iff (laid : forest.Laid parent id lo hi) :
    report ∈ (rule.checkInside forest).1 ↔
      ∃ tree tag, rule.IsVisible forest tree tag ∧ report ∈ rule.ownReports tree tag := by
  suffices reported : report ∈ (rule.checkInside forest).1 ↔
      ∃ tree ∈ forest.subtrees, ¬forest.HasAround rule.IsSkipped tree ∧
        ∃ tag, tree.node.kind = .element tag ∧ rule.skips tag = false ∧
          report ∈ rule.ownReports tree tag by
    rw [reported]
    constructor
    · rintro ⟨tree, member, around, tag, kind, own, reported⟩
      exact ⟨tree, tag, ⟨member, kind, own, around⟩, reported⟩
    · rintro ⟨tree, tag, ⟨member, kind, own, around⟩, reported⟩
      exact ⟨tree, member, around, tag, kind, own, reported⟩
  induction forest generalizing parent id lo hi with
  | nil => simp [checkInside, Forest.subtrees]
  | cons node inside next ihInside ihNext =>
    have below := ihInside laid.2.2.2.1
    have others := ihNext laid.2.2.2.2
    rw [Forest.exists_clear_cons laid, ← below, ← others]
    exact (checkInside_cons laid).1 report

/-- What is reported about neighbours is reported about two that stand next to each other. -/
theorem mem_checkPairs_iff {trees : List Tree} :
    report ∈ rule.checkPairs trees ↔
      ∃ a b, [a, b] <:+: trees ∧ rule.checkPair a b = some report := by
  induction trees with
  | nil => simp [checkPairs]
  | cons a others ih =>
    cases others with
    | nil => simp [checkPairs, List.infix_cons_iff, List.cons_prefix_cons]
    | cons b others =>
      rw [checkPairs, List.mem_append, Option.mem_toList, ih]
      constructor
      · rintro (here | ⟨a', b', neighbours, found⟩)
        · exact ⟨a, b, (List.prefix_append [a, b] others).isInfix, here⟩
        · exact ⟨a', b', List.infix_cons neighbours, found⟩
      · rintro ⟨a', b', neighbours, found⟩
        rcases List.infix_cons_iff.1 neighbours with first | later
        · obtain ⟨rfl, rest⟩ := List.cons_prefix_cons.1 first
          obtain ⟨rfl, _⟩ := List.cons_prefix_cons.1 rest
          exact Or.inl found
        · exact Or.inr ⟨a', b', later, found⟩

/-- What is reported about two neighbours. -/
theorem checkPair_eq_some_iff {a b : Tree} (ends : endsWithBreak a = true ↔ a.EndsBroken) :
    rule.checkPair a b = some report ↔ Meets a b ∧
      (rule.wantsLine a.node.kind = true ∧
          gapReport a.node.span b.node.span a.node.extent b.node.extent "EXPECT_NEW_LINE_AFTER"
            (label a.node.kind) (Edit.insertAfter a.node.span ['\n']) = report ∨
        rule.wantsLine a.node.kind = false ∧ rule.wantsLine b.node.kind = true ∧
          gapReport a.node.span b.node.span a.node.extent b.node.extent "EXPECT_NEW_LINE_BEFORE"
            (label b.node.kind) (Edit.insertBefore b.node.span ['\n']) = report) := by
  have meets : (a.node.extent.stop.line != b.node.extent.start.line || endsWithBreak a ||
      startsWithBreak b.node.kind) = true ↔ ¬Meets a b := by
    rw [← not_iff_not, not_not, Bool.or_eq_true, Bool.or_eq_true, ends, bne_iff_ne]
    constructor
    · intro apart
      simp only [not_or, not_not, Bool.not_eq_true] at apart
      exact ⟨apart.1.1, apart.1.2, apart.2⟩
    · rintro ⟨line, earlier, later⟩
      simp [line, earlier, later]
  rw [checkPair]
  split
  next apart => simp [meets.1 apart]
  next apart =>
    have near : Meets a b := not_not.1 fun far => apart (meets.2 far)
    cases rule.wantsLine a.node.kind <;> cases rule.wantsLine b.node.kind <;> simp [near]

/-- What is reported about the last tree in an element and its closing tag. -/
theorem checkClose_eq_some_iff {tag : Tag} {last : Tree} {close : Token}
    (ends : endsWithBreak last = true ↔ last.EndsBroken) :
    checkClose tag last close = some report ↔
      last.node.extent.stop.line = close.extent.start.line ∧ ¬last.EndsBroken ∧
        gapReport last.node.span close.span last.node.extent close.extent
          "EXPECT_NEW_LINE_BEFORE_CLOSE" (label (.element tag))
          (Edit.insertBefore close.span ['\n']) = report := by
  simp only [checkClose, Option.ite_none_right_eq_some, Bool.and_eq_true, beq_iff_eq,
    Bool.not_eq_true', ← Bool.not_eq_true, ends, Option.some.injEq, and_assoc]

/-- What is reported about the ends of an element's content. -/
theorem mem_checkEdges_iff {tag : Tag} {content : List Tree}
    (ends : ∀ last ∈ content.getLast?, endsWithBreak last = true ↔ last.EndsBroken) :
    report ∈ checkEdges tag content ↔
      (∃ first, content.head? = some first ∧
        tag.openEnd.extent.stop.line = first.node.extent.start.line ∧
        startsWithBreak first.node.kind = false ∧
        gapReport tag.openEnd.span first.node.span tag.openEnd.extent first.node.extent
          "EXPECT_NEW_LINE_AFTER_OPEN" (label (.element tag))
          (Edit.insertAfter tag.openEnd.span ['\n']) = report) ∨
      ∃ last close, content.getLast? = some last ∧ tag.close = some close ∧
        last.node.extent.stop.line = close.extent.start.line ∧ ¬last.EndsBroken ∧
        gapReport last.node.span close.span last.node.extent close.extent
          "EXPECT_NEW_LINE_BEFORE_CLOSE" (label (.element tag))
          (Edit.insertBefore close.span ['\n']) = report := by
  rw [checkEdges, List.mem_append, Option.mem_toList, Option.mem_toList, Option.bind_eq_some_iff,
    Option.bind_eq_some_iff]
  refine or_congr (exists_congr fun first => and_congr_right fun _ => ?_) ?_
  · simp [checkOpen, and_assoc]
  · constructor
    · rintro ⟨last, final, found⟩
      obtain ⟨close, closes, found⟩ := Option.bind_eq_some_iff.1 found
      exact ⟨last, close, final, closes, (checkClose_eq_some_iff (ends last final)).1 found⟩
    · rintro ⟨last, close, final, closes, found⟩
      exact ⟨last, final, Option.bind_eq_some_iff.2
        ⟨close, closes, (checkClose_eq_some_iff (ends last final)).2 found⟩⟩

/-- Neighbours in a group are trees of the document. -/
theorem IsGroup.mem_of_neighbours {group : Forest} (inside : rule.IsGroup forest group)
    {a b : Tree} (neighbours : [a, b] <:+: solid group) : a ∈ forest.subtrees := by
  have member : a ∈ group.subtrees :=
    mem_subtrees_of_mem_solid (neighbours.subset List.mem_cons_self)
  cases inside with
  | document => exact member
  | element visible => exact (Forest.subtrees_sublist visible.member).mem member

/-- In every group the reports about neighbours are those that are due. -/
theorem isDue_of_mem_checkPairs (laid : forest.Laid parent id lo hi) {group : Forest}
    (inside : rule.IsGroup forest group) (reported : report ∈ rule.checkPairs (solid group)) :
    rule.IsDue forest report := by
  obtain ⟨a, b, neighbours, found⟩ := mem_checkPairs_iff.1 reported
  have ends := endsWithBreak_iff laid (inside.mem_of_neighbours neighbours)
  obtain ⟨meets, ⟨wants, rfl⟩ | ⟨plain, wants, rfl⟩⟩ := (checkPair_eq_some_iff ends).1 found
  · exact .after inside neighbours meets wants
  · exact .before inside neighbours meets plain wants

/-- The last tree in a visible element ends with a break just where its last node does. -/
theorem IsVisible.ends {tree : Tree} {tag : Tag} (visible : rule.IsVisible forest tree tag)
    (laid : forest.Laid parent id lo hi) :
    ∀ last ∈ (solid tree.inside).getLast?, endsWithBreak last = true ↔ last.EndsBroken :=
  fun _ final => endsWithBreak_iff laid ((Forest.subtrees_sublist visible.member).mem
    (mem_subtrees_of_mem_solid (List.mem_of_getLast? final)))

/-- The reports about a visible element are due. -/
theorem isDue_of_mem_ownReports (laid : forest.Laid parent id lo hi) {tree : Tree} {tag : Tag}
    (visible : rule.IsVisible forest tree tag) (reported : report ∈ rule.ownReports tree tag) :
    rule.IsDue forest report := by
  rcases List.mem_append.1 reported with pair | edge
  · exact isDue_of_mem_checkPairs laid (.element visible) pair
  · split at edge
    next both =>
      rw [Bool.and_eq_true,
        checkInside_snd_iff (laid.of_mem_subtrees visible.member).1] at both
      rcases (mem_checkEdges_iff (visible.ends laid)).1 edge with
        ⟨first, head, line, unbroken, rfl⟩ | ⟨last, close, final, closes, line, unbroken, rfl⟩
      · exact .afterOpen visible both.1 both.2 head line unbroken
      · exact .beforeClose visible both.1 both.2 final closes line unbroken
    · simp at edge

/-- What is due between neighbours is reported about their group. -/
theorem IsGroup.reported {group : Forest} (inside : rule.IsGroup forest group)
    (found : report ∈ rule.checkPairs (solid group)) :
    (∃ tree tag, rule.IsVisible forest tree tag ∧ report ∈ rule.ownReports tree tag) ∨
      report ∈ rule.checkPairs (solid forest) := by
  cases inside with
  | document => exact Or.inr found
  | element visible => exact Or.inl ⟨_, _, visible, List.mem_append_left _ found⟩

/-- What is due is reported about a visible element, or about the neighbours in the document. -/
theorem IsDue.reported (laid : forest.Laid parent id lo hi) (due : rule.IsDue forest report) :
    (∃ tree tag, rule.IsVisible forest tree tag ∧ report ∈ rule.ownReports tree tag) ∨
      report ∈ rule.checkPairs (solid forest) := by
  cases due with
  | after inside neighbours meets wants =>
    have ends := endsWithBreak_iff laid (inside.mem_of_neighbours neighbours)
    exact inside.reported (mem_checkPairs_iff.2 ⟨_, _, neighbours,
      (checkPair_eq_some_iff ends).2 ⟨meets, Or.inl ⟨wants, rfl⟩⟩⟩)
  | before inside neighbours meets plain wants =>
    have ends := endsWithBreak_iff laid (inside.mem_of_neighbours neighbours)
    exact inside.reported (mem_checkPairs_iff.2 ⟨_, _, neighbours,
      (checkPair_eq_some_iff ends).2 ⟨meets, Or.inr ⟨plain, wants, rfl⟩⟩⟩)
  | afterOpen visible wants below head line unbroken =>
    have wish := (checkInside_snd_iff (laid.of_mem_subtrees visible.member).1).2 below
    refine Or.inl ⟨_, _, visible, List.mem_append_right _ ?_⟩
    rw [if_pos (by rw [wants, wish]; rfl), mem_checkEdges_iff (visible.ends laid)]
    exact Or.inl ⟨_, head, line, unbroken, rfl⟩
  | beforeClose visible wants below final closes line unbroken =>
    have wish := (checkInside_snd_iff (laid.of_mem_subtrees visible.member).1).2 below
    refine Or.inl ⟨_, _, visible, List.mem_append_right _ ?_⟩
    rw [if_pos (by rw [wants, wish]; rfl), mem_checkEdges_iff (visible.ends laid)]
    exact Or.inr ⟨_, _, final, closes, line, unbroken, rfl⟩

/-- The edits of the reports about a document are different. -/
theorem nodup_edits_reports (rule : ElementNewline) (pairs : List Delimiters) (source : Text) :
    ((rule.reports (Document.parse pairs source)).map Report.edits).Nodup := by
  obtain ⟨outline, covers, nested, _⟩ := Document.exists_outline pairs source
  have full : outline.IsFull := Outline.full_of_reads (covers ▸ Piece.reads_scanAll pairs source)
  rw [Document.edits_reports_parse rule covers nested]
  refine (outline.orderly rule nested full 0 false).distinct.map fun a b same => ?_
  exact congrArg Edit.start (List.cons.inj same).1

/-- What is reported about a document is due. -/
theorem isDue_of_mem_reports {pairs : List Delimiters} {source : Text}
    (reported : report ∈ rule.reports (Document.parse pairs source)) :
    rule.IsDue (Document.parse pairs source).root.inside report := by
  obtain ⟨hi, laid⟩ := Document.laid_parse pairs source
  rw [reports, List.mem_append, mem_checkInside_iff laid] at reported
  rcases reported with ⟨tree, tag, visible, reported⟩ | top
  · exact isDue_of_mem_ownReports laid visible reported
  · exact isDue_of_mem_checkPairs laid .document top

/-- On every document the rule reports the line breaks that are due, each of them once. -/
theorem reportsDue_parse (rule : ElementNewline) (pairs : List Delimiters) (source : Text) :
    rule.ReportsDue (Document.parse pairs source) := by
  obtain ⟨hi, laid⟩ := Document.laid_parse pairs source
  have apart := nodup_edits_reports rule pairs source
  refine {
    due := fun report => ?due
    once := List.Nodup.of_map _ apart
    apart := apart }
  case due =>
    refine ⟨isDue_of_mem_reports, fun due => ?_⟩
    rw [reports, List.mem_append, mem_checkInside_iff laid]
    exact due.reported laid

end ElementNewline

end TagLint
