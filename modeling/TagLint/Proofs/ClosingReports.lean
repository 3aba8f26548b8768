import TagLint.Engine.Basic
import TagLint.Proofs.OpenElements

/-!
What `require-closing-tags` reports, element by element.

The rule walks through the document with a stack of the foreign subtrees that it is in. On a laid
forest this is a recursion (`ClosingTags.reportsIn`): ids ascend, so the walk takes an id off the
stack just where it leaves the node that put it on. Only two kinds of reports carry edits.
-/
namespace TagLint

namespace ClosingTags

/-- The reports about a forest inside a foreign subtree or outside of all. -/
def reportsIn (rule : ClosingTags) (isForeign : Bool) : Forest → List Report
  | .nil => []
  | .cons node inside next =>
    (node.kind.tag?.bind (rule.check isForeign ⟨node, inside⟩)).toList ++
      rule.reportsIn (isForeign || node.isForeignRoot) inside ++ rule.reportsIn isForeign next

variable {rule : ClosingTags}

/-- The rule prefers and allows what the options it is made of say. -/
theorem of_ofOptions {options : ClosingTagsOptions} (made : ofOptions options = .ok rule) :
    rule.prefersSelfClosing = (options.selfClosing == .always) ∧
      rule.allowsCustom = options.allowSelfClosingCustom := by
  unfold ofOptions at made
  cases patterns : options.customPatterns.mapM readPattern with
  | error text =>
    rw [patterns] at made
    contradiction
  | ok patterns' =>
    rw [patterns] at made
    obtain rfl := Except.ok.inj made
    exact ⟨rfl, rfl⟩

/-- A node that comes after all on the stack is not on it. -/
theorem top_ne_of_lt {foreign : List Nat} {id : Nat} (before : ∀ known ∈ foreign, known < id) :
    (foreign.head? == some id) = false := by
  cases foreign with
  | nil => rfl
  | cons known others =>
    have := before known List.mem_cons_self
    simpa using Nat.ne_of_lt this

/-- The ids on the stack are those of nodes before the one that is left. -/
private theorem leave_other {foreign : List Nat} {node : Node}
    (before : ∀ known ∈ foreign, known < node.id) (inside : Forest) (more : List Event) :
    rule.reportsFrom foreign (Event.leaving ⟨node, inside⟩ ++ more) =
      rule.reportsFrom foreign more := by
  unfold Event.leaving
  split
  · rw [List.singleton_append, reportsFrom, top_ne_of_lt before]
    rfl
  · rfl

theorem reportsFrom_events {forest : Forest} {parent id lo hi : Nat}
    (laid : forest.Laid parent id lo hi) {foreign : List Nat}
    (before : ∀ known ∈ foreign, known < id) (more : List Event) :
    rule.reportsFrom foreign (forest.events ++ more) =
      rule.reportsIn (!foreign.isEmpty) forest ++ rule.reportsFrom foreign more := by
  induction forest generalizing parent id lo hi foreign more with
  | nil => rfl
  | cons node inside next ihInside ihNext =>
    obtain ⟨⟨rfl, _⟩, _, ⟨_, holds⟩, within, later⟩ := laid
    have onward : ∀ known ∈ foreign, known < node.id + 1 + inside.size := by
      intro known member
      have := before known member
      omega
    have rest := ihNext later onward more
    simp only [Forest.events, List.cons_append, List.append_assoc, reportsFrom, reportsIn]
    cases kind : node.kind.tag? with
    | none =>
      -- Nothing is inside a node that is no element.
      have empty : inside = .nil := by
        by_contra full
        simpa [kind] using holds full
      subst empty
      simp only [Forest.events, List.nil_append, leave_other before, rest, Option.bind_none,
        Option.toList_none, reportsIn]
    | some tag =>
      have root : node.isForeignRoot = isForeignRoot tag.name := by
        simp [Node.isForeignRoot, kind]
      simp only [Option.bind_some, root]
      congr 1
      cases entered : isForeignRoot tag.name with
      | false =>
        have further : ∀ known ∈ foreign, known < node.id + 1 := by
          intro known member
          exact Nat.lt_succ_of_lt (before known member)
        simp only [Bool.false_eq_true, if_false, Bool.or_false]
        rw [ihInside within further, leave_other before, rest]
      | true =>
        have further : ∀ known ∈ node.id :: foreign, known < node.id + 1 := by
          intro known member
          rcases List.mem_cons.1 member with rfl | outer
          · exact Nat.lt_succ_self _
          · exact Nat.lt_succ_of_lt (before known outer)
        have isLeft : node.kind.isLeft = true := by
          cases shown : node.kind <;> simp_all [Kind.tag?, Kind.isLeft]
        simp only [if_true, Bool.or_true]
        rw [ihInside within further, Event.leaving, if_pos isLeft, List.singleton_append,
          reportsFrom]
        simp only [List.head?_cons, BEq.rfl, if_true, List.tail_cons, rest, List.isEmpty_cons,
          Bool.not_false]

/-- The reports about the document of an outline are those about its forest. -/
theorem reports_ofOutline (source : Text) {outline : Outline} (full : outline.IsFull) :
    rule.reports (Document.ofOutline source outline) =
      rule.reportsIn false (outline.forest (LineIndex.ofText source) 0 1 0) := by
  have laid := Outline.laid_forest (LineIndex.ofText source) 0 1 0 outline full
  let root := (Document.ofOutline source outline).root
  have walked : rule.reportsFrom [] (root.inside.events ++ Event.leaving root) =
      rule.reportsIn false root.inside ++ rule.reportsFrom [] (Event.leaving root) :=
    reportsFrom_events laid (by simp) _
  have leaves : rule.reportsFrom [] (Event.leaving root) = [] := rfl
  rw [leaves, List.append_nil] at walked
  exact walked

/-- The edits that let a tag end in another way: the rest of the tag after its last attribute is
replaced, and the closing tag is taken away if there is one. -/
def endEdits (tag : Tag) (ending : Text) (close : Option Token) : List Edit :=
  Edit.replace ⟨headStop tag, tag.openEnd.span.stop⟩ ending ::
    close.toList.map fun close => Edit.remove close.span

/-- What a report about an element says when it has edits. -/
inductive Mends (isForeign : Bool) (tree : Tree) (tag : Tag) (report : Report) : Prop where
  | collapse (message : report.messageId = "MISSING_SELF") (open_ : closesItself tag = false)
      (blank : hasBlankInside tree = true)
      (edits : report.edits = endEdits tag [' ', '/', '>'] tag.close)
  | unslash (message : report.messageId = "UNEXPECTED") (closes : closesItself tag = true)
      (may : isVoidName tag.name = true ∨ isForeign = true)
      (edits : report.edits = endEdits tag ['>'] none)

private theorem checkEnd_mends {tree : Tree} {tag : Tag} {shouldClose isFixable isForeign : Bool}
    {report : Report} (found : checkEnd tree tag shouldClose isFixable = some report)
    (edited : report.edits ≠ [])
    (may : shouldClose = false → closesItself tag = true → isFixable = true →
      isVoidName tag.name = true ∨ isForeign = true) :
    report.span = tag.openEnd.span ∧ Mends isForeign tree tag report := by
  -- A report has edits only where it is fixable; each of the two ends is mended in its own way.
  unfold checkEnd at found
  split at found
  next should =>
    obtain rfl := Option.some.inj found
    simp only [Bool.and_eq_true, Bool.not_eq_true'] at should
    cases mends : isFixable && hasBlankInside tree with
    | false => simp [endReport, mends] at edited
    | true =>
      refine ⟨rfl, .collapse rfl should.2 (Bool.and_eq_true_iff.1 mends).2 ?_⟩
      simp [endReport, endEdits]
  · split at found
    next should =>
      obtain rfl := Option.some.inj found
      simp only [Bool.and_eq_true, Bool.not_eq_true'] at should
      cases mends : isFixable with
      | false => simp [endReport, mends] at edited
      | true =>
        refine ⟨rfl, .unslash rfl should.2 (may should.1 should.2 mends) ?_⟩
        simp [endReport, endEdits]
    · simp at found

/-- A report with edits is about how the opening tag ends. -/
theorem check_mends {isForeign : Bool} {tree : Tree} {tag : Tag} {report : Report}
    (written : closesItself tag = tag.isSelfClosing)
    (found : rule.check isForeign tree tag = some report) (edited : report.edits ≠ []) :
    report.span = tag.openEnd.span ∧ Mends isForeign tree tag report := by
  unfold check at found
  simp only at found
  split at found
  · -- A custom element that may close itself is left as it is.
    refine checkEnd_mends found edited ?_
    simp
  next accepted =>
    split at found
    · refine checkEnd_mends found edited ?_
      intro _ closes may
      rw [written] at closes
      simp only [closes, Bool.true_and, Bool.and_eq_true, Bool.or_eq_true] at accepted may
      rcases may with (void | foreign) | custom
      · exact Or.inl void
      · exact Or.inr foreign
      · exact absurd custom.1 accepted
    · split at found
      · obtain rfl := Option.some.inj found
        exact absurd rfl edited
      · simp at found

/-- Every report is what is found about some element of the forest. -/
theorem exists_of_mem_reportsIn {isForeign : Bool} {forest : Forest} {report : Report}
    (member : report ∈ rule.reportsIn isForeign forest) :
    ∃ tree ∈ forest.subtrees, ∃ tag isForeign', tree.node.kind = .element tag ∧
      rule.check isForeign' tree tag = some report := by
  induction forest generalizing isForeign with
  | nil => simp [reportsIn] at member
  | cons node inside next ihInside ihNext =>
    simp only [reportsIn, List.mem_append, Option.mem_toList, Option.bind_eq_some_iff] at member
    rcases member with (⟨tag, kind, found⟩ | deeper) | later
    · exact ⟨⟨node, inside⟩, List.mem_cons_self, tag, isForeign, Kind.tag?_eq_some_iff.1 kind,
        found⟩
    · obtain ⟨tree, within, rest⟩ := ihInside deeper
      exact ⟨tree, Forest.mem_subtrees_cons.2 (Or.inr (Or.inl within)), rest⟩
    · obtain ⟨tree, within, rest⟩ := ihNext later
      exact ⟨tree, Forest.mem_subtrees_cons.2 (Or.inr (Or.inr within)), rest⟩

end ClosingTags

end TagLint
