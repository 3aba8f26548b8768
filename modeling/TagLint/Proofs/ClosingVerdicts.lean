import TagLint.Proofs.ForeignSubtrees

/-!
What `require-closing-tags` finds, without its stack.

The rule keeps the foreign roots that it has entered on a stack. At every element the stack is empty
just where no foreign root is around (`stack_of_mem_stacksFrom`), so what is reported about an
element can be told from its tags, from what is inside it, and from where it is.
-/
namespace TagLint

open Written (Piece OpenTag)

namespace ClosingTags

/-- The ids of the foreign roots that are entered and not left, after one more step of the walk. -/
def stackAfter (foreign : List Nat) : Event → List Nat
  | .enter tree =>
    if tree.node.isForeignRoot then tree.node.id :: foreign else foreign
  | .leave tree => if foreign.head? == some tree.node.id then foreign.tail else foreign

/-- The trees that a walk enters, each with the stack before. -/
def stacksFrom (foreign : List Nat) : List Event → List (List Nat × Tree)
  | [] => []
  | .enter tree :: events =>
    (foreign, tree) :: stacksFrom (stackAfter foreign (.enter tree)) events
  | .leave tree :: events => stacksFrom (stackAfter foreign (.leave tree)) events

theorem stacksFrom_append (foreign : List Nat) (events more : List Event) :
    stacksFrom foreign (events ++ more) =
      stacksFrom foreign events ++ stacksFrom (events.foldl stackAfter foreign) more := by
  induction events generalizing foreign with
  | nil => rfl
  | cons event events ih => cases event <;> simp [stacksFrom, ih]

/-- The rule asks at every element just whether the stack is empty. -/
theorem reportsFrom_eq (rule : ClosingTags) (foreign : List Nat) (events : List Event) :
    rule.reportsFrom foreign events = (stacksFrom foreign events).flatMap fun met =>
      (met.2.node.kind.tag?.bind (rule.check (!met.1.isEmpty) met.2)).toList := by
  induction events generalizing foreign with
  | nil => rfl
  | cons event events ih =>
    cases event with
    | enter tree =>
      rw [reportsFrom, stacksFrom, List.flatMap_cons]
      cases kind : tree.node.kind.tag? <;> simp [kind, ih, stackAfter, Node.isForeignRoot]
    | leave tree =>
      rw [reportsFrom, stacksFrom, stackAfter]
      split <;> exact ih _

section Walk

variable {forest : Forest} {parent id lo hi : Nat} {foreign : List Nat}

private theorem stacksFrom_leaving (tree : Tree) :
    stacksFrom foreign (Event.leaving tree) = [] := by
  unfold Event.leaving
  split <;> rfl

theorem map_stacksFrom_events (forest : Forest) (foreign : List Nat) :
    (stacksFrom foreign forest.events).map Prod.snd = forest.subtrees := by
  induction forest generalizing foreign with
  | nil => rfl
  | cons node inside next ihInside ihNext =>
    simp only [Forest.events, Forest.subtrees, List.cons_append, stacksFrom, stacksFrom_append,
      stacksFrom_leaving, List.append_nil, List.map_cons, List.map_append, ihInside, ihNext]

/-- A node takes itself off the stack when it is left, and no other node. -/
private theorem stackAfter_leaving (before : ∀ known ∈ foreign, known < id) {node : Node}
    (own : node.id = id) (inside : Forest) :
    (Event.leaving ⟨node, inside⟩).foldl stackAfter
      (stackAfter foreign (.enter ⟨node, inside⟩)) = foreign := by
  subst own
  unfold Event.leaving
  cases root : node.isForeignRoot with
  | true =>
    have isLeft : node.kind.isLeft = true := by
      cases kind : node.kind <;> simp_all [Node.isForeignRoot, Kind.tag?, Kind.isLeft]
    simp [isLeft, stackAfter, root]
  | false => split <;> simp [stackAfter, root, top_ne_of_lt before]

private theorem stackAfter_enter_lt (before : ∀ known ∈ foreign, known < id) {node : Node}
    (own : node.id = id) (inside : Forest) :
    ∀ known ∈ stackAfter foreign (.enter ⟨node, inside⟩), known < id + 1 := by
  intro known member
  rw [stackAfter] at member
  split at member
  · rcases List.mem_cons.1 member with rfl | outer
    · exact own ▸ Nat.lt_succ_self _
    · exact Nat.lt_succ_of_lt (before known outer)
  · exact Nat.lt_succ_of_lt (before known member)

/-- After a forest the stack is what it was. -/
theorem foldl_stackAfter_events (laid : forest.Laid parent id lo hi)
    (before : ∀ known ∈ foreign, known < id) :
    forest.events.foldl stackAfter foreign = foreign := by
  induction forest generalizing parent id lo hi foreign with
  | nil => rfl
  | cons node inside next ihInside ihNext =>
    obtain ⟨⟨own, _⟩, _, _, within, later⟩ := laid
    simp only [Forest.events, List.cons_append, List.foldl_cons, List.foldl_append]
    rw [ihInside within (stackAfter_enter_lt before own inside),
      stackAfter_leaving before own inside]
    exact ihNext later fun known member => by
      have := before known member
      omega

/-- At every tree the stack is empty just where none of the elements around is a foreign root. -/
theorem stack_of_mem_stacksFrom (laid : forest.Laid parent id lo hi)
    (before : ∀ known ∈ foreign, known < id) {met : List Nat × Tree}
    (member : met ∈ stacksFrom foreign forest.events) :
    met.1 ≠ [] ↔ foreign ≠ [] ∨ forest.HasRootAround met.2 := by
  -- The stack is left as it was entered, so only what is around a tree can have put ids on it.
  induction forest generalizing parent id lo hi foreign with
  | nil => simp [Forest.events, stacksFrom] at member
  | cons node inside next ihInside ihNext =>
    have parts := laid
    obtain ⟨⟨own, _⟩, _, _, within, later⟩ := parts
    have onward : ∀ known ∈ foreign, known < id + 1 + inside.size := by
      intro known earlier
      have := before known earlier
      omega
    have entered := stackAfter_enter_lt before own inside
    have listed {foreign : List Nat} {forest : Forest}
        (member : met ∈ stacksFrom foreign forest.events) : met.2 ∈ forest.subtrees := by
      rw [← map_stacksFrom_events forest foreign]
      exact List.mem_map_of_mem member
    simp only [Forest.events, List.cons_append, stacksFrom, stacksFrom_append, List.foldl_append,
      foldl_stackAfter_events within entered, stackAfter_leaving before own inside,
      stacksFrom_leaving, List.append_nil, List.mem_cons, List.mem_append] at member
    rcases member with rfl | deeper | next
    · simp [Forest.not_hasRootAround_head laid]
    · rw [ihInside within entered deeper, Forest.hasRootAround_inside laid (listed deeper),
        stackAfter]
      cases node.isForeignRoot <;> simp
    · rw [ihNext later onward next, Forest.hasRootAround_next laid (listed next)]

end Walk

/-- What is reported about an element: by its tags, by what is inside it, and by whether it is
inside of a foreign subtree. -/
def verdict? (options : ClosingTagsOptions) (isCustom isForeign : Bool) (tree : Tree) (tag : Tag) :
    Option Report :=
  let mayClose := isVoidName tag.name || isForeign ||
    (isCustom && options.allowSelfClosingCustom && tree.children.isEmpty)
  if tag.isSelfClosing && isCustom && options.allowSelfClosingCustom then none
  else if tag.isSelfClosing || mayClose then
    match options.selfClosing == .always && mayClose, tag.isSelfClosing with
    | true, false =>
      some (endReport tag "MISSING_SELF"
        (if hasBlankInside tree then endEdits tag [' ', '/', '>'] tag.close else []))
    | false, true =>
      some (endReport tag "UNEXPECTED" (if mayClose then endEdits tag ['>'] none else []))
    | _, _ => none
  else if tag.close.isNone then
    some ⟨tree.node.span, tree.node.extent, "MISSING", [("tag", label tag.name)], []⟩
  else none

variable {rule : ClosingTags} {options : ClosingTagsOptions}

/-- The rule finds what the verdict says, where a tag closes itself just when it is written so. -/
theorem check_eq_verdict? (made : ofOptions options = .ok rule) (isForeign : Bool) (tree : Tree)
    {tag : Tag} (written : closesItself tag = tag.isSelfClosing) :
    rule.check isForeign tree tag =
      verdict? options (rule.isCustom tag.name) isForeign tree tag := by
  obtain ⟨style, allows⟩ := of_ofOptions made
  unfold check verdict?
  simp only [style, allows, written]
  generalize (isVoidName tag.name || isForeign ||
    (rule.isCustom tag.name && options.allowSelfClosingCustom && tree.children.isEmpty)) = mayClose
  by_cases accepted :
      (tag.isSelfClosing && rule.isCustom tag.name && options.allowSelfClosingCustom) = true
  · -- It closes itself as it may, so neither report is made.
    have closes : closesItself tag = true := by
      rw [Bool.and_assoc, Bool.and_eq_true] at accepted
      exact written.trans accepted.1
    simp [accepted, checkEnd, closes]
  · rw [if_neg accepted, if_neg accepted]
    cases self : tag.isSelfClosing <;> cases mayClose <;>
      cases options.selfClosing == .always <;>
        simp [checkEnd, endEdits, written, self]

end ClosingTags

namespace Document

/-- A tag of a document closes itself just when it is written so. -/
theorem closesItself_parse {pairs : List Delimiters} {source : Text} {tree : Tree}
    (member : tree ∈ (parse pairs source).subtrees) {tag : Tag}
    (kind : tree.node.kind = .element tag) :
    tree ∈ (parse pairs source).root.inside.subtrees ∧
      ClosingTags.closesItself tag = tag.isSelfClosing := by
  rcases List.mem_cons.1 member with rfl | below
  · simp [parse] at kind
  · obtain ⟨_, comes, _⟩ := comesFrom_parse pairs source below
    obtain ⟨written, _, same, _⟩ := comes.tag_eq kind
    refine ⟨below, ?_⟩
    rw [same]
    exact closesItself_tagAt

end Document

namespace ClosingTags

open Document (parse builderAt)

section Parse

variable (pairs : List Delimiters) (source : Text)

/-- The document node is entered first, and is no foreign root. -/
private theorem stackAfter_root :
    stackAfter [] (.enter (parse pairs source).root) = [] := by
  have root : (parse pairs source).root.node.isForeignRoot = false := rfl
  rw [stackAfter, root]
  rfl

private theorem stacksFrom_parse :
    stacksFrom [] (parse pairs source).events =
      ([], (parse pairs source).root) ::
        stacksFrom [] (parse pairs source).root.inside.events := by
  rw [Document.events, List.cons_append, stacksFrom, stacksFrom_append, stacksFrom_leaving,
    stackAfter_root, List.append_nil]

/-- A walk enters all trees in document order. -/
theorem map_stacksFrom_parse :
    (stacksFrom [] (parse pairs source).events).map Prod.snd = (parse pairs source).subtrees := by
  rw [stacksFrom_parse, List.map_cons, map_stacksFrom_events]
  rfl

/-- After a walk the stack is empty. -/
theorem foldl_stackAfter_parse :
    (parse pairs source).events.foldl stackAfter [] = [] := by
  obtain ⟨hi, laid⟩ := Document.laid_parse pairs source
  have inside : (parse pairs source).root.inside.events.foldl stackAfter [] = [] :=
    foldl_stackAfter_events laid (by simp)
  rw [Document.events, List.foldl_append, List.foldl_cons, stackAfter_root, inside]
  rfl

variable {pairs source}

/-- In a walk the stack is empty just at the trees that are in no foreign subtree. -/
theorem stack_of_mem_parse {met : List Nat × Tree}
    (member : met ∈ stacksFrom [] (parse pairs source).events) :
    met.1 ≠ [] ↔ (parse pairs source).IsInForeign met.2 := by
  obtain ⟨hi, laid⟩ := Document.laid_parse pairs source
  rw [stacksFrom_parse] at member
  rcases List.mem_cons.1 member with rfl | below
  · simpa using Document.not_isInForeign_root pairs source
  · rw [stack_of_mem_stacksFrom laid (by simp) below, Document.IsInForeign]
    simp

/-- The reports are the verdicts on the elements in document order. -/
theorem reports_parse {options : ClosingTagsOptions} {rule : ClosingTags}
    (made : ofOptions options = .ok rule) :
    rule.reports (parse pairs source) =
      (parse pairs source).subtrees.flatMap fun tree =>
        (tree.node.kind.tag?.bind fun tag =>
          verdict? options (rule.isCustom tag.name)
            (decide ((parse pairs source).IsInForeign tree)) tree tag).toList := by
  have enters := map_stacksFrom_parse pairs source
  rw [reports, reportsFrom_eq, ← enters, List.flatMap_map]
  refine List.flatMap_congr fun met member => ?_
  have listed : met.2 ∈ (parse pairs source).subtrees := by
    rw [← enters]
    exact List.mem_map_of_mem member
  have empty : (!met.1.isEmpty) = decide ((parse pairs source).IsInForeign met.2) := by
    rw [Bool.eq_iff_iff, decide_eq_true_eq, ← stack_of_mem_parse member]
    simp
  rw [empty]
  cases kind : met.2.node.kind with
  | element tag =>
    have written := (Document.closesItself_parse listed kind).2
    exact congrArg Option.toList (check_eq_verdict? made _ met.2 written)
  | _ => rfl

end Parse

/-- Whether what a rule keeps on its stack, and what the parser asks its open elements, can be told
from the tree, and with it what is reported. -/
structure ReadsTree (options : ClosingTagsOptions) (rule : ClosingTags) (pairs : List Delimiters)
    (source : Text) : Prop where
  /-- The walk enters all trees in document order; the rule has an empty stack at just those that
  are not in a foreign subtree, and after the walk. -/
  enters : (stacksFrom [] (parse pairs source).events).map Prod.snd = (parse pairs source).subtrees
  held : ∀ met ∈ stacksFrom [] (parse pairs source).events,
    met.1 ≠ [] ↔ (parse pairs source).IsInForeign met.2
  emptied : (parse pairs source).events.foldl stackAfter [] = []
  /-- At each of them the rule asks its stack. -/
  asks : rule.reports (parse pairs source) =
    (stacksFrom [] (parse pairs source).events).flatMap fun met =>
      (met.2.node.kind.tag?.bind (rule.check (!met.1.isEmpty) met.2)).toList
  /-- Parsing comes to each element with a builder that stands in a foreign subtree just when the
  element is in one. -/
  builds : ∀ tree ∈ (parse pairs source).subtrees, ∀ tag, tree.node.kind = .element tag →
    ∃ written others, tag.name = written.name ∧
      Builder.empty.addAll (LineIndex.ofText source)
          (Piece.locate 0 (Piece.scanAll pairs source)) =
        (builderAt pairs source tree.node.span.start).addAll (LineIndex.ofText source)
          ((tree.node.span.start, .opening written) :: others) ∧
      (builderAt pairs source tree.node.span.start).nextId = tree.node.id ∧
      ((builderAt pairs source tree.node.span.start).isForeign = true ↔
        (parse pairs source).IsInForeign tree)
  /-- The findings are the verdicts on the elements in document order. -/
  finds : ∀ severity path,
    (ActiveRule.mk (.closingTags rule) severity).diagnostics path (parse pairs source) =
      (parse pairs source).subtrees.flatMap fun tree =>
        ((tree.node.kind.tag?.bind fun tag =>
            verdict? options (rule.isCustom tag.name)
              (decide ((parse pairs source).IsInForeign tree)) tree tag).map fun report =>
          report.toDiagnostic info severity path (parse pairs source)).toList

/-- The rule can be read without its stack. -/
theorem readsTree {options : ClosingTagsOptions} {rule : ClosingTags}
    (made : ofOptions options = .ok rule) (pairs : List Delimiters) (source : Text) :
    rule.ReadsTree options pairs source := by
  refine {
    enters := map_stacksFrom_parse pairs source
    held := fun met => stack_of_mem_parse
    emptied := foldl_stackAfter_parse pairs source
    asks := rule.reportsFrom_eq [] _
    builds := ?builds
    finds := ?finds }
  case builds =>
    intro tree member tag kind
    exact Document.exists_builderAt (Document.closesItself_parse member kind).1 kind
  case finds =>
    intro severity path
    rw [ActiveRule.diagnostics, show (Rule.closingTags rule).reports (parse pairs source) =
      rule.reports (parse pairs source) from rfl, reports_parse made, List.map_flatMap]
    refine List.flatMap_congr fun tree _ => ?_
    rw [Option.toList_map]
    rfl

/-- Some of the roots are self-closing, and one is never closed. -/
theorem readsTree_sample :
    ofOptions ⟨.always, true, ["-"]⟩ = .ok ⟨true, true, [.text ['-']]⟩ ∧
      (⟨true, true, [.text ['-']]⟩ : ClosingTags).ReadsTree ⟨.always, true, ["-"]⟩ []
        "<svg><SVG/><br></svg><br><math><svg><x-y></svg><img/>".toList := by
  have made : ofOptions ⟨.always, true, ["-"]⟩ = .ok ⟨true, true, [.text ['-']]⟩ := by
    rfl
  exact ⟨made, readsTree made [] _⟩

end ClosingTags

end TagLint
