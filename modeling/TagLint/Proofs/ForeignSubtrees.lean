import TagLint.Proofs.HarmlessFixes

/-!
Foreign subtrees, by the tree and by the elements that wait.

The parser asks the elements that wait for their closing tags whether it stands in a foreign
subtree. The part of an outline before an element leaves open just the elements around it
(`Outline.exists_precedes`), so the answer is what the finished tree says.
-/
namespace TagLint

open Written (Piece OpenTag)

namespace Forest

/-- Whether a tree in the forest of the given sort has `tree` inside of it. -/
def HasAround (sort : Tree → Prop) (forest : Forest) (tree : Tree) : Prop :=
  ∃ around ∈ forest.subtrees, tree ∈ around.inside.subtrees ∧ sort around

/-- Whether a tree in the forest that is the root of a foreign subtree has `tree` inside of it. -/
def HasRootAround (forest : Forest) (tree : Tree) : Prop :=
  ∃ around ∈ forest.subtrees, tree ∈ around.inside.subtrees ∧ around.node.isForeignRoot = true

instance (forest : Forest) (tree : Tree) : Decidable (forest.HasRootAround tree) :=
  inferInstanceAs (Decidable (∃ around ∈ forest.subtrees,
    tree ∈ around.inside.subtrees ∧ around.node.isForeignRoot = true))

section Laid

variable {forest inside next : Forest} {node : Node} {tree : Tree} {parent id lo hi : Nat}

/-- The ids of a laid forest are its own. -/
theorem Laid.id_of_mem_subtrees (laid : forest.Laid parent id lo hi)
    (member : tree ∈ forest.subtrees) :
    id ≤ tree.node.id ∧ tree.node.id < id + forest.size := by
  have listed : tree.node.id ∈ forest.subtrees.map fun tree => tree.node.id :=
    List.mem_map_of_mem member
  rwa [laid.ids, List.mem_range'_1] at listed

/-- What is inside a tree comes after it. -/
theorem Laid.id_lt_of_mem_inside (laid : forest.Laid parent id lo hi) {around : Tree}
    (member : around ∈ forest.subtrees) (within : tree ∈ around.inside.subtrees) :
    around.node.id < tree.node.id :=
  ((laid.of_mem_subtrees member).1.id_of_mem_subtrees within).1

variable {sort : Tree → Prop}

theorem not_hasAround_head (laid : (cons node inside next).Laid parent id lo hi) :
    ¬(cons node inside next).HasAround sort ⟨node, inside⟩ := by
  rintro ⟨around, member, within, _⟩
  have later : around.node.id < node.id := laid.id_lt_of_mem_inside member within
  have first := (laid.id_of_mem_subtrees member).1
  rw [← laid.1.1] at first
  exact Nat.not_lt.2 first later

theorem hasAround_inside (laid : (cons node inside next).Laid parent id lo hi)
    (member : tree ∈ inside.subtrees) :
    (cons node inside next).HasAround sort tree ↔
      sort ⟨node, inside⟩ ∨ inside.HasAround sort tree := by
  obtain ⟨⟨rfl, _⟩, _, _, within, later⟩ := laid
  constructor
  · rintro ⟨around, among, holds, own⟩
    rcases mem_subtrees_cons.1 among with rfl | deeper | other
    · exact Or.inl own
    · exact Or.inr ⟨around, deeper, holds, own⟩
    · -- What comes after the node has other ids.
      have own := (within.id_of_mem_subtrees member).2
      have first := (later.id_of_mem_subtrees other).1
      have after := later.id_lt_of_mem_inside other holds
      omega
  · rintro (own | ⟨around, among, holds, own⟩)
    · exact ⟨⟨node, inside⟩, mem_subtrees_cons.2 (Or.inl rfl), member, own⟩
    · exact ⟨around, mem_subtrees_cons.2 (Or.inr (Or.inl among)), holds, own⟩

theorem hasAround_next (laid : (cons node inside next).Laid parent id lo hi)
    (member : tree ∈ next.subtrees) :
    (cons node inside next).HasAround sort tree ↔ next.HasAround sort tree := by
  obtain ⟨⟨rfl, _⟩, _, _, within, later⟩ := laid
  have own := (later.id_of_mem_subtrees member).1
  constructor
  · rintro ⟨around, among, holds, own⟩
    rcases mem_subtrees_cons.1 among with rfl | deeper | other
    · have last := (within.id_of_mem_subtrees holds).2
      omega
    · have last := (within.id_of_mem_subtrees
        ((subtrees_sublist deeper).mem holds)).2
      omega
    · exact ⟨around, other, holds, own⟩
  · rintro ⟨around, among, holds, own⟩
    exact ⟨around, mem_subtrees_cons.2 (Or.inr (Or.inr among)), holds, own⟩

theorem not_hasRootAround_head (laid : (cons node inside next).Laid parent id lo hi) :
    ¬(cons node inside next).HasRootAround ⟨node, inside⟩ :=
  not_hasAround_head laid

theorem hasRootAround_inside (laid : (cons node inside next).Laid parent id lo hi)
    (member : tree ∈ inside.subtrees) :
    (cons node inside next).HasRootAround tree ↔
      node.isForeignRoot = true ∨ inside.HasRootAround tree :=
  hasAround_inside laid member

theorem hasRootAround_next (laid : (cons node inside next).Laid parent id lo hi)
    (member : tree ∈ next.subtrees) :
    (cons node inside next).HasRootAround tree ↔ next.HasRootAround tree :=
  hasAround_next laid member

/-- Among the trees of a forest that no tree of a sort is around, those inside its first tree are
those among what is inside, unless that tree is of the sort itself. -/
theorem exists_clear_cons (laid : (cons node inside next).Laid parent id lo hi)
    (holds : Tree → Prop) :
    (∃ tree ∈ (cons node inside next).subtrees,
        ¬(cons node inside next).HasAround sort tree ∧ holds tree) ↔
      holds ⟨node, inside⟩ ∨
        (¬sort ⟨node, inside⟩ ∧
          ∃ tree ∈ inside.subtrees, ¬inside.HasAround sort tree ∧ holds tree) ∨
        ∃ tree ∈ next.subtrees, ¬next.HasAround sort tree ∧ holds tree := by
  constructor
  · rintro ⟨tree, member, clear, own⟩
    rcases mem_subtrees_cons.1 member with rfl | deeper | later
    · exact Or.inl own
    · rw [hasAround_inside laid deeper, not_or] at clear
      exact Or.inr (Or.inl ⟨clear.1, tree, deeper, clear.2, own⟩)
    · rw [hasAround_next laid later] at clear
      exact Or.inr (Or.inr ⟨tree, later, clear, own⟩)
  · rintro (own | ⟨other, tree, deeper, clear, own⟩ | ⟨tree, later, clear, own⟩)
    · exact ⟨_, mem_subtrees_cons.2 (Or.inl rfl), not_hasAround_head laid, own⟩
    · refine ⟨tree, mem_subtrees_cons.2 (Or.inr (Or.inl deeper)), ?_, own⟩
      rw [hasAround_inside laid deeper, not_or]
      exact ⟨other, clear⟩
    · refine ⟨tree, mem_subtrees_cons.2 (Or.inr (Or.inr later)), ?_, own⟩
      rw [hasAround_next laid later]
      exact clear

end Laid

end Forest

/-- Whether the tree is inside of a foreign subtree of the document. -/
def Document.IsInForeign (doc : Document) (tree : Tree) : Prop :=
  doc.root.inside.HasRootAround tree

instance (doc : Document) (tree : Tree) : Decidable (doc.IsInForeign tree) :=
  inferInstanceAs (Decidable (doc.root.inside.HasRootAround tree))

namespace Builder

/-- An opening tag is read after all that comes before it. -/
theorem addAll_append (b : Builder) (index : LineIndex) (first : List (Nat × Piece)) (place : Nat)
    (tag : OpenTag) (others : List (Nat × Piece)) :
    b.addAll index (first ++ (place, .opening tag) :: others) =
      (b.addAll index first).addAll index ((place, .opening tag) :: others) := by
  fun_induction Builder.addAll b index first with
  | case1 b => rfl
  | case2 b offset piece =>
    have alone : b.voidClose? piece (.opening tag) = none := by cases piece <;> rfl
    rw [List.singleton_append, addAll, alone]
  | case3 b offset piece stop next more written closing found close ih =>
    rw [← ih]
    simp only [List.cons_append, addAll, found]
    rfl
  | case4 b offset piece stop next more apart ih =>
    rw [← ih]
    simp only [List.cons_append, addAll, apart]

@[simp] theorem nextId_place (b : Builder) (tree : Tree) : (b.place tree).nextId = b.nextId := by
  unfold place
  split <;> rfl

@[simp] theorem nextId_finishUnclosed (b : Builder) (index : LineIndex) (count : Nat) :
    (b.finishUnclosed index count).nextId = b.nextId := by
  induction count generalizing b with
  | zero => rfl
  | succ count ih =>
    have innermost : (b.finishInnermost index none).nextId = b.nextId := by
      unfold finishInnermost
      split <;> simp
    rw [finishUnclosed, ih, innermost]

end Builder

theorem Written.Piece.StandsAlone.of_subset {piece : Piece} {outer : List Text}
    {next next' : Option Piece} (stands : piece.StandsAlone outer next)
    (among : ∀ p ∈ next', p ∈ next) : piece.StandsAlone outer next' := by
  cases piece with
  | opening tag => exact ⟨stands.1, fun plain p member => stands.2 plain p (among p member)⟩
  | closing name tail isClosed => exact stands
  | _ => trivial

/-- The pieces that start before a piece are those that come before it. -/
theorem Written.Piece.takeWhile_locate {before : List Piece} (piece : Piece) (rest : List Piece)
    (full : ∀ p ∈ before, p.render ≠ []) :
    (Piece.locate 0 (before ++ piece :: rest)).takeWhile
      (fun read => read.1 < (Piece.renderAll before).byteLength) = Piece.locate 0 before := by
  have earlier : ∀ read ∈ Piece.locate 0 before, read.1 < (Piece.renderAll before).byteLength := by
    rintro ⟨place, own⟩ listed
    obtain ⟨first, second, shown, rfl⟩ := Piece.exists_of_mem_locate listed
    have long : 0 < own.render.byteLength := Piece.width_pos (full own (by simp [shown]))
    simp only [shown, Piece.renderAll_append, Piece.renderAll_cons, Text.byteLength_append]
    omega
  rw [Piece.locate_append, List.takeWhile_append_of_pos (by simpa using earlier)]
  simp [Piece.locate]

namespace Outline

/-- Whether `before` is what of the outline comes before the element `tree`, which is opened by
`written`. The elements that are left open by it are those around the element. -/
structure Precedes (index : LineIndex) (outer : List Text) (parent id offset : Nat)
    (outline before : Outline) (written : OpenTag) (tree : Tree) : Prop where
  nested : before.Nested outer
  pieces : ∃ rest, outline.pieces = before.pieces ++ .opening written :: rest
  name : ∀ tag, tree.node.kind = .element tag → tag.name = written.name
  start : tree.node.span.start = offset + before.width
  number : tree.node.id = id + before.count
  around : isForeignIn before.unclosed = true ↔
    (outline.forest index parent id offset).HasRootAround tree

section Precedes

variable {index : LineIndex} {outer : List Text} {parent id offset : Nat}
  {before inside next : Outline} {written own : OpenTag} {close : Option ClosingTag} {tree : Tree}

/-- Nothing comes before the first element. -/
private theorem Precedes.first {outline : Outline} {node : Node} {content others : Forest}
    {rest : List Piece} {token : Option Token} {hi : Nat}
    (shown : outline.forest index parent id offset = .cons node content others)
    (laid : (Forest.cons node content others).Laid parent id offset hi)
    (pieces : outline.pieces = .opening own :: rest)
    (kind : node.kind = .element (index.tagAt offset own token))
    (start : node.span.start = offset) :
    outline.Precedes index outer parent id offset nil own ⟨node, content⟩ where
  nested := trivial
  pieces := ⟨rest, pieces⟩
  name tag isElement := by
    obtain rfl : tag = _ := Kind.element.inj (isElement.symm.trans kind)
    rfl
  start := start
  number := laid.1.1
  around := by
    rw [shown]
    simp [unclosed, isForeignIn, Forest.not_hasRootAround_head laid]

/-- What comes before an element after a single piece comes after this piece. -/
private theorem Precedes.single {piece : Piece}
    (stands : piece.StandsAlone outer next.pieces.head?)
    (precedes : next.Precedes index outer parent (id + if piece.isClosing then 0 else 1)
      (offset + piece.width) before written tree)
    (same : ((single piece next).forest index parent id offset).HasRootAround tree ↔
      (next.forest index parent (id + if piece.isClosing then 0 else 1)
        (offset + piece.width)).HasRootAround tree) :
    (single piece next).Precedes index outer parent id offset (single piece before) written
      tree where
  nested := by
    obtain ⟨rest, split⟩ := precedes.pieces
    refine ⟨stands.of_subset fun p first => ?_, precedes.nested⟩
    rw [split]
    cases shown : before.pieces <;> simp_all
  pieces := by
    obtain ⟨rest, split⟩ := precedes.pieces
    exact ⟨rest, by simp [split]⟩
  name := precedes.name
  start := by rw [precedes.start, width_single, Nat.add_assoc]
  number := by rw [precedes.number, count, Nat.add_assoc]
  around := precedes.around.trans same.symm

/-- What comes before an element inside another one leaves this one open. -/
private theorem Precedes.within (waits : own.waitsIn outer = true)
    (precedes : inside.Precedes index (own.name :: outer) id (id + 1)
      (offset + own.render.byteLength) before written tree)
    (same : ((element own inside close next).forest index parent id offset).HasRootAround tree ↔
      isForeignRoot own.name = true ∨ (inside.forest index id (id + 1)
        (offset + own.render.byteLength)).HasRootAround tree) :
    (element own inside close next).Precedes index outer parent id offset
      (element own before none nil) written tree where
  nested := ⟨waits, precedes.nested, rfl⟩
  pieces := by
    obtain ⟨rest, split⟩ := precedes.pieces
    exact ⟨rest ++ ((close.map ClosingTag.piece).toList ++ next.pieces), by simp [split]⟩
  name := precedes.name
  start := by simp [precedes.start, Nat.add_assoc]
  number := by
    rw [precedes.number]
    simp only [count]
    omega
  around := by
    rw [same, ← precedes.around]
    simp [unclosed, isForeignIn, or_comm]

/-- What comes before an element after another one comes after the closing tag of this one. -/
private theorem Precedes.after {end_ : ClosingTag}
    (nested : (element own inside (some end_) next).Nested outer)
    (precedes : next.Precedes index outer parent (id + inside.count + 1)
      (offset + own.render.byteLength + inside.width + end_.piece.width) before written tree)
    (same : ((element own inside (some end_) next).forest index parent id offset).HasRootAround
      tree ↔ (next.forest index parent (id + inside.count + 1)
        (offset + own.render.byteLength + inside.width + end_.piece.width)).HasRootAround tree) :
    (element own inside (some end_) next).Precedes index outer parent id offset
      (element own inside (some end_) before) written tree where
  nested := ⟨nested.1, nested.2.1, precedes.nested⟩
  pieces := by
    obtain ⟨rest, split⟩ := precedes.pieces
    exact ⟨rest, by simp [split]⟩
  name := precedes.name
  start := by simp [precedes.start, Nat.add_assoc]
  number := by
    rw [precedes.number]
    simp only [count]
    omega
  around := precedes.around.trans same.symm

end Precedes

/-- Something of the outline comes before each of its elements, if only nothing. -/
theorem exists_precedes (index : LineIndex) {outer : List Text} (parent id offset : Nat)
    {outline : Outline} (nested : outline.Nested outer) (full : outline.IsFull) {tree : Tree}
    (member : tree ∈ (outline.forest index parent id offset).subtrees) {tag : Tag}
    (kind : tree.node.kind = .element tag) :
    ∃ before written, outline.Precedes index outer parent id offset before written tree := by
  have whole := laid_forest index parent id offset outline full
  induction outline generalizing outer parent id offset with
  | nil => simp [forest, Forest.subtrees] at member
  | single piece next ih =>
    obtain ⟨stands, nestedNext⟩ := nested
    obtain ⟨_, fullNext⟩ := full_single full
    have further (id : Nat) := laid_forest index parent id (offset + piece.width) next fullNext
    have isNode := Piece.kindAt?_isNone index offset piece
    cases found : piece.kindAt? index offset with
    | none =>
      have closing : piece.isClosing = true := by simpa [found] using isNode.symm
      simp only [forest, found] at member
      obtain ⟨before, written, precedes⟩ := ih parent id _ nestedNext fullNext member (further id)
      exact ⟨_, written, .single stands (by simpa [closing] using precedes)
        (by simp [forest, found, closing])⟩
    | some kind' =>
      have closing : piece.isClosing = false := by simpa [found] using isNode.symm
      simp only [forest, found] at member whole
      rcases Forest.mem_subtrees_cons.1 member with rfl | deeper | later
      · obtain rfl : kind' = .element tag := kind
        obtain ⟨written, rfl, rfl⟩ := Piece.opening_of_kindAt? found
        exact ⟨nil, written, .first rfl whole rfl rfl rfl⟩
      · simp [Forest.subtrees] at deeper
      · obtain ⟨before, written, precedes⟩ :=
          ih parent (id + 1) _ nestedNext fullNext later (further (id + 1))
        refine ⟨_, written, .single stands (by simpa [closing] using precedes) ?_⟩
        simp only [forest, found, closing]
        exact Forest.hasRootAround_next whole later
  | element own inside close next ihInside ihNext =>
    obtain ⟨_, fullInside, _, fullNext⟩ := full_element full
    have content := laid_forest index id (id + 1) (offset + own.render.byteLength) inside fullInside
    obtain ⟨node, shown, _, kind', start, _, _⟩ :=
      forest_element index parent id offset own inside close next content
    rw [shown] at member whole
    rcases Forest.mem_subtrees_cons.1 member with rfl | deeper | later
    · exact ⟨nil, own, .first shown whole rfl kind' start⟩
    · have waits : own.waitsIn outer = true := by
        rcases waits_or_nil nested with waits | rfl
        · exact waits
        · simp [forest, Forest.subtrees] at deeper
      obtain ⟨before, written, precedes⟩ :=
        ihInside id (id + 1) _ (nested_inside nested) fullInside deeper content
      refine ⟨_, written, .within waits precedes ?_⟩
      rw [shown, Forest.hasRootAround_inside whole deeper, isForeignRoot_of_kind kind']
    · cases close with
      | none =>
        -- After an element without a closing tag nothing comes.
        obtain ⟨_, _, rfl⟩ := nested
        simp [forest, Forest.subtrees] at later
      | some close =>
        obtain ⟨before, written, precedes⟩ :=
          ihNext parent (id + inside.count + 1) _ nested.2.2 fullNext later
            (laid_forest index parent _ _ next fullNext)
        refine ⟨_, written, .after nested precedes ?_⟩
        rw [shown]
        exact Forest.hasRootAround_next whole later

end Outline

namespace Document

/-- The builder when parsing comes to `place`: it has read all pieces before. -/
def builderAt (pairs : List Delimiters) (source : Text) (place : Nat) : Builder :=
  Builder.empty.addAll (LineIndex.ofText source)
    ((Piece.locate 0 (Piece.scanAll pairs source)).takeWhile fun read => read.1 < place)

variable {pairs : List Delimiters} {source : Text}

/-- When parsing comes to an element, the elements that wait are those around it. -/
theorem exists_builderAt {tree : Tree} (member : tree ∈ (parse pairs source).root.inside.subtrees)
    {tag : Tag} (kind : tree.node.kind = .element tag) :
    ∃ written others, tag.name = written.name ∧
      Builder.empty.addAll (LineIndex.ofText source)
          (Piece.locate 0 (Piece.scanAll pairs source)) =
        (builderAt pairs source tree.node.span.start).addAll (LineIndex.ofText source)
          ((tree.node.span.start, .opening written) :: others) ∧
      (builderAt pairs source tree.node.span.start).nextId = tree.node.id ∧
      ((builderAt pairs source tree.node.span.start).isForeign = true ↔
        (parse pairs source).IsInForeign tree) := by
  obtain ⟨outline, covers, nested, parsed⟩ := exists_outline pairs source
  have reads := Piece.reads_scanAll pairs source
  rw [← covers] at reads
  have full : outline.IsFull := Outline.full_of_reads reads
  rw [parsed] at member ⊢
  obtain ⟨before, written, precedes⟩ :=
    Outline.exists_precedes (LineIndex.ofText source) 0 1 0 nested full member kind
  obtain ⟨rest, split⟩ := precedes.pieces
  have start := precedes.start
  rw [Nat.zero_add] at start
  -- The outline of what comes before the element leaves the elements around it open.
  obtain ⟨c, read, names, finished⟩ := leads_outline (LineIndex.ofText source) precedes.nested
    (fun _ _ member => absurd member List.not_mem_nil) Builder.empty rfl 0 []
    (fun _ first => absurd first (by simp))
  rw [List.append_nil] at read names
  have located : Piece.locate 0 (Piece.scanAll pairs source) =
      Piece.locate 0 before.pieces ++ (before.width, .opening written) ::
        Piece.locate (before.width + written.render.byteLength) rest := by
    rw [← covers, split, Piece.locate_append, Nat.zero_add]
    rfl
  have cut : (Piece.locate 0 (Piece.scanAll pairs source)).takeWhile
      (fun read => read.1 < before.width) = Piece.locate 0 before.pieces := by
    rw [← covers, split]
    exact Piece.takeWhile_locate _ rest fun piece member => full piece (by simp [split, member])
  have built : builderAt pairs source before.width = c := by
    rw [builderAt, cut, read.1]
    rfl
  have whole : Builder.empty.addAll (LineIndex.ofText source)
      (Piece.locate 0 before.pieces) = c := read.1
  rw [start, built]
  refine ⟨written, Piece.locate (before.width + written.render.byteLength) rest,
    precedes.name tag kind, ?_, ?_, ?_⟩
  · rw [located, Builder.addAll_append, whole]
  · have counted := congrArg Builder.nextId finished
    rw [Builder.nextId_finishUnclosed] at counted
    rw [counted, precedes.number]
    rfl
  · have waiting : c.isForeign = isForeignIn before.unclosed := by
      rw [← names]
      simp [Builder.isForeign, isForeignIn, Builder.names, List.any_map, Function.comp_def]
    rw [waiting]
    exact precedes.around

theorem laid_parse (pairs : List Delimiters) (source : Text) :
    ∃ hi, (parse pairs source).root.inside.Laid 0 1 0 hi := by
  obtain ⟨root, forest, strays, parsed, _, _, _, laid⟩ := exists_roots_parse pairs source
  rw [parsed]
  exact ⟨_, laid⟩

/-- The document node is inside of nothing. -/
theorem not_isInForeign_root (pairs : List Delimiters) (source : Text) :
    ¬(parse pairs source).IsInForeign (parse pairs source).root := by
  obtain ⟨hi, laid⟩ := laid_parse pairs source
  rintro ⟨around, member, within, _⟩
  exact Nat.not_lt_zero _ (laid.id_lt_of_mem_inside member within)

end Document
end TagLint
