import TagLint.Proofs.HarmlessFixes

/-!
Where the parts of nodes stand that rules report about.

A span and its positions are kept apart, and the positions are those of the span; what is inside an
element stands between its tags. Rules take the places of their reports from nodes and tokens.
-/
namespace TagLint

open Written (Piece OpenTag)

/-- Whether the tree and its tags are shown where they stand, and its content is between its
tags. -/
structure Tree.IsLocated (index : LineIndex) (tree : Tree) : Prop where
  node : tree.node.extent = index.extent tree.node.span
  openEnd : ∀ tag ∈ tree.node.kind.tag?, tag.openEnd.extent = index.extent tag.openEnd.span
  close : ∀ tag ∈ tree.node.kind.tag?, ∀ close ∈ tag.close,
    close.extent = index.extent close.span
  /-- Each child comes after the opening tag and before the closing tag. -/
  children : ∀ tag ∈ tree.node.kind.tag?, ∀ child ∈ tree.children,
    tag.openEnd.span.stop ≤ child.node.span.start ∧
      ∀ close ∈ tag.close, child.node.span.stop ≤ close.span.start

namespace Outline

theorem isLocated_forest (index : LineIndex) (parent id offset : Nat) {outline : Outline}
    (full : outline.IsFull) :
    ∀ tree ∈ (outline.forest index parent id offset).subtrees, tree.IsLocated index := by
  induction outline generalizing parent id offset with
  | nil => simp [forest, Forest.subtrees]
  | single piece next ih =>
    intro tree member
    obtain ⟨_, fullNext⟩ := full_single full
    cases kind : piece.kindAt? index offset with
    | none =>
      simp only [forest, kind] at member
      exact ih _ _ _ fullNext tree member
    | some kind' =>
      simp only [forest, kind] at member
      rcases Forest.mem_subtrees_cons.1 member with rfl | deeper | later
      · -- An element that is one piece has neither a closing tag nor content.
        have element : ∀ tag ∈ kind'.tag?, ∃ written, tag = index.tagAt offset written none := by
          intro tag tagged
          rw [Option.mem_def, Kind.tag?_eq_some_iff] at tagged
          obtain ⟨written, _, rfl⟩ := Piece.opening_of_kindAt? (tagged ▸ kind)
          exact ⟨written, rfl⟩
        refine ⟨rfl, fun tag tagged => ?_, fun tag tagged close closed => ?_, by
          simp [Tree.children, Forest.trees]⟩
        · obtain ⟨written, rfl⟩ := element tag tagged
          rfl
        · obtain ⟨written, rfl⟩ := element tag tagged
          contradiction
      · simp [Forest.subtrees] at deeper
      · exact ih _ _ _ fullNext tree later
  | element tag inside close next ihInside ihNext =>
    intro tree member
    obtain ⟨_, fullInside, _, fullNext⟩ := full_element full
    have content := laid_forest index id (id + 1) (offset + tag.render.byteLength) inside fullInside
    obtain ⟨node, shown, _, kind, _, extent, _⟩ :=
      forest_element index parent id offset tag inside close next content
    rw [shown] at member
    rcases Forest.mem_subtrees_cons.1 member with rfl | deeper | later
    · have own : ∀ tag' ∈ node.kind.tag?, tag' = index.tagAt offset tag (close.map fun close =>
          index.tokenAt (offset + tag.render.byteLength + inside.width) close.piece.render) := by
        intro tag' tagged
        rw [kind] at tagged
        exact (Option.some.inj tagged).symm
      refine ⟨extent, fun tag' tagged => ?_, fun tag' tagged token closed => ?_,
        fun tag' tagged child among => ?_⟩
      · rw [own tag' tagged]
        rfl
      · rw [own tag' tagged] at closed
        obtain ⟨_, _, rfl⟩ := Option.map_eq_some_iff.1 closed
        rfl
      · obtain ⟨_, _, start, stop⟩ := content.of_mem_trees among
        rw [own tag' tagged, LineIndex.tagAt_stop]
        refine ⟨start, fun token closed => ?_⟩
        obtain ⟨_, _, rfl⟩ := Option.map_eq_some_iff.1 closed
        exact stop
    · exact ihInside _ _ _ fullInside tree deeper
    · exact ihNext _ _ _ fullNext tree later

end Outline

theorem ElementNewline.mem_subtrees_of_mem_solid {forest : Forest} {tree : Tree}
    (member : tree ∈ ElementNewline.solid forest) : tree ∈ forest.subtrees :=
  forest.trees_sublist.mem (List.mem_filter.1 member).1

namespace ClosingTags

/-- A report about an element is about the end of its opening tag or about all of it. -/
theorem place_of_check {rule : ClosingTags} {isForeign : Bool} {tree : Tree} {tag : Tag}
    {report : Report} (found : rule.check isForeign tree tag = some report) :
    (report.span = tag.openEnd.span ∧ report.extent = tag.openEnd.extent) ∨
      (report.span = tree.node.span ∧ report.extent = tree.node.extent) := by
  have ends {shouldClose isFixable : Bool}
      (found : checkEnd tree tag shouldClose isFixable = some report) :
      report.span = tag.openEnd.span ∧ report.extent = tag.openEnd.extent := by
    unfold checkEnd at found
    simp only at found
    split at found
    · obtain rfl := Option.some.inj found
      exact ⟨rfl, rfl⟩
    · split at found
      · obtain rfl := Option.some.inj found
        exact ⟨rfl, rfl⟩
      · contradiction
  unfold check at found
  simp only at found
  split at found
  · exact Or.inl (ends found)
  · split at found
    · exact Or.inl (ends found)
    · split at found
      · obtain rfl := Option.some.inj found
        exact Or.inr ⟨rfl, rfl⟩
      · contradiction

end ClosingTags

namespace Document

variable {pairs : List Delimiters} {source : Text}

theorem isLocated_parse {tree : Tree} (member : tree ∈ (parse pairs source).root.inside.subtrees) :
    tree.IsLocated (LineIndex.ofText source) := by
  obtain ⟨outline, covers, _, parsed⟩ := exists_outline pairs source
  have full : outline.IsFull := Outline.full_of_reads (covers ▸ Piece.reads_scanAll pairs source)
  rw [parsed] at member
  exact Outline.isLocated_forest _ _ _ _ full tree member

end Document
end TagLint
