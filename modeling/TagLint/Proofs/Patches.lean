import TagLint.Edit.Diff
import Mathlib.Data.List.Basic

/-!
The difference of two texts is a patch of one hunk.

The lines that both texts start with come first. The lines that both end with are looked for only
after them, so the two never overlap, even if one text repeats the other; and what is left in
between is what changes. Every part of the hunk then stands where the numbers in its header say.
-/
namespace TagLint

/-- What a line is in a patch for. -/
inductive Mark where
  | kept
  | removed
  | added
  deriving DecidableEq

/-- How the mark is written. -/
def Mark.char : Mark → Char
  | kept => ' '
  | removed => '-'
  | added => '+'

/-- A patch of one hunk: the number of its first line, how many lines of each text it has, and its
lines with their marks. -/
structure Patch where
  start : Nat
  oldCount : Nat
  newCount : Nat
  lines : List (Mark × Text)

namespace Patch

def oldLines (patch : Patch) : List Text :=
  (patch.lines.filter fun line => line.1 ≠ .added).map Prod.snd

def newLines (patch : Patch) : List Text :=
  (patch.lines.filter fun line => line.1 ≠ .removed).map Prod.snd

def header (patch : Patch) : Text :=
  "@@ -".toList ++ Nat.toDigits 10 patch.start ++ ',' :: Nat.toDigits 10 patch.oldCount ++
    " +".toList ++ Nat.toDigits 10 patch.start ++ ',' :: Nat.toDigits 10 patch.newCount ++
    " @@\n".toList

/-- The patch as written. -/
def render (path : String) (patch : Patch) : Text :=
  "--- a/".toList ++ path.toList ++ "\n+++ b/".toList ++ path.toList ++ '\n' :: patch.header ++
    patch.lines.flatMap fun line => line.1.char :: line.2 ++ ['\n']

theorem render_ne_nil (path : String) (patch : Patch) : patch.render path ≠ [] := by
  unfold render
  apply List.append_ne_nil_of_left_ne_nil
  apply List.append_ne_nil_of_right_ne_nil
  exact List.cons_ne_nil '\n' patch.header

/-- The difference of two numbers, if the first is not the smaller one. -/
def minus? (a b : Nat) : Option Nat :=
  if b ≤ a then some (a - b) else none

/-- The lines from `start` up to, and without, `stop`, if there are such lines. -/
def slice? (lines : List Text) (start stop : Nat) : Option (List Text) :=
  if start ≤ stop ∧ stop ≤ lines.length then some ((lines.take stop).drop start) else none

/-- The hunk by the places of its parts, where each difference and each slice has to be one. -/
def cut? (old new : List Text) : Option Patch := do
  let lead := Hunk.commonLead old new
  let trail := Hunk.commonLead (old.drop lead).reverse (new.drop lead).reverse
  let start := lead - Hunk.contextSize
  let oldStop ← minus? old.length trail
  let newStop ← minus? new.length trail
  let oldCount ← minus? (min (oldStop + Hunk.contextSize) old.length) start
  let newCount ← minus? (min (newStop + Hunk.contextSize) new.length) start
  let before ← slice? old start lead
  let removed ← slice? old lead oldStop
  let added ← slice? new lead newStop
  let after ← slice? old oldStop (min (oldStop + Hunk.contextSize) old.length)
  return {
    start := start + 1
    oldCount := oldCount
    newCount := newCount
    lines := before.map (.kept, ·) ++ removed.map (.removed, ·) ++ added.map (.added, ·) ++
      after.map (.kept, ·) }

theorem minus?_add (a b : Nat) : minus? (a + b) b = some a := by
  rw [minus?, if_pos (Nat.le_add_left b a), Nat.add_sub_cancel]

theorem slice?_append (a b c : List Text) :
    slice? (a ++ b ++ c) a.length (a.length + b.length) = some b := by
  have within : a.length ≤ a.length + b.length ∧ a.length + b.length ≤ (a ++ b ++ c).length := by
    simp only [List.length_append]
    omega
  rw [slice?, if_pos within, ← List.length_append, List.take_left, List.drop_left]

/-- Whether the patch turns the lines `old` into the lines `new`. -/
structure Turns (patch : Patch) (old new : List Text) : Prop where
  /-- What the patch has of the two texts stands at its first line in both, and the lines before
  and after it are the same. -/
  around : ∃ before after, before.length + 1 = patch.start ∧
    old = before ++ patch.oldLines ++ after ∧ new = before ++ patch.newLines ++ after
  oldCount : patch.oldCount = patch.oldLines.length
  newCount : patch.newCount = patch.newLines.length
  /-- Something changes, with at most two lines of context on each side. -/
  context : ∃ lead changed trail, patch.lines = lead ++ changed ++ trail ∧
    lead.length ≤ 2 ∧ trail.length ≤ 2 ∧ (∀ line ∈ lead ++ trail, line.1 = .kept) ∧
    changed ≠ [] ∧ ∀ line ∈ changed, line.1 ≠ .kept
  /-- Each line of the patch is one line as written. -/
  unbroken : ∀ line ∈ patch.lines, '\n' ∉ line.2

end Patch

namespace Hunk

theorem exists_common (old new : List Text) :
    ∃ common oldRest newRest, old = common ++ oldRest ∧ new = common ++ newRest ∧
      commonLead old new = common.length := by
  induction old generalizing new with
  | nil => exact ⟨[], [], new, rfl, rfl, rfl⟩
  | cons a old ih =>
    cases new with
    | nil => exact ⟨[], a :: old, [], rfl, rfl, rfl⟩
    | cons b new =>
      by_cases same : a = b
      · subst same
        obtain ⟨common, oldRest, newRest, rfl, rfl, count⟩ := ih new
        exact ⟨a :: common, oldRest, newRest, rfl, rfl, by simp [commonLead, count]⟩
      · exact ⟨[], a :: old, b :: new, rfl, rfl, by simp [commonLead, same]⟩

theorem commonLead_self (lines : List Text) : commonLead lines lines = lines.length := by
  induction lines with
  | nil => rfl
  | cons line lines ih => simp [commonLead, ih]

/-- How two lists of lines are cut: what both start with, what both end with after that, and what is
left in between. -/
structure IsCut (old new lead removed added trail : List Text) : Prop where
  first : old = lead ++ removed ++ trail
  second : new = lead ++ added ++ trail
  leads : commonLead old new = lead.length
  trails : commonLead (old.drop lead.length).reverse (new.drop lead.length).reverse = trail.length

theorem exists_isCut (old new : List Text) :
    ∃ lead removed added trail, IsCut old new lead removed added trail := by
  obtain ⟨lead, oldRest, newRest, rfl, rfl, count⟩ := exists_common old new
  -- What the rests end with together is what they start with together when reversed.
  obtain ⟨trail, removed, added, oldSplit, newSplit, final⟩ :=
    exists_common oldRest.reverse newRest.reverse
  rw [List.reverse_eq_iff, List.reverse_append] at oldSplit newSplit
  refine ⟨lead, removed.reverse, added.reverse, trail.reverse, ?_, ?_, count, ?_⟩
  · rw [oldSplit, List.append_assoc]
  · rw [newSplit, List.append_assoc]
  · rw [List.drop_left, List.drop_left, final, List.length_reverse]

/-- The hunk as a patch. -/
def toPatch (hunk : Hunk) : Patch :=
  let around := hunk.lead.length + hunk.trail.length
  { start := hunk.offset + 1
    oldCount := around + hunk.removed.length
    newCount := around + hunk.added.length
    lines := hunk.lead.map (.kept, ·) ++ hunk.removed.map (.removed, ·) ++
      hunk.added.map (.added, ·) ++ hunk.trail.map (.kept, ·) }

theorem oldLines_toPatch (hunk : Hunk) :
    hunk.toPatch.oldLines = hunk.lead ++ hunk.removed ++ hunk.trail := by
  simp [Patch.oldLines, toPatch, List.filter_map, Function.comp_def]

theorem newLines_toPatch (hunk : Hunk) :
    hunk.toPatch.newLines = hunk.lead ++ hunk.added ++ hunk.trail := by
  simp [Patch.newLines, toPatch, List.filter_map, Function.comp_def]

theorem render_toPatch (hunk : Hunk) (path : String) :
    "--- a/".toList ++ path.toList ++ "\n+++ b/".toList ++ path.toList ++ '\n' :: hunk.header ++
      hunk.body = hunk.toPatch.render path := by
  have marked (mark : Mark) (lines : List Text) :
      (lines.map (mark, ·)).flatMap (fun line => line.1.char :: line.2 ++ ['\n']) =
        lines.flatMap (markedLine mark.char) := by
    rw [List.flatMap_map]
    rfl
  have lines : hunk.body =
      hunk.toPatch.lines.flatMap fun line => line.1.char :: line.2 ++ ['\n'] := by
    rw [toPatch, List.flatMap_append, List.flatMap_append, List.flatMap_append, marked, marked,
      marked, marked]
    rfl
  rw [lines]
  rfl

/-- The counts of a hunk are those of its lines. -/
theorem counts_toPatch (hunk : Hunk) :
    hunk.toPatch.oldCount = hunk.toPatch.oldLines.length ∧
      hunk.toPatch.newCount = hunk.toPatch.newLines.length := by
  rw [oldLines_toPatch, newLines_toPatch]
  simp only [toPatch, List.length_append]
  omega

/-- The lines that change are all between the lines of context. -/
theorem context_toPatch {hunk : Hunk} (changes : hunk.removed ≠ [] ∨ hunk.added ≠ [])
    (near : hunk.lead.length ≤ contextSize) (far : hunk.trail.length ≤ contextSize) :
    ∃ lead changed trail, hunk.toPatch.lines = lead ++ changed ++ trail ∧
      lead.length ≤ contextSize ∧ trail.length ≤ contextSize ∧
      (∀ line ∈ lead ++ trail, line.1 = .kept) ∧
      changed ≠ [] ∧ ∀ line ∈ changed, line.1 ≠ .kept := by
  refine ⟨hunk.lead.map (.kept, ·), hunk.removed.map (.removed, ·) ++ hunk.added.map (.added, ·),
    hunk.trail.map (.kept, ·), ?_, ?_, ?_, ?_, ?_, ?_⟩
  · simp [toPatch]
  · rwa [List.length_map]
  · rwa [List.length_map]
  · intro line member
    rw [← List.map_append] at member
    obtain ⟨_, _, rfl⟩ := List.mem_map.1 member
    rfl
  · rcases changes with removed | added
    · simp [removed]
    · simp [added]
  · intro line member
    rcases List.mem_append.1 member with own | own
    · obtain ⟨_, _, rfl⟩ := List.mem_map.1 own
      simp
    · obtain ⟨_, _, rfl⟩ := List.mem_map.1 own
      simp

/-- The hunk of two texts that are cut into the given parts. -/
def ofParts (lead removed added trail : List Text) : Hunk :=
  { offset := lead.length - contextSize
    lead := lead.drop (lead.length - contextSize)
    removed := removed
    added := added
    trail := trail.take contextSize }

namespace IsCut

variable {old new lead removed added trail : List Text}

theorem sides (cut : IsCut old new lead removed added trail) :
    old.drop lead.length = removed ++ trail ∧ new.drop lead.length = added ++ trail ∧
      old.take lead.length = lead ∧ new.take lead.length = lead := by
  simp [cut.first, cut.second]

theorem between?_eq (cut : IsCut old new lead removed added trail) (differ : old ≠ new) :
    Hunk.between? old new = some (ofParts lead removed added trail) := by
  obtain ⟨oldRest, newRest, oldLead, newLead⟩ := cut.sides
  have going : (lead.length == old.length && lead.length == new.length) = false := by
    rw [Bool.eq_false_iff, Ne, Bool.and_eq_true, beq_iff_eq, beq_iff_eq]
    rintro ⟨all, both⟩
    rw [all, List.take_length] at oldLead
    rw [both, List.take_length] at newLead
    exact differ (oldLead.trans newLead.symm)
  have trails := cut.trails
  rw [oldRest, newRest] at trails
  simp only [between?, cut.leads, going, Bool.false_eq_true, if_false, oldRest, newRest, trails,
    oldLead]
  simp [ofParts]

/-- No difference and no slice of the hunk is out of range. -/
theorem cut?_eq (cut : IsCut old new lead removed added trail) :
    Patch.cut? old new = some (ofParts lead removed added trail).toPatch := by
  let context := trail.take contextSize
  have short : context.length = min contextSize trail.length := List.length_take
  -- The lines after the change go on for the context or to the end of the text.
  have reach {lines changed : List Text} (shown : lines = lead ++ changed ++ trail) :
      min (lead.length + changed.length + contextSize) lines.length =
        lead.length + changed.length + context.length := by
    rw [shown, List.length_append, List.length_append, short]
    omega
  have stop {lines changed : List Text} (shown : lines = lead ++ changed ++ trail) :
      Patch.minus? lines.length trail.length = some (lead.length + changed.length) := by
    rw [shown, List.length_append, List.length_append, Patch.minus?_add]
  have count (changed : List Text) :
      Patch.minus? (lead.length + changed.length + context.length) (lead.length - contextSize) =
        some ((lead.drop (lead.length - contextSize)).length + context.length +
          changed.length) := by
    have split : lead.length + changed.length + context.length =
        (lead.drop (lead.length - contextSize)).length + context.length + changed.length +
          (lead.length - contextSize) := by
      rw [List.length_drop]
      omega
    rw [split, Patch.minus?_add]
  have before : Patch.slice? old (lead.length - contextSize) lead.length =
      some (lead.drop (lead.length - contextSize)) := by
    have place : (lead.take (lead.length - contextSize)).length = lead.length - contextSize := by
      rw [List.length_take]
      omega
    have found := Patch.slice?_append (lead.take (lead.length - contextSize))
      (lead.drop (lead.length - contextSize)) (removed ++ trail)
    rw [← List.length_append, List.take_append_drop, place] at found
    rw [cut.first, List.append_assoc]
    exact found
  have taken : Patch.slice? old lead.length (lead.length + removed.length) = some removed := by
    rw [cut.first]
    exact Patch.slice?_append lead removed trail
  have put : Patch.slice? new lead.length (lead.length + added.length) = some added := by
    rw [cut.second]
    exact Patch.slice?_append lead added trail
  have after : Patch.slice? old (lead.length + removed.length)
      (lead.length + removed.length + context.length) = some context := by
    have found := Patch.slice?_append (lead ++ removed) context (trail.drop contextSize)
    rw [List.append_assoc, List.take_append_drop, List.length_append] at found
    rw [cut.first]
    exact found
  simp only [Patch.cut?, cut.leads, cut.trails, Option.bind_eq_bind, Option.bind_some,
    stop cut.first, stop cut.second, reach cut.first, reach cut.second, count, before, taken, put,
    after]
  rfl

/-- Before and after the patch of a cut, the two texts have the same lines. -/
theorem around_toPatch (cut : IsCut old new lead removed added trail) :
    let patch := (ofParts lead removed added trail).toPatch
    ∃ before after, before.length + 1 = patch.start ∧
      old = before ++ patch.oldLines ++ after ∧ new = before ++ patch.newLines ++ after := by
  let hunk := ofParts lead removed added trail
  have start : lead.take hunk.offset ++ hunk.lead = lead := List.take_append_drop _ _
  have stop : hunk.trail ++ trail.drop contextSize = trail := List.take_append_drop _ _
  have place : (lead.take hunk.offset).length = hunk.offset := by
    rw [List.length_take]
    exact Nat.min_eq_left (Nat.sub_le _ _)
  refine ⟨lead.take hunk.offset, trail.drop contextSize, ?_, ?_, ?_⟩
  · rw [place]
    rfl
  · rw [oldLines_toPatch, ← List.append_assoc, ← List.append_assoc, start, List.append_assoc, stop]
    exact cut.first
  · rw [newLines_toPatch, ← List.append_assoc, ← List.append_assoc, start, List.append_assoc, stop]
    exact cut.second

/-- Each line of the patch of a cut is a line of one of the texts. -/
theorem mem_or_mem_of_mem_toPatch (cut : IsCut old new lead removed added trail)
    {line : Mark × Text} (member : line ∈ (ofParts lead removed added trail).toPatch.lines) :
    line.2 ∈ old ∨ line.2 ∈ new := by
  have shown : (ofParts lead removed added trail).toPatch.lines.map Prod.snd =
      lead.drop (lead.length - contextSize) ++ removed ++ added ++ trail.take contextSize := by
    simp [toPatch, ofParts, Function.comp_def]
  have among := shown ▸ List.mem_map_of_mem (f := Prod.snd) member
  rw [cut.first, cut.second]
  simp only [List.mem_append] at among ⊢
  rcases among with ((near | removed) | added) | far
  · exact Or.inl (Or.inl (Or.inl (List.mem_of_mem_drop near)))
  · exact Or.inl (Or.inl (Or.inr removed))
  · exact Or.inr (Or.inl (Or.inr added))
  · exact Or.inl (Or.inr (List.mem_of_mem_take far))

/-- The patch of a cut turns the one list of lines into the other. -/
theorem turns (cut : IsCut old new lead removed added trail) (differ : old ≠ new)
    (oldLines : ∀ line ∈ old, '\n' ∉ line) (newLines : ∀ line ∈ new, '\n' ∉ line) :
    (ofParts lead removed added trail).toPatch.Turns old new := by
  let hunk := ofParts lead removed added trail
  -- Two texts that differ nowhere but in what both start or end with are the same.
  have changes : hunk.removed ≠ [] ∨ hunk.added ≠ [] := by
    by_contra! none
    have same : removed = [] ∧ added = [] := none
    exact differ (by rw [cut.first, cut.second, same.1, same.2])
  have near : hunk.lead.length ≤ contextSize := by
    have count : hunk.lead.length = lead.length - (lead.length - contextSize) := List.length_drop
    omega
  have far : hunk.trail.length ≤ contextSize := List.length_take_le _ _
  refine ⟨cut.around_toPatch, hunk.counts_toPatch.1, hunk.counts_toPatch.2,
    context_toPatch changes near far, fun line member => ?_⟩
  rcases cut.mem_or_mem_of_mem_toPatch member with first | second
  · exact oldLines line.2 first
  · exact newLines line.2 second

end IsCut

theorem between?_self (lines : List Text) : between? lines lines = none := by
  simp [between?, commonLead_self]

end Hunk

namespace Text

/-- Terminated lines have no line feed in them. -/
theorem unbroken_terminatedLines (t : Text) : ∀ line ∈ t.terminatedLines, '\n' ∉ line := by
  fun_induction terminatedLines t with
  | case1 => simp
  | case2 t ih => simpa using ih
  | case3 t ih => simpa using ih
  | case4 c other =>
    simp only [List.mem_singleton, forall_eq]
    exact fun same => other same.symm
  | case5 c d t other _ first others shown ih =>
    rw [shown, List.forall_mem_cons] at ih
    rw [List.forall_mem_cons]
    refine ⟨fun member => ?_, ih.2⟩
    rcases List.mem_cons.1 member with same | later
    · exact other same.symm
    · exact ih.1 later
  | case6 c d t other =>
    simp only [List.mem_singleton, forall_eq]
    exact fun same => other same.symm

end Text

/-- Whether the text is empty if the lines are the same, and else a patch that turns the ones into
the others and that can be cut out of them. -/
structure IsPatch (path : String) (old new : List Text) (diff : Text) : Prop where
  empty : diff = [] ↔ old = new
  patch : old ≠ new → ∃ patch, Patch.cut? old new = some patch ∧ diff = patch.render path ∧
    patch.Turns old new

/-- The difference of two texts is a patch for their lines. -/
theorem isPatch_unifiedDiff (path : String) (old new : Text) :
    IsPatch path old.terminatedLines new.terminatedLines (unifiedDiff path old new) := by
  by_cases same : old.terminatedLines = new.terminatedLines
  · have none : unifiedDiff path old new = [] := by
      rw [unifiedDiff, same, Hunk.between?_self]
    exact ⟨iff_of_true none same, fun differ => absurd same differ⟩
  · obtain ⟨lead, removed, added, trail, cut⟩ :=
      Hunk.exists_isCut old.terminatedLines new.terminatedLines
    have shown : unifiedDiff path old new =
        (Hunk.ofParts lead removed added trail).toPatch.render path := by
      rw [unifiedDiff, cut.between?_eq same, ← Hunk.render_toPatch]
    refine ⟨iff_of_false ?_ same, fun differ => ⟨_, cut.cut?_eq, shown, ?_⟩⟩
    · rw [shown]
      exact Patch.render_ne_nil path _
    · exact cut.turns differ old.unbroken_terminatedLines new.unbroken_terminatedLines

end TagLint
