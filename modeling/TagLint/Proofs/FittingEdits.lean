import TagLint.Proofs.Splicing

/-!
Edits that fit a source are applied without fail.

An edit fits where it starts and stops between characters. Edits that fit and lie one after the
other can be spliced, so each fix of such edits is merged into one edit that fits; and of those as
many are taken as are apart. Applying such fixes never fails, and it changes nothing only where
there is no fix.
-/
namespace TagLint

namespace Text

/-- Whether the offset lies between characters of the text, or at one of its ends. -/
def IsBoundary (t : Text) (place : Nat) : Prop :=
  ∃ before after, t = before ++ after ∧ before.byteLength = place

theorem IsBoundary.le {t : Text} {place : Nat} (boundary : t.IsBoundary place) :
    place ≤ t.byteLength := by
  obtain ⟨before, after, rfl, rfl⟩ := boundary
  rw [byteLength_append]
  exact Nat.le_add_right _ _

/-- What lies between two boundaries is a text. -/
theorem IsBoundary.exists_between {before t : Text} {stop : Nat}
    (boundary : (before ++ t).IsBoundary stop) (later : before.byteLength ≤ stop) :
    ∃ middle after, t = middle ++ after ∧ (before ++ middle).byteLength = stop := by
  obtain ⟨whole, after, split, rfl⟩ := boundary
  obtain ⟨middle, rfl, rest⟩ := exists_middle split later
  exact ⟨middle, after, rest, rfl⟩

end Text

/-- Whether the edit replaces what is between two boundaries of the source. -/
structure Edit.Fits (source : Text) (e : Edit) : Prop where
  ordered : e.start ≤ e.stop
  start : source.IsBoundary e.start
  stop : source.IsBoundary e.stop

namespace Edit

/-- Edits of a text that fit and lie one after the other turn it into another text. -/
theorem exists_rewrites {before t after : Text} {edits : List Edit}
    (fits : ∀ e ∈ edits, e.Fits (before ++ t ++ after))
    (within : ∀ e ∈ edits, before.byteLength ≤ e.start ∧ e.stop ≤ (before ++ t).byteLength)
    (sorted : edits.Pairwise fun a b => a.stop ≤ b.start) :
    ∃ t', Rewrites before.byteLength t edits t' := by
  induction edits generalizing before t with
  | nil => exact ⟨t, .keep _ t⟩
  | cons e others ih =>
    obtain ⟨first, rest⟩ := List.pairwise_cons.1 sorted
    obtain ⟨ordered, start, stop⟩ := fits e List.mem_cons_self
    obtain ⟨lower, upper⟩ := within e List.mem_cons_self
    -- The text is what is kept before the edit, what it replaces, and the text of the other edits.
    rw [List.append_assoc] at start stop
    obtain ⟨kept, more, split, here⟩ := start.exists_between lower
    rw [← List.append_assoc, List.append_assoc, split, ← List.append_assoc] at stop
    obtain ⟨old, further, split', there⟩ := stop.exists_between (by omega)
    rw [split', ← List.append_assoc] at split
    obtain ⟨left, rfl, -⟩ := Text.exists_middle split.symm (by
      simp only [Text.byteLength_append] at upper there ⊢
      omega)
    have shown : before ++ (kept ++ old ++ left) ++ after =
        before ++ kept ++ old ++ left ++ after := by simp
    rw [shown] at fits
    have fits' : ∀ other ∈ others, other.Fits (before ++ kept ++ old ++ left ++ after) :=
      fun other member => fits other (List.mem_cons_of_mem e member)
    have within' : ∀ other ∈ others, (before ++ kept ++ old).byteLength ≤ other.start ∧
        other.stop ≤ (before ++ kept ++ old ++ left).byteLength := by
      intro other member
      have later := first other member
      have bound := (within other (List.mem_cons_of_mem e member)).2
      simp only [Text.byteLength_append] at there bound ⊢
      omega
    obtain ⟨left', rewrites⟩ := ih fits' within' rest
    have place : before.byteLength + kept.byteLength = e.start := by
      rw [← Text.byteLength_append, here]
    have ends : e.start + old.byteLength = e.stop := by
      rw [← here, ← Text.byteLength_append, there]
    have replaced := Rewrites.replace e.start old e.text
    rw [there, ← ends] at rewrites
    rw [ends] at replaced
    refine ⟨kept ++ (e.text ++ left'), ?_⟩
    rw [List.append_assoc]
    apply Rewrites.keep_left kept
    rw [place]
    exact replaced.append rewrites

/-- A fix of one edit that fits is merged into that edit. -/
theorem Fits.merged? {source : Text} {e : Edit} (fits : e.Fits source) :
    (Fix.mk [e]).merged? source = some e := by
  obtain ⟨before, rest, rfl, here⟩ := fits.start
  obtain ⟨old, after, rfl, there⟩ := fits.stop.exists_between (here ▸ fits.ordered)
  have replaced := Rewrites.replace e.start old e.text
  have stop : e.start + old.byteLength = e.stop := by
    rw [← there, Text.byteLength_append, here]
  rw [stop, ← here] at replaced
  have merged := replaced.merged?_eq (by simp [Fix.span, there]) after
  rw [there, here, List.append_assoc] at merged
  exact merged

end Edit

namespace Fix

/-- Whether the edits of the fix fit the source and lie one after the other. -/
structure Fits (source : Text) (fix : Fix) : Prop where
  nonempty : fix.edits ≠ []
  edits : ∀ e ∈ fix.edits, e.Fits source
  sorted : fix.edits.Pairwise fun a b => a.stop ≤ b.start

variable {source : Text} {fix : Fix}

/-- The range of a fix that fits starts where its first edit does and stops where its last one
does. -/
theorem Fits.span (fits : fix.Fits source) :
    (∃ first ∈ fix.edits, fix.span.start = first.start) ∧
      (∃ last ∈ fix.edits, fix.span.stop = last.stop) ∧
      ∀ e ∈ fix.edits, fix.span.start ≤ e.start ∧ e.stop ≤ fix.span.stop := by
  obtain ⟨edits⟩ := fix
  obtain ⟨e, others, rfl⟩ := List.exists_cons_of_ne_nil fits.nonempty
  obtain ⟨start, lowest⟩ : ∃ start, ((e :: others).map Edit.start).min? = some start :=
    ⟨_, rfl⟩
  obtain ⟨stop, highest⟩ : ∃ stop, ((e :: others).map Edit.stop).max? = some stop :=
    ⟨_, rfl⟩
  have starts : (Fix.mk (e :: others)).span.start = start := by simp only [span, lowest]; rfl
  have stops : (Fix.mk (e :: others)).span.stop = stop := by
    simp only [span, highest]
    rfl
  rw [List.min?_eq_some_iff] at lowest
  rw [List.max?_eq_some_iff] at highest
  obtain ⟨first, among, here⟩ := List.mem_map.1 lowest.1
  obtain ⟨last, among', there⟩ := List.mem_map.1 highest.1
  rw [starts, stops]
  refine ⟨⟨first, among, here.symm⟩, ⟨last, among', there.symm⟩, fun other member => ?_⟩
  exact ⟨lowest.2 _ (List.mem_map_of_mem member), highest.2 _ (List.mem_map_of_mem member)⟩

/-- The edits of a fix that fits turn the text of its range into another one, and the fix is merged
into the edit that does the same. -/
theorem Fits.exists_rewrites (fits : fix.Fits source) :
    ∃ before middle after text, source = before ++ middle ++ after ∧
      fix.span = ⟨before.byteLength, (before ++ middle).byteLength⟩ ∧
      Edit.Rewrites before.byteLength middle fix.edits text ∧
      fix.merged? source = some ⟨before.byteLength, (before ++ middle).byteLength, text⟩ := by
  obtain ⟨⟨first, among, starts⟩, ⟨last, among', stops⟩, bounds⟩ := fits.span
  have ordered : fix.span.start ≤ fix.span.stop := by
    have := (fits.edits first among).ordered
    have := (bounds first among).2
    omega
  have start := (fits.edits first among).start
  have stop := (fits.edits last among').stop
  rw [← starts] at start
  rw [← stops] at stop
  obtain ⟨before, rest, rfl, here⟩ := start
  obtain ⟨middle, after, rfl, there⟩ := stop.exists_between (here ▸ ordered)
  rw [← List.append_assoc] at fits ⊢
  obtain ⟨text, rewrites⟩ := Edit.exists_rewrites fits.edits
    (fun e member => by rw [here, there]; exact bounds e member) fits.sorted
  have range : fix.span = ⟨before.byteLength, (before ++ middle).byteLength⟩ := by
    rw [here, there]
  exact ⟨before, middle, after, text, rfl, range, rewrites, rewrites.merged?_eq range after⟩

/-- A fix that fits is merged into one edit of its range, which fits. -/
theorem Fits.exists_merged (fits : fix.Fits source) :
    ∃ e : Edit, fix.merged? source = some e ∧ e.span = fix.span ∧ e.Fits source := by
  obtain ⟨before, middle, after, text, rfl, range, _, merged⟩ := fits.exists_rewrites
  refine ⟨_, merged, range.symm, ?_, ⟨before, middle ++ after, ?_, rfl⟩, before ++ middle, after,
    rfl, rfl⟩
  · rw [Text.byteLength_append]
    exact Nat.le_add_right _ _
  · exact List.append_assoc _ _ _

end Fix

namespace Selection

/-- The edits that are taken are some of those that there are, in their order. -/
theorem choose_sublist (last : Option Nat) (edits : List Edit) :
    (choose last edits).taken.Sublist edits := by
  induction edits generalizing last with
  | nil => exact List.Sublist.refl _
  | cons e others ih =>
    rw [choose]
    split
    · exact (ih last).cons e
    · exact (ih (some e.stop)).cons_cons e

/-- The first edit is always taken. -/
theorem taken_choose_eq_nil_iff {edits : List Edit} :
    (choose none edits).taken = [] ↔ edits = [] := by
  cases edits <;> simp [choose]

/-- The edits that are taken are apart from each other and from what was taken before. -/
theorem choose_apart {edits : List Edit} (ordered : ∀ e ∈ edits, e.start ≤ e.stop)
    (last : Option Nat) :
    Edit.Apart (choose last edits).taken ∧
      ∀ e ∈ (choose last edits).taken, ∀ stop ∈ last, stop < e.start := by
  -- An edit that is taken becomes the last one, so what comes after it has to start later.
  induction edits generalizing last with
  | nil => simp [choose, Edit.Apart]
  | cons e others ih =>
    have further := fun last => ih (fun other member =>
      ordered other (List.mem_cons_of_mem e member)) last
    rw [choose]
    split
    · exact further last
    next free =>
      obtain ⟨⟨inner, sorted⟩, after⟩ := further (some e.stop)
      have long := ordered e List.mem_cons_self
      have here : ∀ stop ∈ last, stop < e.start := by
        rintro stop ⟨⟩
        simpa using free
      refine ⟨⟨?_, List.Pairwise.cons (fun other member => after other member _ rfl) sorted⟩, ?_⟩
      · intro other member
        rcases List.mem_cons.1 member with rfl | later
        · exact long
        · exact inner other later
      · intro other member stop before
        rcases List.mem_cons.1 member with rfl | later
        · exact here stop before
        · have := here stop before
          have := after other later _ rfl
          omega

end Selection

/-- Whether the fixes were applied to the source as far as they are apart. -/
structure Applied.Follows (source : Text) (fixes : List Fix) (applied : Applied) : Prop where
  /-- The output is the source with the edits that were taken. -/
  rewrites : Edit.Rewrites 0 source applied.selection.taken applied.output
  apart : Edit.Apart applied.selection.taken
  /-- Each of these is the edit of one of the fixes. -/
  merged : ∀ e ∈ applied.selection.taken, ∃ fix ∈ fixes, fix.merged? source = some e
  /-- No fix is applied only if there is none. -/
  changed : applied.count = 0 ↔ fixes = []

/-- A computation on each item of a list succeeds where all of them do. -/
theorem mapM_eq_some_iff {α β : Type} {f : α → Option β} {list : List α} {results : List β} :
    list.mapM f = some results ↔ List.Forall₂ (fun a b => f a = some b) list results := by
  induction list generalizing results with
  | nil => simp [eq_comm]
  | cons a others ih =>
    rw [List.mapM_cons]
    cases here : f a with
    | none => cases results <;> simp [here]
    | some b =>
      cases rest : others.mapM f with
      | none => cases results <;> simp [here, ← ih, rest]
      | some more => cases results <;> simp [here, ← ih, rest]

/-- Where fixes are merged into edits that fit, the edits that are chosen of these are applied. -/
theorem applyFixes?_of_merged {source : Text} {fixes : List Fix} {edits : List Edit}
    (merged : List.Forall₂ (fun (fix : Fix) e => fix.merged? source = some e) fixes edits)
    (fits : ∀ e ∈ edits, e.Fits source) :
    let selection := Selection.choose none (edits.mergeSort fun a b => decide (a.start ≤ b.start))
    ∃ output, applyFixes? source fixes = some ⟨output, selection⟩ ∧
      Edit.Rewrites 0 source selection.taken output ∧ Edit.Apart selection.taken := by
  intro selection
  have sorted : ∀ e ∈ edits.mergeSort fun a b => decide (a.start ≤ b.start), e.Fits source :=
    fun e member => fits e ((List.mergeSort_perm _ _).mem_iff.1 member)
  have chosen : ∀ e ∈ selection.taken, e.Fits source := fun e member =>
    sorted e ((Selection.choose_sublist none _).subset member)
  have apart : Edit.Apart selection.taken :=
    (Selection.choose_apart (fun e member => (sorted e member).ordered) none).1
  -- Edits are rewritten in the middle of a text, which is all of the source here.
  have fits' : ∀ e ∈ selection.taken, e.Fits ([] ++ source ++ []) := by
    intro e member
    rw [List.nil_append, List.append_nil]
    exact chosen e member
  have within : ∀ e ∈ selection.taken, Text.byteLength [] ≤ e.start ∧
      e.stop ≤ Text.byteLength ([] ++ source) :=
    fun e member => ⟨Nat.zero_le _, (chosen e member).stop.le⟩
  obtain ⟨output, rewrites⟩ :=
    Edit.exists_rewrites fits' within (apart.2.imp fun before => Nat.le_of_lt before)
  have spliced := rewrites.spliced?_eq []
  rw [List.nil_append, List.append_nil, Text.byteLength_nil] at spliced
  refine ⟨output, ?_, rewrites, apart⟩
  rw [applyFixes?, Selection.ofFixes?, mapM_eq_some_iff.2 merged, Option.map_some, Option.bind_some,
    spliced]
  rfl

/-- Fixes that fit are applied without fail. -/
theorem exists_applied {source : Text} {fixes : List Fix}
    (fits : ∀ fix ∈ fixes, fix.Fits source) :
    ∃ applied, applyFixes? source fixes = some applied ∧ applied.Follows source fixes := by
  -- All fixes that fit can be merged, so the edit that stands in for a failure is never used.
  let editOf (fix : Fix) : Edit := (fix.merged? source).getD ⟨0, 0, []⟩
  have merges : ∀ fix ∈ fixes, fix.merged? source = some (editOf fix) ∧
      (editOf fix).Fits source := by
    intro fix member
    obtain ⟨e, merged, _, fit⟩ := (fits fix member).exists_merged
    simp only [editOf, merged, Option.getD_some]
    exact ⟨trivial, fit⟩
  have merged : List.Forall₂ (fun (fix : Fix) e => fix.merged? source = some e) fixes
      (fixes.map editOf) :=
    List.forall₂_map_right_iff.2 (List.forall₂_same.2 fun fix member => (merges fix member).1)
  have fit : ∀ e ∈ fixes.map editOf, e.Fits source := by
    intro e member
    obtain ⟨fix, own, rfl⟩ := List.mem_map.1 member
    exact (merges fix own).2
  obtain ⟨output, applies, rewrites, apart⟩ := applyFixes?_of_merged merged fit
  refine ⟨_, applies, rewrites, apart, ?_, ?_⟩
  · intro e member
    obtain ⟨fix, own, rfl⟩ := List.mem_map.1 ((List.mergeSort_perm _ _).mem_iff.1
      ((Selection.choose_sublist none _).subset member))
    exact ⟨fix, own, (merges fix own).1⟩
  · rw [Applied.count, List.length_eq_zero_iff, Selection.taken_choose_eq_nil_iff,
      ← List.length_eq_zero_iff, (List.mergeSort_perm _ _).length_eq, List.length_map,
      List.length_eq_zero_iff]

end TagLint
