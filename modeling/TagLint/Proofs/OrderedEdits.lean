import TagLint.Proofs.FittingEdits
import TagLint.Proofs.StableSort

/-!
Edits of a fix in their order.

A fix has its edits sorted by start and end. So whether any two of them overlap shows between
neighbours (`Fix.hasOverlap_iff`), and where none do, the order in which the edits were given counts
only among insertions at one place. The one edit that a fix is merged into does what its edits do
one by one, from the last one to the first.
-/
namespace TagLint

namespace Edit

theorem before_iff {a b : Edit} :
    a.before b = true ↔ a.start < b.start ∨ a.start = b.start ∧ a.stop ≤ b.stop := by
  simp [before]

theorem before_trans (a b c : Edit) (first : a.before b = true) (second : b.before c = true) :
    a.before c = true := by
  rw [before_iff] at first second ⊢
  omega

theorem before_total (a b : Edit) : (a.before b || b.before a) = true := by
  rw [Bool.or_eq_true, before_iff, before_iff]
  omega

theorem overlaps_iff {a b : Edit} :
    a.span.overlaps b.span = true ↔ a.start < b.stop ∧ b.start < a.stop := by
  rw [Span.overlaps, Bool.and_eq_true, decide_eq_true_eq, decide_eq_true_eq]
  rfl

/-- Of two edits in order that do not overlap the second starts where the first stops, or later. -/
theorem overlaps_eq_false_iff {a b : Edit} (ordered : b.start ≤ b.stop)
    (order : a.before b = true) : a.span.overlaps b.span = false ↔ a.stop ≤ b.start := by
  rw [← Bool.not_eq_true, overlaps_iff]
  rw [before_iff] at order
  omega

/-- Whether the ranges of two edits at different places of the list overlap. -/
def AnyOverlap (edits : List Edit) : Prop :=
  ∃ (i j : Nat) (a b : Edit), i ≠ j ∧ edits[i]? = some a ∧ edits[j]? = some b ∧
    a.span.overlaps b.span = true

theorem not_anyOverlap_iff {edits : List Edit} :
    ¬AnyOverlap edits ↔ edits.Pairwise fun a b : Edit => a.span.overlaps b.span = false := by
  rw [List.pairwise_iff_getElem]
  constructor
  · intro none i j first second less
    rw [Bool.eq_false_iff]
    intro overlap
    exact none ⟨i, j, _, _, Nat.ne_of_lt less, List.getElem?_eq_getElem first,
      List.getElem?_eq_getElem second, overlap⟩
  · rintro apart ⟨i, j, a, b, other, here, there, overlap⟩
    obtain ⟨first, rfl⟩ := List.getElem?_eq_some_iff.1 here
    obtain ⟨second, rfl⟩ := List.getElem?_eq_some_iff.1 there
    rcases Nat.lt_or_gt_of_ne other with less | less
    · simp [apart i j first second less] at overlap
    · rw [Span.overlaps_comm] at overlap
      simp [apart j i second first less] at overlap

/-- The edits that put something in at the place and take nothing away. -/
def insertionsAt (place : Nat) (edits : List Edit) : List Edit :=
  edits.filter fun e => e.start == place && e.stop == place

/-- The source after the edit alone; `none` where the edit does not fit it. -/
def applied? (e : Edit) (source : Text) : Option Text :=
  if e.start ≤ e.stop then
    (source.slice? 0 e.start).bind fun before =>
      (source.slice? e.stop source.byteLength).map fun after => before ++ e.text ++ after
  else none

theorem applied?_eq {e : Edit} {before old after : Text} (start : before.byteLength = e.start)
    (stop : (before ++ old).byteLength = e.stop) :
    e.applied? (before ++ old ++ after) = some (before ++ e.text ++ after) := by
  have ordered : e.start ≤ e.stop := by
    rw [← start, ← stop, Text.byteLength_append]
    exact Nat.le_add_right _ _
  have head := Text.slice?_append [] before (old ++ after)
  have tail := Text.slice?_append (before ++ old) after []
  rw [List.nil_append, Text.byteLength_nil, start, ← List.append_assoc] at head
  rw [List.append_nil, stop] at tail
  rw [applied?, if_pos ordered, head, Option.bind_some, tail, Option.map_some]

/-- Edits that turn one text into another do so one by one, from the last one to the first. -/
theorem Rewrites.foldrM_applied? {offset : Nat} {s t : Text} {edits : List Edit}
    (rewrites : Rewrites offset s edits t) (before after : Text)
    (here : before.byteLength = offset) :
    edits.foldrM applied? (before ++ s ++ after) = some (before ++ t ++ after) := by
  induction rewrites generalizing before after with
  | keep => rfl
  | replace offset old new =>
    have stop : (before ++ old).byteLength = offset + old.byteLength := by
      rw [Text.byteLength_append, here]
    rw [List.foldrM_cons, List.foldrM_nil, pure_bind]
    exact applied?_eq here stop
  | @append offset s s' t t' edits edits' _ _ first second =>
    have later := second (before ++ s) after (by rw [Text.byteLength_append, here])
    have earlier := first before (t' ++ after) here
    simp only [List.append_assoc] at later earlier ⊢
    rw [List.foldrM_append, later]
    exact earlier

end Edit

/-- Edits in order that lie one after the other do not overlap. -/
theorem Fix.overlapsIn_eq_false {edits : List Edit}
    (sorted : edits.Pairwise fun a b => a.stop ≤ b.start) : Fix.overlapsIn edits = false := by
  induction edits with
  | nil => rfl
  | cons a others ih =>
    obtain ⟨first, rest⟩ := List.pairwise_cons.1 sorted
    cases others with
    | nil => rfl
    | cons b others =>
      have after : ¬b.start < a.stop := Nat.not_lt.2 (first b List.mem_cons_self)
      rw [Fix.overlapsIn, ih rest]
      simp [after]

/-- A fix made of edits that lie one after the other has them as they are. -/
theorem Fix.ofEdits?_eq {edits : List Edit} (nonempty : edits ≠ [])
    (ordered : ∀ e ∈ edits, e.start ≤ e.stop)
    (sorted : edits.Pairwise fun a b => a.stop ≤ b.start) :
    Fix.ofEdits? edits = some ⟨edits⟩ := by
  have already : edits.Pairwise fun a b => a.before b = true := by
    refine sorted.imp_of_mem ?_
    intro a b first second after
    have := ordered a first
    have := ordered b second
    simp only [Edit.before, Bool.or_eq_true, Bool.and_eq_true, decide_eq_true_eq, beq_iff_eq]
    omega
  rw [Fix.ofEdits?, List.mergeSort_of_pairwise already]
  simp [nonempty]

namespace Fix

variable {edits : List Edit} {fix : Fix}

/-- In a sorted list edits lie one after the other if neighbours do. -/
theorem overlapsIn_eq_false_iff (sorted : edits.Pairwise fun a b => a.before b = true) :
    overlapsIn edits = false ↔ edits.Pairwise fun a b => a.stop ≤ b.start := by
  refine ⟨fun apart => ?_, overlapsIn_eq_false⟩
  induction edits with
  | nil => exact .nil
  | cons a others ih =>
    obtain ⟨_, rest⟩ := List.pairwise_cons.1 sorted
    cases others with
    | nil => exact List.pairwise_singleton _ _
    | cons b others =>
      simp only [overlapsIn, Bool.or_eq_false_iff, decide_eq_false_iff_not, Nat.not_lt] at apart
      refine List.Pairwise.cons (fun c member => ?_) (ih rest apart.2)
      -- What comes after the neighbour starts no earlier than it.
      have further : b.start ≤ c.start := by
        rcases List.mem_cons.1 member with rfl | later
        · exact Nat.le_refl _
        · have order := (List.pairwise_cons.1 rest).1 c later
          rw [Edit.before_iff] at order
          omega
      exact Nat.le_trans apart.1 further

theorem ofEdits?_eq_mergeSort (nonempty : edits ≠ []) :
    ofEdits? edits = some ⟨edits.mergeSort Edit.before⟩ := by
  simp [ofEdits?, nonempty]

theorem ofEdits?_spec (made : ofEdits? edits = some fix) :
    edits ≠ [] ∧ fix.edits.Perm edits ∧ fix.edits.Pairwise fun a b => a.before b = true := by
  unfold ofEdits? at made
  split at made
  · contradiction
  next full =>
    obtain rfl := Option.some.inj made
    exact ⟨by simpa using full, List.mergeSort_perm _ _,
      List.pairwise_mergeSort Edit.before_trans Edit.before_total _⟩

/-- Neighbours among the edits of a fix overlap just where any two of the edits given do. -/
theorem hasOverlap_iff (made : ofEdits? edits = some fix)
    (ordered : ∀ e ∈ edits, e.start ≤ e.stop) :
    fix.hasOverlap = true ↔ Edit.AnyOverlap edits := by
  obtain ⟨_, same, sorted⟩ := ofEdits?_spec made
  have symm {a b : Edit} (apart : a.span.overlaps b.span = false) :
      b.span.overlaps a.span = false := by
    rwa [Span.overlaps_comm]
  rw [← not_iff_not, Edit.not_anyOverlap_iff, Bool.not_eq_true, hasOverlap,
    overlapsIn_eq_false_iff sorted, ← same.pairwise_iff symm]
  have each {a b : Edit} (second : b ∈ fix.edits)
      (order : a.before b = true) : a.stop ≤ b.start ↔ a.span.overlaps b.span = false :=
    (Edit.overlaps_eq_false_iff (ordered b (same.subset second)) order).symm
  constructor <;> intro apart
  · exact (sorted.and apart).imp_of_mem fun _ second both => (each second both.1).1 both.2
  · exact (sorted.and apart).imp_of_mem fun _ second both => (each second both.1).2 both.2

/-- A fix made of edits that fit a source and do not overlap fits it. -/
theorem fits_of_made (made : ofEdits? edits = some fix) (apart : fix.hasOverlap = false)
    {source : Text} (fits : ∀ e ∈ edits, e.Fits source) : fix.Fits source := by
  obtain ⟨full, same, sorted⟩ := ofEdits?_spec made
  refine ⟨?_, fun e member => fits e (same.subset member), (overlapsIn_eq_false_iff sorted).1 apart⟩
  rintro empty
  rw [empty] at same
  exact full (List.nil_perm.1 same)

/-- Edits with the range of another one, which takes something away, are at most one where none
overlap; so their order is the same in every arrangement. -/
private theorem eq_of_sameRange {first second : List Edit} (same : first.Perm second)
    (apart : second.Pairwise fun a b : Edit => a.span.overlaps b.span = false) {a : Edit}
    (wide : a.start < a.stop) (ranged : ∀ e ∈ second, e.start = a.start ∧ e.stop = a.stop) :
    first = second := by
  match second with
  | [] => exact List.perm_nil.1 same
  | [e] => exact List.perm_singleton.1 same
  | e :: other :: others =>
    have clear := (List.pairwise_cons.1 apart).1 other List.mem_cons_self
    have here := ranged e List.mem_cons_self
    have there := ranged other (List.mem_cons_of_mem e List.mem_cons_self)
    have overlap : e.span.overlaps other.span = true := Edit.overlaps_iff.2 (by omega)
    rw [overlap] at clear
    contradiction

/-- Where no edits overlap, another arrangement that keeps the insertions at each place in their
order makes the same fix. -/
theorem ofEdits?_eq_of_perm {others : List Edit} (ordered : ∀ e ∈ edits, e.start ≤ e.stop)
    (apart : ¬Edit.AnyOverlap edits) (same : others.Perm edits)
    (insertions : ∀ place, Edit.insertionsAt place others = Edit.insertionsAt place edits) :
    ofEdits? others = ofEdits? edits := by
  have empty : others.isEmpty = edits.isEmpty := by
    rw [Bool.eq_iff_iff, List.isEmpty_iff, List.isEmpty_iff]
    exact ⟨fun none => List.nil_perm.1 (none ▸ same), fun none => List.perm_nil.1 (none ▸ same)⟩
  have sorted : others.mergeSort Edit.before = edits.mergeSort Edit.before := by
    refine mergeSort_eq_of_classes Edit.before_trans Edit.before_total fun a => ?_
    have classes : (fun b => a.before b && b.before a) =
        fun b : Edit => b.start == a.start && b.stop == a.stop := by
      funext b
      rw [Bool.eq_iff_iff, Bool.and_eq_true, Edit.before_iff, Edit.before_iff, Bool.and_eq_true,
        beq_iff_eq, beq_iff_eq]
      omega
    rw [classes]
    by_cases insertion : a.start = a.stop
    · rw [← insertion]
      exact insertions a.start
    · by_cases wide : a.start < a.stop
      · refine eq_of_sameRange (same.filter _) ((Edit.not_anyOverlap_iff.1 apart).filter _) wide ?_
        intro e member
        simpa using (List.mem_filter.1 member).2
      · -- No edit has a range that is written the wrong way round.
        have none : ∀ e ∈ edits, ¬(e.start == a.start && e.stop == a.stop) = true := by
          intro e member
          have := ordered e member
          simp only [Bool.and_eq_true, beq_iff_eq]
          omega
        rw [List.filter_eq_nil_iff.2 none,
          List.filter_eq_nil_iff.2 fun e member => none e (same.subset member)]
  rw [ofEdits?, ofEdits?, empty, sorted]

/-- Insertions at one place keep their order in a fix. -/
theorem insertionsAt_of_made (made : ofEdits? edits = some fix) (place : Nat) :
    Edit.insertionsAt place fix.edits = Edit.insertionsAt place edits := by
  rw [ofEdits?_eq_mergeSort (ofEdits?_spec made).1, Option.some.injEq] at made
  subst made
  refine filter_mergeSort_of_alike Edit.before_trans Edit.before_total (fun a b first second => ?_)
    edits
  simp only [Bool.and_eq_true, beq_iff_eq] at first second
  rw [Edit.before_iff]
  omega

end Fix

/-- Whether the edit ranges from the first start to the last end of the edits. -/
structure Edit.Spans (edits : List Edit) (e : Edit) : Prop where
  bounds : ∀ own ∈ edits, e.start ≤ own.start ∧ own.stop ≤ e.stop
  start : ∃ own ∈ edits, own.start = e.start
  stop : ∃ own ∈ edits, own.stop = e.stop

/-- Whether the fix has the edits in source order, shows whether they overlap, and is merged into
one edit that does what they do. -/
structure Fix.IsMadeOf (edits : List Edit) (fix : Fix) : Prop where
  arranged : fix.edits.Perm edits ∧ fix.edits.Pairwise fun a b => a.before b = true
  overlaps : fix.hasOverlap = true ↔ Edit.AnyOverlap edits
  /-- The merged edit turns a source that the edits fit into what they turn it into one by one, from
  the last one to the first. -/
  merges : fix.hasOverlap = false → ∀ source, (∀ e ∈ edits, e.Fits source) →
    ∃ e output, fix.merged? source = some e ∧ e.Spans edits ∧ e.applied? source = some output ∧
      fix.edits.foldrM Edit.applied? source = some output
  /-- In another order the same edits make the same fix, if insertions at one place keep theirs. -/
  reordered : fix.hasOverlap = false → ∀ others : List Edit, others.Perm edits →
    (∀ place, Edit.insertionsAt place others = Edit.insertionsAt place edits) →
      Fix.ofEdits? others = some fix
  insertions : ∀ place, Edit.insertionsAt place fix.edits = Edit.insertionsAt place edits

namespace Fix

variable {edits : List Edit} {fix : Fix} {source : Text}

/-- A fix that fits a source is merged into an edit that does what its edits do one by one. -/
theorem Fits.exists_output (fits : fix.Fits source) :
    ∃ e output, fix.merged? source = some e ∧ e.Spans fix.edits ∧ e.applied? source = some output ∧
      fix.edits.foldrM Edit.applied? source = some output := by
  obtain ⟨⟨first, among, starts⟩, ⟨last, among', stops⟩, bounds⟩ := fits.span
  obtain ⟨before, middle, after, text, rfl, range, rewrites, merged⟩ := fits.exists_rewrites
  rw [range] at starts stops bounds
  exact ⟨_, _, merged, ⟨bounds, ⟨first, among, starts.symm⟩, ⟨last, among', stops.symm⟩⟩,
    Edit.applied?_eq rfl rfl, rewrites.foldrM_applied? before after rfl⟩

/-- Every list of edits makes a fix. -/
theorem exists_madeOf (nonempty : edits ≠ []) (ordered : ∀ e ∈ edits, e.start ≤ e.stop) :
    ∃ fix, ofEdits? edits = some fix ∧ fix.IsMadeOf edits := by
  have made := ofEdits?_eq_mergeSort nonempty
  obtain ⟨_, same, sorted⟩ := ofEdits?_spec made
  refine ⟨_, made, {
    arranged := ⟨same, sorted⟩
    overlaps := hasOverlap_iff made ordered
    merges := ?merges
    reordered := ?reordered
    insertions := insertionsAt_of_made made }⟩
  case merges =>
    intro apart source fits
    obtain ⟨e, output, merged, ⟨bounds, start, stop⟩, applied⟩ :=
      (fits_of_made made apart fits).exists_output
    simp only [same.mem_iff] at bounds start stop
    exact ⟨e, output, merged, ⟨bounds, start, stop⟩, applied⟩
  case reordered =>
    intro apart others arranged insertions
    have clear : ¬Edit.AnyOverlap edits := by
      rw [← hasOverlap_iff made ordered, apart]
      exact Bool.false_ne_true
    rw [ofEdits?_eq_of_perm ordered clear arranged insertions, made]

/-- Two insertions at one place, between a replacement before them and a removal after them. -/
theorem exists_madeOf_sample :
    ([⟨5, 11, []⟩, ⟨5, 5, ['a']⟩, ⟨4, 5, [' ', '/', '>']⟩, ⟨5, 5, ['b']⟩] : List Edit) ≠ [] ∧
      (∀ e ∈ ([⟨5, 11, []⟩, ⟨5, 5, ['a']⟩, ⟨4, 5, [' ', '/', '>']⟩, ⟨5, 5, ['b']⟩] : List Edit),
        e.start ≤ e.stop) ∧
      ∃ fix, ofEdits? [⟨5, 11, []⟩, ⟨5, 5, ['a']⟩, ⟨4, 5, [' ', '/', '>']⟩, ⟨5, 5, ['b']⟩] =
          some fix ∧
        fix.IsMadeOf [⟨5, 11, []⟩, ⟨5, 5, ['a']⟩, ⟨4, 5, [' ', '/', '>']⟩, ⟨5, 5, ['b']⟩] := by
  have ordered : ∀ e ∈ ([⟨5, 11, []⟩, ⟨5, 5, ['a']⟩, ⟨4, 5, [' ', '/', '>']⟩,
      ⟨5, 5, ['b']⟩] : List Edit), e.start ≤ e.stop := by decide
  exact ⟨by simp, ordered, exists_madeOf (by simp) ordered⟩

end Fix

end TagLint
