import Mathlib.Data.List.Nodup

/-!
Stable sorting.

A stable sort keeps the order of items that are as good as each other, so what is picked out of a
list can be sorted before or after (`filter_mergeSort`), and a sorted list is known from its classes
of such items (`eq_of_classes`).
-/
namespace TagLint

/-- In a list that ends with what has a property, and in no part before, the two parts are known. -/
private theorem append_inj_of_split {α : Type} {p : α → Bool} {first second first' second' : List α}
    (same : first ++ second = first' ++ second') (low : ∀ a ∈ first, p a = false)
    (high : ∀ a ∈ second, p a = true) (low' : ∀ a ∈ first', p a = false)
    (high' : ∀ a ∈ second', p a = true) : first = first' ∧ second = second' := by
  have picked {x y : List α} (low : ∀ a ∈ x, p a = false) (high : ∀ a ∈ y, p a = true) :
      (x ++ y).filter p = y := by
    rw [List.filter_append, List.filter_eq_self.2 high, List.filter_eq_nil_iff.2]
    · rfl
    · intro a member
      simp [low a member]
  have later : second = second' := by
    rw [← picked low high, same, picked low' high']
  subst later
  exact ⟨List.append_cancel_right same, rfl⟩

/-- Items can be picked before a stable sort or after it. -/
theorem filter_mergeSort {α : Type} {le : α → α → Bool}
    (trans : ∀ a b c, le a b = true → le b c = true → le a c = true)
    (total : ∀ a b, (le a b || le b a) = true) (p : α → Bool) (items : List α) :
    (items.mergeSort le).filter p = (items.filter p).mergeSort le := by
  induction items with
  | nil => simp
  | cons item others ih =>
    obtain ⟨first, second, sorted, rest, apart⟩ := List.mergeSort_cons trans total item others
    cases picked : p item with
    | false =>
      rw [List.filter_cons_of_neg (by simp [picked]), ← ih, sorted, rest]
      simp [picked]
    | true =>
      obtain ⟨first', second', sorted', rest', apart'⟩ :=
        List.mergeSort_cons trans total item (others.filter p)
      -- In both lists the item comes after those that it is not before, and no others.
      have after {x y : List α} {l : List α} (sorted : l.mergeSort le = x ++ item :: y) :
          ∀ a ∈ y, le item a = true := by
        have ordered := List.pairwise_mergeSort trans total l
        rw [sorted] at ordered
        exact (List.pairwise_cons.1 (List.pairwise_append.1 ordered).2.1).1
      have joined : first.filter p ++ second.filter p = first' ++ second' := by
        rw [← List.filter_append, ← rest, ih, rest']
      obtain ⟨rfl, rfl⟩ := append_inj_of_split joined
        (fun a member => by simpa using apart a (List.mem_filter.1 member).1)
        (fun a member => after sorted a (List.mem_filter.1 member).1)
        (fun a member => by simpa using apart' a member) (after sorted')
      rw [List.filter_cons_of_pos picked, sorted, sorted', List.filter_append,
        List.filter_cons_of_pos picked]

/-- A list is sorted to the permutation of it in which the keys ascend. -/
theorem mergeSort_eq_of_perm {α : Type} (key : α → Nat) {listed sorted : List α}
    (same : listed.Perm sorted) (ascending : sorted.Pairwise fun a b => key a < key b) :
    listed.mergeSort (fun a b => decide (key a ≤ key b)) = sorted := by
  have trans (a b c : α) (first : decide (key a ≤ key b) = true)
      (second : decide (key b ≤ key c) = true) : decide (key a ≤ key c) = true := by
    simp only [decide_eq_true_eq] at first second ⊢
    exact Nat.le_trans first second
  have total (a b : α) : (decide (key a ≤ key b) || decide (key b ≤ key a)) = true := by
    simpa using Nat.le_total (key a) (key b)
  have weakly : sorted.Pairwise fun a b => decide (key a ≤ key b) = true :=
    ascending.imp fun before => by simpa using Nat.le_of_lt before
  -- No two keys are equal, so the sort has no choice to make.
  have distinct : (sorted.map key).Nodup :=
    List.pairwise_map.2 (ascending.imp Nat.ne_of_lt)
  have permuted : (listed.mergeSort fun a b => decide (key a ≤ key b)).Perm sorted :=
    (List.mergeSort_perm listed _).trans same
  refine permuted.eq_of_pairwise (fun a b sortedMember member first second => ?_)
    (List.pairwise_mergeSort trans total listed) weakly
  simp only [decide_eq_true_eq] at first second
  exact List.inj_on_of_nodup_map distinct (permuted.subset sortedMember) member
    (Nat.le_antisymm first second)

/-- Items that are all as good as each other stay in their order when a list is sorted. -/
theorem filter_mergeSort_of_alike {α : Type} {le : α → α → Bool}
    (trans : ∀ a b c, le a b = true → le b c = true → le a c = true)
    (total : ∀ a b, (le a b || le b a) = true) {p : α → Bool}
    (alike : ∀ a b, p a = true → p b = true → le a b = true) (items : List α) :
    (items.mergeSort le).filter p = items.filter p := by
  rw [filter_mergeSort trans total]
  exact List.mergeSort_of_pairwise (List.pairwise_filter.2 (List.pairwise_of_forall alike))

/-- Items of one class stay in their order when a list is sorted. -/
theorem class_mergeSort {α : Type} {le : α → α → Bool}
    (trans : ∀ a b c, le a b = true → le b c = true → le a c = true)
    (total : ∀ a b, (le a b || le b a) = true) (a : α) (items : List α) :
    (items.mergeSort le).filter (fun b => le a b && le b a) =
      items.filter fun b => le a b && le b a := by
  refine filter_mergeSort_of_alike trans total (fun b c first second => ?_) items
  rw [Bool.and_eq_true] at first second
  exact trans b a c first.2 second.1

/-- Two sorted lists are the same if they have the same classes. -/
theorem eq_of_classes {α : Type} {le : α → α → Bool} (refl : ∀ a, le a a = true)
    {first second : List α} (sorted : first.Pairwise fun a b => le a b = true)
    (sorted' : second.Pairwise fun a b => le a b = true)
    (same : ∀ a, first.filter (fun b => le a b && le b a) =
      second.filter fun b => le a b && le b a) : first = second := by
  -- A list without items has no classes.
  have empty {items : List α} (none : ∀ a, [] = items.filter fun b => le a b && le b a) :
      items = [] := by
    refine List.eq_nil_iff_forall_not_mem.2 fun a member => ?_
    have own : a ∈ items.filter fun b => le a b && le b a :=
      List.mem_filter.2 ⟨member, by simp [refl]⟩
    rw [← none a] at own
    exact List.not_mem_nil own
  have lowest {a b : α} {items : List α} (sorted : (a :: items).Pairwise fun a b => le a b = true)
      (member : b ∈ a :: items) : le a b = true := by
    rcases List.mem_cons.1 member with rfl | later
    · exact refl b
    · exact (List.pairwise_cons.1 sorted).1 b later
  induction first generalizing second with
  | nil => exact (empty same).symm
  | cons a first ih =>
    cases second with
    | nil => exact empty fun b => (same b).symm
    | cons b second =>
      -- Each of the two heads is in the other list, so neither comes before the other.
      have own {c : α} {items other : List α} (member : c ∈ items)
          (same : items.filter (fun b => le c b && le b c) =
            other.filter fun b => le c b && le b c) : c ∈ other := by
        have among : c ∈ items.filter fun b => le c b && le b c :=
          List.mem_filter.2 ⟨member, by simp [refl]⟩
        rw [same] at among
        exact (List.mem_filter.1 among).1
      have before : le a b = true := lowest sorted (own List.mem_cons_self (same b).symm)
      have after : le b a = true := lowest sorted' (own List.mem_cons_self (same a))
      have heads := same a
      rw [List.filter_cons_of_pos (by simp [refl]),
        List.filter_cons_of_pos (by simp [before, after])] at heads
      obtain ⟨rfl, _⟩ := List.cons.inj heads
      congr 1
      refine ih (List.pairwise_cons.1 sorted).2 (List.pairwise_cons.1 sorted').2 fun c => ?_
      have classes := same c
      rw [List.filter_cons, List.filter_cons] at classes
      split at classes
      · exact (List.cons.inj classes).2
      · exact classes

/-- Lists with the same classes are sorted to the same list. -/
theorem mergeSort_eq_of_classes {α : Type} {le : α → α → Bool}
    (trans : ∀ a b c, le a b = true → le b c = true → le a c = true)
    (total : ∀ a b, (le a b || le b a) = true) {first second : List α}
    (same : ∀ a, first.filter (fun b => le a b && le b a) =
      second.filter fun b => le a b && le b a) : first.mergeSort le = second.mergeSort le := by
  refine eq_of_classes (fun a => by simpa using total a a) (List.pairwise_mergeSort trans total _)
    (List.pairwise_mergeSort trans total _) fun a => ?_
  rw [class_mergeSort trans total, class_mergeSort trans total, same a]

end TagLint
