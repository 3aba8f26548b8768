import TagLint.Proofs.ByteSearch
import TagLint.Proofs.LineCount
import Mathlib.Data.Prod.Lex
import Mathlib.Order.Monotone.Basic

/-!
Lines and columns of bytes.

The index is made of characters and asked about bytes, also about those inside a character or past
the end. Its line starts are the places after the line feeds among the bytes of the text
(`LineIndex.feedEnds_eq`), so what holds of every offset is a matter of the bytes alone: how many
line feeds are below it, and which of them is the last.
-/
namespace TagLint

/-- Positions in the order of reading. -/
def Position.key (position : Position) : Nat ×ₗ Nat :=
  toLex (position.line, position.column)

namespace Text

/-- The byte of a line feed. -/
def feedByte : UInt8 := 10

/-- Only a line feed has its byte. -/
theorem feedByte_notMem_encode {c : Char} (other : c ≠ '\n') :
    feedByte ∉ String.utf8EncodeChar c := by
  intro member
  obtain ⟨place, bound, here⟩ := List.getElem_of_mem member
  have among : bytes ['\n'] <+: (bytes [c]).drop place := by
    have whole : bytes [c] = String.utf8EncodeChar c := by simp
    rw [whole, List.drop_eq_getElem_cons bound, here]
    exact List.prefix_append [feedByte] _
  obtain ⟨before, after, split, -⟩ := (standsAt_iff_bytes (by simp) place).2 among
  have inside : '\n' ∈ [c] := by
    rw [split]
    simp
  exact other (List.mem_singleton.1 inside).symm

/-- Whether the line that an offset is on starts at `start`: nothing or a line feed is before it,
and no line feed is between it and the offset. -/
structure IsLineStart (t : Text) (offset start : Nat) : Prop where
  begins : start = 0 ∨ ∃ i, t.bytes[i]? = some feedByte ∧ start = i + 1
  upto : start ≤ offset
  unbroken : ∀ i, start ≤ i → i < offset → t.bytes[i]? ≠ some feedByte

end Text

/-- What a binary search may answer about ascending numbers: a place where the number is or, if it
is nowhere, as an error the place that it would take. -/
inductive IsSearched (numbers : Array Nat) (number : Nat) : Except Nat Nat → Prop where
  | found {i : Nat} (here : numbers[i]? = some number) : IsSearched numbers number (.ok i)
  | missing {i : Nat} (within : i ≤ numbers.size)
      (before : ∀ j < i, ∀ other ∈ numbers[j]?, other < number)
      (after : ∀ j, i ≤ j → ∀ other ∈ numbers[j]?, number < other) :
      IsSearched numbers number (.error i)

namespace LineIndex

/-- The line that an answer of a search among the line starts stands for: the one that is found, or
the one before the place. No line is before the first. -/
def lineOf? : Except Nat Nat → Option Nat
  | .ok i => some i
  | .error 0 => none
  | .error (i + 1) => some i

/-- How an index finds the positions in a text, of all offsets, past the end too. -/
structure IsLineMap (index : LineIndex) (t : Text) : Prop where
  /-- Lines count the line feeds among the bytes below the offset. -/
  line : ∀ offset, (index.position offset).line = 1 + (t.bytes.take offset).count Text.feedByte
  /-- Columns count bytes from the last of them. -/
  column : ∀ offset, ∃ start, t.IsLineStart offset start ∧
    (index.position offset).column = offset - start
  /-- The line is the one that a binary search for the offset leads to, whichever of its possible
  answers it gives; none of them leads below the first line. -/
  searched : ∀ offset, (∃ answer, IsSearched index.starts offset answer) ∧
    ∀ answer, IsSearched index.starts offset answer → ∃ i start, lineOf? answer = some i ∧
      index.starts[i]? = some start ∧ start ≤ offset ∧
      index.position offset = ⟨i + 1, offset - start⟩
  /-- Positions are in the order of the offsets. -/
  ordered : ∀ a b, a ≤ b ↔ (index.position a).key ≤ (index.position b).key
  distinct : ∀ a b, index.position a = index.position b → a = b

/-- Lines start after the bytes of line feeds. -/
theorem feedEnds_eq (offset : Nat) (t : Text) :
    feedEnds offset t = t.bytes.idxsOf Text.feedByte (offset + 1) := by
  induction t generalizing offset with
  | nil => rfl
  | cons c t ih =>
    rw [Text.bytes_cons, List.idxsOf_append, String.length_utf8EncodeChar]
    by_cases feed : c = '\n'
    · subst feed
      have own : (String.utf8EncodeChar '\n').idxsOf Text.feedByte (offset + 1) = [offset + 1] :=
        rfl
      have width : '\n'.utf8Size = 1 := rfl
      simp [feedEnds, ih, own, width]
    · have other : (c == '\n') = false := by simpa using feed
      have none : (String.utf8EncodeChar c).idxsOf Text.feedByte (offset + 1) = [] := by
        refine List.idxsOf_eq_nil_iff.2 fun byte member => ?_
        rw [beq_eq_false_iff_ne]
        rintro rfl
        exact Text.feedByte_notMem_encode feed member
      rw [feedEnds, other, none, List.nil_append, Nat.add_right_comm]
      exact ih _

/-- Of the places of a value in a list, as many are below a bound as the value occurs there. -/
theorem getElem_idxsOf_lt_iff {α : Type} [BEq α] {a : α} {list : List α} {start i : Nat}
    (bound : i < (list.idxsOf a start).length) (n : Nat) :
    (list.idxsOf a start)[i] < start + n ↔ i < (list.take n).count a := by
  have split : list.idxsOf a start =
      (list.take n).idxsOf a start ++ (list.drop n).idxsOf a (start + (list.take n).length) := by
    rw [← List.idxsOf_append, List.take_append_drop]
  have counted : ((list.take n).idxsOf a start).length = (list.take n).count a :=
    List.length_idxsOf
  rcases Nat.lt_or_ge i ((list.take n).count a) with early | late
  · have here : (list.idxsOf a start)[i] ∈ (list.take n).idxsOf a start := by
      simp only [split, List.getElem_append_left (counted ▸ early)]
      exact List.getElem_mem _
    have below := List.lt_add_of_mem_idxsOf _ here
    rw [List.length_take] at below
    omega
  · have here : (list.idxsOf a start)[i] ∈
        (list.drop n).idxsOf a (start + (list.take n).length) := by
      simp only [split, List.getElem_append_right (counted ▸ late)]
      exact List.getElem_mem _
    have above := List.ge_of_mem_idxsOf _ here
    -- There are places after the bound, so the list goes on there.
    have further : n ≤ list.length := by
      by_contra short
      rw [List.drop_eq_nil_of_le (by omega)] at here
      simp at here
    rw [List.length_take] at above
    omega

section Starts

variable (t : Text)

theorem toList_starts : (ofText t).starts.toList = 0 :: t.bytes.idxsOf Text.feedByte 1 := by
  rw [ofText, feedEnds_eq]

theorem size_starts : (ofText t).starts.size = t.bytes.count Text.feedByte + 1 := by
  rw [← Array.length_toList, toList_starts, List.length_cons, List.length_idxsOf]

/-- A line starts at the beginning, and after each line feed. -/
theorem mem_starts_iff {start : Nat} : start ∈ (ofText t).starts.toList ↔
    start = 0 ∨ ∃ i, t.bytes[i]? = some Text.feedByte ∧ start = i + 1 := by
  rw [toList_starts, List.mem_cons, List.mem_idxsOf_iff_getElem_sub_pos]
  refine or_congr_right ⟨?_, ?_⟩
  · rintro ⟨later, bound, here⟩
    refine ⟨start - 1, ?_, by omega⟩
    rw [List.getElem?_eq_getElem bound, eq_of_beq here]
  · rintro ⟨i, here, rfl⟩
    obtain ⟨bound, same⟩ := List.getElem?_eq_some_iff.1 here
    exact ⟨by omega, bound, by simp [same]⟩

variable {t} {i : Nat}

theorem getElem?_starts (within : i < (ofText t).starts.size) :
    (ofText t).starts[i]? = some ((ofText t).startOf i) := by
  rw [startOf, Array.getElem?_eq_getElem within, Option.getD_some]

theorem startOf_mem (within : i < (ofText t).starts.size) :
    (ofText t).startOf i ∈ (ofText t).starts.toList := by
  rw [startOf, Array.getElem?_eq_getElem within, Option.getD_some]
  exact Array.getElem_mem_toList within

theorem exists_startOf {start : Nat} (member : start ∈ (ofText t).starts.toList) :
    ∃ i < (ofText t).starts.size, (ofText t).startOf i = start := by
  obtain ⟨i, within, here⟩ := List.getElem_of_mem member
  refine ⟨i, by simpa using within, ?_⟩
  rw [startOf, ← Array.getElem?_toList, List.getElem?_eq_getElem within, here, Option.getD_some]

theorem startOf_lt {j : Nat} (before : i < j) (within : j < (ofText t).starts.size) :
    (ofText t).startOf i < (ofText t).startOf j := by
  have ascending : (ofText t).starts.toList.Pairwise (· < ·) := by
    rw [toList_starts]
    exact List.pairwise_cons.2 ⟨fun start member => List.ge_of_mem_idxsOf start member,
      List.pairwise_idxsOf⟩
  simp only [startOf, Array.getElem?_eq_getElem within,
    Array.getElem?_eq_getElem (Nat.lt_trans before within), Option.getD_some]
  have places := List.pairwise_iff_getElem.1 ascending i j (by simpa using before.trans within)
    (by simpa using within) before
  simpa using places

/-- As many lines start up to an offset as there are line feeds below it, and one. -/
theorem startOf_le_iff (offset : Nat) (within : i < (ofText t).starts.size) :
    (ofText t).startOf i ≤ offset ↔ i ≤ (t.bytes.take offset).count Text.feedByte := by
  have known := within
  rw [size_starts] at known
  rw [startOf, ← Array.getElem?_toList, toList_starts]
  cases i with
  | zero => simp
  | succ i =>
    have bound : i < (t.bytes.idxsOf Text.feedByte 1).length := by
      rw [List.length_idxsOf]
      omega
    rw [List.getElem?_cons_succ, List.getElem?_eq_getElem bound, Option.getD_some,
      Nat.succ_le_iff, ← getElem_idxsOf_lt_iff bound, Nat.add_comm 1, Nat.lt_succ_iff]

end Starts

section Position

variable (t : Text) (offset : Nat)

/-- The line that an offset is on is one of the index. -/
theorem count_take_lt : (t.bytes.take offset).count Text.feedByte < (ofText t).starts.size := by
  rw [size_starts]
  exact Nat.lt_succ_of_le ((List.take_sublist _ _).count_le Text.feedByte)

theorem startOf_count_le :
    (ofText t).startOf ((t.bytes.take offset).count Text.feedByte) ≤ offset :=
  (startOf_le_iff offset (count_take_lt t offset)).2 (Nat.le_refl _)

theorem position_eq_count :
    (ofText t).position offset = ⟨(t.bytes.take offset).count Text.feedByte + 1,
      offset - (ofText t).startOf ((t.bytes.take offset).count Text.feedByte)⟩ := by
  rw [position, search_eq (fun i within => startOf_le_iff offset within) (Nat.zero_le _)
    (count_take_lt t offset) (Nat.le_refl _)]

theorem isLineStart_startOf :
    t.IsLineStart offset ((ofText t).startOf ((t.bytes.take offset).count Text.feedByte)) where
  begins := (mem_starts_iff t).1 (startOf_mem (count_take_lt t offset))
  upto := startOf_count_le t offset
  unbroken := by
    intro i after below here
    -- The line after this line feed would start up to the offset, and after the last one to do so.
    obtain ⟨j, within, start⟩ := exists_startOf ((mem_starts_iff t).2 (.inr ⟨i, here, rfl⟩))
    have upto : j ≤ (t.bytes.take offset).count Text.feedByte :=
      (startOf_le_iff offset within).1 (by omega)
    rcases Nat.lt_or_eq_of_le upto with earlier | rfl
    · have := startOf_lt earlier (count_take_lt t offset)
      omega
    · omega

/-- Whatever a search among the line starts answers, it stands for the line of the offset. -/
theorem lineOf?_of_isSearched {answer : Except Nat Nat}
    (searched : IsSearched (ofText t).starts offset answer) :
    lineOf? answer = some ((t.bytes.take offset).count Text.feedByte) := by
  have last := count_take_lt t offset
  have upto := startOf_count_le t offset
  -- The line of an offset is the last one that starts no later.
  cases searched with
  | @found i here =>
    obtain ⟨within, -⟩ := Array.getElem?_eq_some_iff.1 here
    have start : (ofText t).startOf i = offset := by rw [startOf, here, Option.getD_some]
    have notLater := (startOf_le_iff offset within).1 (Nat.le_of_eq start)
    rcases Nat.lt_or_eq_of_le notLater with earlier | rfl
    · have := startOf_lt earlier last
      omega
    · rfl
  | @missing i within before after =>
    have later : (t.bytes.take offset).count Text.feedByte < i := by
      by_contra early
      have := after _ (by omega) _ (getElem?_starts last)
      omega
    cases i with
    | zero => omega
    | succ i =>
      have here := before i (Nat.lt_succ_self i) _ (getElem?_starts within)
      have notLater := (startOf_le_iff offset within).1 (Nat.le_of_lt here)
      rw [lineOf?, Nat.le_antisymm notLater (Nat.le_of_lt_succ later)]

theorem exists_isSearched : ∃ answer, IsSearched (ofText t).starts offset answer := by
  have last := count_take_lt t offset
  have shown := getElem?_starts last
  rcases Nat.lt_or_eq_of_le (startOf_count_le t offset) with before | here
  · refine ⟨.error ((t.bytes.take offset).count Text.feedByte + 1), .missing last ?_ ?_⟩
    · intro i upto start own
      have within : i < (ofText t).starts.size := by omega
      obtain rfl := Option.some.inj ((getElem?_starts within).symm.trans own)
      have reached := (startOf_le_iff offset last).2 (Nat.le_refl _)
      rcases Nat.lt_or_eq_of_le (Nat.le_of_lt_succ upto) with earlier | rfl
      · exact Nat.lt_of_lt_of_le (startOf_lt earlier last) reached
      · exact before
    · intro i later start own
      obtain ⟨within, -⟩ := Array.getElem?_eq_some_iff.1 own
      obtain rfl := Option.some.inj ((getElem?_starts within).symm.trans own)
      have := mt (startOf_le_iff offset within).1 (by omega)
      omega
  · exact ⟨.ok _, .found (shown.trans (congrArg some here))⟩

/-- Later offsets have later positions. -/
theorem strictMono_key : StrictMono fun offset => ((ofText t).position offset).key := by
  intro a b less
  simp only [position_eq_count, Position.key, Prod.Lex.toLex_lt_toLex]
  have fewer : (t.bytes.take a).count Text.feedByte ≤ (t.bytes.take b).count Text.feedByte :=
    (List.take_sublist_take_left (Nat.le_of_lt less)).count_le Text.feedByte
  rcases Nat.lt_or_eq_of_le fewer with line | line
  · exact .inl (Nat.succ_lt_succ line)
  · refine .inr ⟨congrArg (· + 1) line, ?_⟩
    have := startOf_count_le t a
    rw [line] at this ⊢
    omega

end Position

/-- The index of a text finds its positions. -/
theorem isLineMap_ofText (t : Text) : (ofText t).IsLineMap t where
  line offset := by rw [position_eq_count, Nat.add_comm]
  column offset := ⟨_, isLineStart_startOf t offset, by rw [position_eq_count]⟩
  searched offset := by
    refine ⟨exists_isSearched t offset, fun answer searched => ?_⟩
    exact ⟨_, _, lineOf?_of_isSearched t offset searched,
      getElem?_starts (count_take_lt t offset), startOf_count_le t offset,
      position_eq_count t offset⟩
  ordered a b := (strictMono_key t).le_iff_le.symm
  distinct a b same := (strictMono_key t).injective (congrArg Position.key same)

end LineIndex
end TagLint
