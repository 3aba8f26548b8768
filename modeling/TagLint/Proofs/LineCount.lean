import TagLint.Source.LineIndex
import TagLint.Text.Line
import Mathlib.Data.List.DropRight

/-!
Positions count line feeds: the line of an offset is one more than the number of line feeds before
it, and its column is the number of bytes after the last of them. The search by halving keeps the
line between its two ends. The lines of a text, which are found by cutting it at its line feeds, are
numbered in the same way.
-/
namespace TagLint

namespace Text

def feeds (t : Text) : Nat :=
  t.count '\n'

@[simp] theorem feeds_nil : feeds [] = 0 := rfl

@[simp] theorem feeds_append (s t : Text) : (s ++ t).feeds = s.feeds + t.feeds :=
  List.count_append

theorem feeds_of_notMem {t : Text} (unbroken : '\n' ∉ t) : t.feeds = 0 :=
  List.count_eq_zero.2 unbroken

/-- What stands after the last line feed. -/
def sinceFeed (t : Text) : Text :=
  t.rtakeWhile (· != '\n')

/-- The last line of a text starts where the text does or after a line feed. -/
theorem exists_lineStart (t : Text) :
    ∃ earlier, t = earlier ++ t.sinceFeed ∧ '\n' ∉ t.sinceFeed ∧ t.feeds = earlier.feeds ∧
      (earlier = [] ∨ ∃ lines, earlier = lines ++ ['\n']) := by
  have split : t = t.rdropWhile (· != '\n') ++ t.sinceFeed :=
    List.rdropWhile_append_rtakeWhile.symm
  have unbroken : '\n' ∉ t.sinceFeed := fun member => by
    simpa using List.mem_rtakeWhile_imp member
  refine ⟨_, split, unbroken, ?_, ?_⟩
  · conv_lhs => rw [split, feeds_append]
    rw [feeds_of_notMem unbroken, Nat.add_zero]
  · by_cases none : t.rdropWhile (· != '\n') = []
    · exact Or.inl none
    · have last := List.rdropWhile_last_not (· != '\n') t none
      simp only [bne_iff_ne, ne_eq, not_not] at last
      exact Or.inr ⟨_, last ▸ (List.dropLast_append_getLast none).symm⟩

theorem exists_splitOn (isSeparator : Char → Bool) (t : Text) :
    ∃ first others, splitOn isSeparator t = first :: others := by
  cases t with
  | nil => exact ⟨_, _, rfl⟩
  | cons c t =>
    unfold splitOn
    split
    · exact ⟨_, _, rfl⟩
    · split <;> exact ⟨_, _, rfl⟩

/-- A text is split at every separator. -/
theorem splitOn_append_cons {isSeparator : Char → Bool} {c : Char}
    (separates : isSeparator c = true) (s t : Text) :
    splitOn isSeparator (s ++ c :: t) = splitOn isSeparator s ++ splitOn isSeparator t := by
  induction s with
  | nil => simp [splitOn, separates]
  | cons d s ih =>
    by_cases own : isSeparator d = true
    · simp [splitOn, own, ih]
    · obtain ⟨first, others, shown⟩ := exists_splitOn isSeparator s
      simp [splitOn, own, ih, shown]

theorem splitOn_of_forall {isSeparator : Char → Bool} {t : Text}
    (whole : ∀ c ∈ t, isSeparator c = false) : splitOn isSeparator t = [t] := by
  induction t with
  | nil => rfl
  | cons c t ih =>
    rw [List.forall_mem_cons] at whole
    simp [splitOn, whole.1, ih whole.2]

/-- Lines are cut at every line feed. -/
theorem feedLines_append (s t : Text) : feedLines (s ++ '\n' :: t) = feedLines s ++ feedLines t :=
  splitOn_append_cons (by decide) s t

theorem beq_feed_of_notMem {t : Text} (unbroken : '\n' ∉ t) : ∀ c ∈ t, (c == '\n') = false := by
  intro c member
  rw [beq_eq_false_iff_ne]
  rintro rfl
  exact unbroken member

theorem feedLines_of_notMem {t : Text} (unbroken : '\n' ∉ t) : feedLines t = [t] :=
  splitOn_of_forall (beq_feed_of_notMem unbroken)

/-- A text is a line without a line feed, or such a line, a line feed and a text. -/
@[elab_as_elim]
theorem feedInduction {motive : Text → Prop} (last : ∀ line, '\n' ∉ line → motive line)
    (feed : ∀ line rest, '\n' ∉ line → motive rest → motive (line ++ '\n' :: rest)) (t : Text) :
    motive t := by
  by_cases broken : '\n' ∈ t
  · obtain ⟨line, rest, rfl, unbroken⟩ := List.eq_append_cons_of_mem broken
    exact feed line rest unbroken (feedInduction last feed rest)
  · exact last t broken
termination_by t.length
decreasing_by
  subst t
  simp only [List.length_append, List.length_cons]
  omega

theorem feedLines_line {line : Text} (unbroken : '\n' ∉ line) (rest : Text) :
    feedLines (line ++ '\n' :: rest) = line :: feedLines rest := by
  rw [feedLines_append, feedLines_of_notMem unbroken]
  rfl

theorem length_feedLines (t : Text) : t.feedLines.length = t.feeds + 1 := by
  induction t using feedInduction with
  | last line unbroken =>
    rw [feedLines_of_notMem unbroken, feeds_of_notMem unbroken]
    rfl
  | feed line rest unbroken ih =>
    have first : feeds ('\n' :: rest) = rest.feeds + 1 := List.count_cons_self
    rw [feedLines_line unbroken, List.length_cons, ih, feeds_append, feeds_of_notMem unbroken,
      first, Nat.zero_add]

/-- Whether `line` is the line of the source that the place is on, without its line feed. -/
def HasLineAt (source : Text) (place : Nat) (line : Text) : Prop :=
  ∃ before after, source = before ++ line ++ after ∧
    (before = [] ∨ ∃ lines, before = lines ++ ['\n']) ∧ '\n' ∉ line ∧
    (after = [] ∨ ∃ others, after = '\n' :: others) ∧
    before.byteLength ≤ place ∧ place ≤ before.byteLength + line.byteLength

/-- Every place between characters is on a line, which has the number that line feeds count. -/
theorem exists_hasLineAt (before after : Text) :
    ∃ line, (before ++ after).HasLineAt before.byteLength line ∧
      (before ++ after).line? (before.feeds + 1) = some (dropFinal '\r' line) := by
  -- The line has one part before the place, from the last line feed on, and one after it.
  obtain ⟨earlier, split, unbroken, counted, whole⟩ := before.exists_lineStart
  let rest := after.takeWhile (· != '\n')
  have unbroken' : '\n' ∉ rest := fun member => by simpa using List.mem_takeWhile_imp member
  have further : after.dropWhile (· != '\n') = [] ∨
      ∃ others, after.dropWhile (· != '\n') = '\n' :: others := by
    cases shown : after.dropWhile (· != '\n') with
    | nil => exact Or.inl rfl
    | cons c others =>
      have stops := List.head?_dropWhile_not (· != '\n') after
      rw [shown] at stops
      simp only [List.head?_cons, bne_eq_false_iff_eq] at stops
      exact Or.inr ⟨others, by rw [stops]⟩
  have parts : before ++ after =
      earlier ++ (before.sinceFeed ++ rest) ++ after.dropWhile (· != '\n') := by
    conv_lhs => rw [split, ← List.takeWhile_append_dropWhile (p := (· != '\n')) (l := after)]
    simp [rest]
  have plain : '\n' ∉ before.sinceFeed ++ rest := by simp [unbroken, unbroken']
  have lines : (before.sinceFeed ++ rest ++ after.dropWhile (· != '\n')).feedLines.head? =
      some (before.sinceFeed ++ rest) := by
    rcases further with none | ⟨others, shown⟩
    · rw [none, List.append_nil, feedLines_of_notMem plain]
      rfl
    · rw [shown, feedLines_line plain]
      rfl
  have size := congrArg byteLength split
  rw [byteLength_append] at size
  refine ⟨before.sinceFeed ++ rest, ⟨earlier, _, parts, whole, plain, further, by omega, ?_⟩, ?_⟩
  · rw [byteLength_append]
    omega
  · -- Before the line are as many lines as there are line feeds, so its number picks it.
    rw [line?, parts, counted, List.append_assoc]
    rcases whole with rfl | ⟨before', rfl⟩
    · rw [List.nil_append, feeds_nil, ← List.head?_eq_getElem?, lines]
      rfl
    · have first : (before' ++ ['\n']).feeds = before'.feedLines.length := by
        rw [length_feedLines, feeds_append]
        rfl
      rw [List.append_assoc, List.singleton_append, feedLines_append, first,
        List.getElem?_append_right (Nat.le_refl _), Nat.sub_self, ← List.head?_eq_getElem?, lines]
      rfl

/-- Whether the place stands between characters of the source, and is shown as the given line and
column, which count from 1. -/
def IsShownAt (source : Text) (place line column : Nat) : Prop :=
  ∃ before after, source = before ++ after ∧ before.byteLength = place ∧
    line = before.feeds + 1 ∧ column = before.sinceFeed.byteLength + 1

end Text

namespace LineIndex

theorem length_feedEnds (offset : Nat) (t : Text) : (feedEnds offset t).length = t.feeds := by
  induction t generalizing offset with
  | nil => rfl
  | cons c t ih =>
    by_cases feed : c = '\n' <;> simp [feedEnds, feed, ih, Text.feeds]

theorem feedEnds_append (offset : Nat) (s t : Text) :
    feedEnds offset (s ++ t) = feedEnds offset s ++ feedEnds (offset + s.byteLength) t := by
  induction s generalizing offset with
  | nil => simp [feedEnds]
  | cons c s ih =>
    by_cases feed : c = '\n'
    · subst feed
      have size : '\n'.utf8Size = 1 := by decide
      simp [feedEnds, ih, size, Nat.add_assoc]
    · simp [feedEnds, feed, ih, Nat.add_assoc]

/-- Lines start after the offset that a text starts at, and not after its end. -/
theorem mem_feedEnds {offset start : Nat} {t : Text} (member : start ∈ feedEnds offset t) :
    offset < start ∧ start ≤ offset + t.byteLength := by
  induction t generalizing offset with
  | nil => simp [feedEnds] at member
  | cons c t ih =>
    by_cases feed : c = '\n'
    · subst feed
      have size : '\n'.utf8Size = 1 := by decide
      simp only [feedEnds, BEq.rfl, if_true, List.mem_cons] at member
      rw [Text.byteLength_cons, size]
      rcases member with rfl | later
      · omega
      · have := ih later
        omega
    · have other : (c == '\n') = false := by simpa using feed
      simp only [feedEnds, other, Bool.false_eq_true, if_false] at member
      have := ih member
      rw [Text.byteLength_cons]
      have := Char.utf8Size_pos c
      omega

/-- The search finds the line where the starts pass the offset. -/
theorem search_eq {index : LineIndex} {offset line low high : Nat}
    (passes : ∀ i < index.starts.size, index.startOf i ≤ offset ↔ i ≤ line)
    (lower : low ≤ line) (upper : line < high) (bound : high ≤ index.starts.size) :
    index.search offset low high = line := by
  fun_induction search index offset low high with
  | case1 low high wide middle before ih =>
    have := (passes middle (by omega)).1 before
    exact ih (by omega) upper bound
  | case2 low high wide middle after ih =>
    have := mt (passes middle (by omega)).2 after
    exact ih lower (by omega) (by omega)
  | case3 low high narrow => omega

/-- The lines of a text start at its own line feeds and at those of what follows. -/
theorem starts_ofText (before after : Text) :
    (ofText (before ++ after)).starts.toList =
      (0 :: feedEnds 0 before) ++ feedEnds before.byteLength after := by
  simp [ofText, feedEnds_append]

/-- The last line of a text starts after its last line feed. -/
theorem getElem?_feedEnds_feeds (before : Text) :
    (0 :: feedEnds 0 before)[before.feeds]? =
      some (before.byteLength - before.sinceFeed.byteLength) := by
  obtain ⟨earlier, split, unbroken, counted, whole⟩ := before.exists_lineStart
  have alone : feedEnds earlier.byteLength before.sinceFeed = [] := by
    rw [← List.length_eq_zero_iff, length_feedEnds, Text.feeds_of_notMem unbroken]
  have size : before.byteLength = earlier.byteLength + before.sinceFeed.byteLength := by
    conv_lhs => rw [split, Text.byteLength_append]
  have ends : feedEnds 0 before = feedEnds 0 earlier := by
    conv_lhs => rw [split, feedEnds_append, Nat.zero_add, alone, List.append_nil]
  rw [ends, counted, size, Nat.add_sub_cancel]
  rcases whole with rfl | ⟨lines, rfl⟩
  · rfl
  · have final : (0 :: feedEnds 0 lines).length = (lines ++ ['\n']).feeds := by
      rw [List.length_cons, length_feedEnds, Text.feeds_append]
      rfl
    have width : '\n'.utf8Size = 1 := by decide
    rw [feedEnds_append, ← List.cons_append, ← final, Nat.zero_add]
    simp [feedEnds, width]

/-- The position of an offset counts the line feeds before it, and the bytes after the last of
them. -/
theorem position_eq (before after : Text) :
    (ofText (before ++ after)).position before.byteLength =
      ⟨before.feeds + 1, before.sinceFeed.byteLength⟩ := by
  have starts := starts_ofText before after
  have length : (0 :: feedEnds 0 before).length = before.feeds + 1 := by
    rw [List.length_cons, length_feedEnds]
  have size : (ofText (before ++ after)).starts.size =
      before.feeds + 1 + (feedEnds before.byteLength after).length := by
    rw [← Array.length_toList, starts, List.length_append, length]
  -- The starts up to the line are not after the offset, and all later ones are.
  have passes : ∀ i < (ofText (before ++ after)).starts.size,
      (ofText (before ++ after)).startOf i ≤ before.byteLength ↔ i ≤ before.feeds := by
    intro i within
    rw [startOf, ← Array.getElem?_toList, starts]
    rcases Nat.lt_or_ge before.feeds i with later | earlier
    · rw [List.getElem?_append_right (by omega), length]
      have further : i - (before.feeds + 1) < (feedEnds before.byteLength after).length := by omega
      rw [List.getElem?_eq_getElem further, Option.getD_some]
      have := mem_feedEnds (List.getElem_mem further)
      omega
    · rw [List.getElem?_append_left (by omega), List.getElem?_eq_getElem (by omega),
        Option.getD_some]
      have among := List.getElem_mem (l := 0 :: feedEnds 0 before) (n := i) (by omega)
      rcases List.mem_cons.1 among with first | start
      · omega
      · have := mem_feedEnds start
        omega
  have start : (ofText (before ++ after)).startOf before.feeds =
      before.byteLength - before.sinceFeed.byteLength := by
    rw [startOf, ← Array.getElem?_toList, starts, List.getElem?_append_left (by omega),
      getElem?_feedEnds_feeds, Option.getD_some]
  have part : before.sinceFeed.byteLength ≤ before.byteLength := by
    obtain ⟨earlier, split, _⟩ := before.exists_lineStart
    have := congrArg Text.byteLength split
    rw [Text.byteLength_append] at this
    omega
  rw [position, search_eq passes (Nat.zero_le _) (by omega) (Nat.le_refl _), start,
    Nat.sub_sub_self part]

/-- The line of an offset counts the line feeds before it. -/
theorem line_position (before after : Text) :
    ((ofText (before ++ after)).position before.byteLength).line = before.feeds + 1 := by
  rw [position_eq]

/-- Whether the text stands at the offset, as far as the lines of its places tell. -/
def Spells (index : LineIndex) (offset : Nat) (t : Text) : Prop :=
  ∀ s u, t = s ++ u → (index.position (offset + s.byteLength)).line =
    (index.position offset).line + s.feeds

theorem spells_ofText (t : Text) : (ofText t).Spells 0 t := by
  rintro s u rfl
  have start := line_position [] (s ++ u)
  have place := line_position s u
  simp only [List.nil_append, Text.byteLength_nil, Text.feeds_nil] at start
  rw [Nat.zero_add, place, start, Nat.zero_add, Nat.add_comm]

namespace Spells

variable {index : LineIndex} {offset : Nat} {s t : Text}

theorem left (spells : index.Spells offset (s ++ t)) : index.Spells offset s := by
  rintro u v rfl
  exact spells u (v ++ t) (List.append_assoc u v t)

theorem right (spells : index.Spells offset (s ++ t)) :
    index.Spells (offset + s.byteLength) t := by
  rintro u v rfl
  have place := spells s (u ++ v) rfl
  have further := spells (s ++ u) v (List.append_assoc s u v).symm
  rw [Text.byteLength_append, Text.feeds_append, ← Nat.add_assoc] at further
  rw [further, place, Nat.add_assoc]

end Spells

end LineIndex
end TagLint
