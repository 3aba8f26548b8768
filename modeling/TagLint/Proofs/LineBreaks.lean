import TagLint.Proofs.Reads
import TagLint.Text.Line

/-!
Lines between line breaks.

A run of carriage returns and line feeds can be cut into line breaks in several ways. In only one of
them does no carriage return end a line on its own in front of a line feed. A search from left to
right that tries the two characters together first, and each of them alone after that, finds this
one, and the lines it leaves are the broken lines of the text (`Text.exists_lineation`).
-/
namespace TagLint

/-- What ends a line. -/
inductive LineBreak where
  | returnFeed
  | carriageReturn
  | lineFeed
  | lineSeparator
  | paragraphSeparator
  deriving DecidableEq, Repr

/-- A line and the line break that ends it. -/
structure EndedLine where
  line : Text
  ending : LineBreak

/-- A way to read a text as lines: those that a line break ends, and the last one. -/
@[ext]
structure Lineation where
  ended : List EndedLine
  last : Text

namespace LineBreak

/-- How the line break is written. -/
def text : LineBreak → Text
  | returnFeed => ['\r', '\n']
  | carriageReturn => ['\r']
  | lineFeed => ['\n']
  | lineSeparator => ['\u2028']
  | paragraphSeparator => ['\u2029']

/-- The line breaks in the order in which a search tries them at one place. -/
def alternatives : List LineBreak :=
  [returnFeed, carriageReturn, lineFeed, lineSeparator, paragraphSeparator]

/-- The characters that break lines, each on its own. -/
def chars : List Char :=
  ['\r', '\n', '\u2028', '\u2029']

/-- The first of the alternatives that a text starts with. -/
def atStart? (t : Text) : Option LineBreak :=
  alternatives.find? fun ending => ending.text.isPrefixOf t

/-- Searches the leftmost place where one of the alternatives stands: the line before it with the
line break that is tried first there, and the text after them. -/
def find? (t : Text) : Option (EndedLine × Text) :=
  (t.breakAt? fun rest => (atStart? rest).isSome).bind fun sides =>
    (atStart? sides.2).map fun ending =>
      (⟨sides.1, ending⟩, sides.2.drop ending.text.length)

end LineBreak

/-- Whether none of the characters that break lines is in the text. -/
def Text.IsUnbroken (t : Text) : Prop :=
  ∀ c ∈ LineBreak.chars, c ∉ t

namespace Lineation

/-- The text that is read. -/
def text (l : Lineation) : Text :=
  (l.ended.flatMap fun e => e.line ++ e.ending.text) ++ l.last

def lines (l : Lineation) : List Text :=
  l.ended.map EndedLine.line ++ [l.last]

/-- Whether all lines are unbroken, and no carriage return that ends a line on its own has a line
feed behind it. -/
structure IsProper (l : Lineation) : Prop where
  unbroken : ∀ line ∈ l.lines, line.IsUnbroken
  whole : ∀ earlier e later, l.ended = earlier ++ e :: later → e.ending = .carriageReturn →
    (text ⟨later, l.last⟩).head? ≠ some '\n'

/-- Whether each line that ends is what the search finds from where the one before it has ended, and
nothing is found in the last line. -/
structure IsSearched (l : Lineation) : Prop where
  ended : ∀ earlier e later, l.ended = earlier ++ e :: later →
    LineBreak.find? (text ⟨e :: later, l.last⟩) = some (e, text ⟨later, l.last⟩)
  last : LineBreak.find? l.last = none

/-- Whether the text is read at exactly its line breaks. -/
structure IsExact (t : Text) (l : Lineation) : Prop where
  text : l.text = t
  proper : l.IsProper
  /-- The text is read properly in no other way. -/
  only : ∀ other : Lineation, other.text = t → other.IsProper → other = l
  /-- A carriage return and a line feed behind it are one line break, wherever they stand. -/
  paired : ∀ before after, t = before ++ '\r' :: '\n' :: after →
    ∃ earlier line later, l.ended = earlier ++ ⟨line, .returnFeed⟩ :: later ∧
      before = Lineation.text ⟨earlier, line⟩ ∧ after = Lineation.text ⟨later, l.last⟩
  searched : l.IsSearched

end Lineation

namespace Text

theorem isUnbroken_iff {t : Text} : t.IsUnbroken ↔ ∀ c ∈ t, isLineBreak c = false := by
  constructor
  · intro unbroken c member
    rw [Bool.eq_false_iff]
    intro breaks
    have among : c ∈ LineBreak.chars := by
      simpa [LineBreak.chars, isLineBreak, or_assoc, or_left_comm] using breaks
    exact unbroken c among member
  · intro plain c breaks member
    have := plain c member
    simp_all [LineBreak.chars, isLineBreak]

theorem IsUnbroken.ne_append_cons {line : Text} (unbroken : line.IsUnbroken) {c : Char}
    (breaks : c ∈ LineBreak.chars) (before after : Text) :
    line ≠ before ++ c :: after := by
  rintro rfl
  exact unbroken c breaks (by simp)

/-- A character in two texts put together is in the first or in the second. -/
theorem append_eq_append_cons {s t before after : Text} {c : Char}
    (joined : s ++ t = before ++ c :: after) :
    (∃ rest, s = before ++ c :: rest ∧ after = rest ++ t) ∨
      ∃ rest, before = s ++ rest ∧ t = rest ++ c :: after := by
  rcases List.append_eq_append_iff.1 joined with ⟨rest, begins, ends⟩ | ⟨rest, begins, ends⟩
  · exact Or.inr ⟨rest, begins, ends⟩
  · cases rest with
    | nil => exact Or.inr ⟨[], by simpa using begins.symm, ends.symm⟩
    | cons d rest =>
      obtain ⟨rfl, rfl⟩ := List.cons.inj ends
      exact Or.inl ⟨rest, begins, rfl⟩

end Text

namespace LineBreak

theorem atStart?_of_isUnbroken {t : Text} (unbroken : t.IsUnbroken) {c : Char} {r : Text}
    (suffix : c :: r <:+ t) (after : Text) : atStart? (c :: r ++ after) = none := by
  have plain := Text.isUnbroken_iff.1 unbroken c (suffix.subset List.mem_cons_self)
  simp only [isLineBreak, Bool.or_eq_false_iff, beq_eq_false_iff_ne] at plain
  simp [atStart?, alternatives, text, plain, Ne.symm]

theorem exists_text_eq {c : Char} (breaks : isLineBreak c = true) :
    ∃ ending : LineBreak, ending.text = [c] := by
  simp only [isLineBreak, Bool.or_eq_true, beq_iff_eq] at breaks
  rcases breaks with ((rfl | rfl) | rfl) | rfl
  · exact ⟨lineFeed, rfl⟩
  · exact ⟨carriageReturn, rfl⟩
  · exact ⟨lineSeparator, rfl⟩
  · exact ⟨paragraphSeparator, rfl⟩

/-- A line break is found where it stands, unless it is a carriage return with a line feed behind
it. -/
theorem atStart?_text_append {ending : LineBreak} {after : Text}
    (whole : ending = carriageReturn → after.head? ≠ some '\n') :
    atStart? (ending.text ++ after) = some ending := by
  cases ending with
  | carriageReturn =>
    have apart := whole rfl
    cases after with
    | nil => rfl
    | cons c after =>
      have other : '\n' ≠ c := by rintro rfl; exact apart rfl
      simp [atStart?, alternatives, text, other]
  | _ => simp [atStart?, alternatives, text]

/-- The search finds the first line of a text. -/
theorem find?_ended {e : EndedLine} {after : Text} (unbroken : e.line.IsUnbroken)
    (whole : e.ending = carriageReturn → after.head? ≠ some '\n') :
    find? (e.line ++ e.ending.text ++ after) = some (e, after) := by
  have here := atStart?_text_append whole
  have split : Text.breakAt? (fun rest => (atStart? rest).isSome)
      (e.line ++ (e.ending.text ++ after)) = some (e.line, e.ending.text ++ after) := by
    refine Text.breakAt?_eq (fun c r suffix => ?_) ?_ ?_
    · rw [atStart?_of_isUnbroken unbroken suffix]
      rfl
    · cases e.ending <;> simp [text]
    · rw [here]
      rfl
  rw [find?, List.append_assoc, split, Option.bind_some, here, Option.map_some, List.drop_left]

/-- The search finds nothing in the last line. -/
theorem find?_eq_none {t : Text} (unbroken : t.IsUnbroken) : find? t = none := by
  have none : t.breakAt? (fun rest => (atStart? rest).isSome) = none := by
    refine Text.breakAt?_eq_none_iff.2 fun c r suffix => ?_
    rw [← List.append_nil (c :: r), atStart?_of_isUnbroken unbroken suffix]
    rfl
  rw [find?, none, Option.bind_none]

end LineBreak

namespace Lineation

theorem text_cons (e : EndedLine) (ended : List EndedLine) (last : Text) :
    text ⟨e :: ended, last⟩ = e.line ++ e.ending.text ++ text ⟨ended, last⟩ := by
  simp [text]

theorem isProper_last {last : Text} (unbroken : last.IsUnbroken) : IsProper ⟨[], last⟩ where
  unbroken := by simpa [lines] using unbroken
  whole := by simp

theorem isProper_cons_iff {e : EndedLine} {ended : List EndedLine} {last : Text} :
    IsProper ⟨e :: ended, last⟩ ↔ e.line.IsUnbroken ∧
      (e.ending = .carriageReturn → (text ⟨ended, last⟩).head? ≠ some '\n') ∧
      IsProper ⟨ended, last⟩ := by
  constructor
  · intro proper
    have unbroken := List.forall_mem_cons.1 proper.unbroken
    exact ⟨unbroken.1, proper.whole [] e ended rfl, unbroken.2,
      fun earlier f later split => proper.whole (e :: earlier) f later (congrArg (e :: ·) split)⟩
  · rintro ⟨first, apart, proper⟩
    refine ⟨List.forall_mem_cons.2 ⟨first, proper.unbroken⟩, fun earlier f later split => ?_⟩
    rcases List.cons_eq_append_iff.1 split with ⟨rfl, same⟩ | ⟨others, rfl, further⟩
    · obtain ⟨rfl, rfl⟩ := List.cons.inj same
      exact apart
    · exact proper.whole others f later further

/-! ### The search -/

/-- Each line of a proper reading is what the search finds. -/
theorem isSearched_of_isProper {l : Lineation} (proper : l.IsProper) : l.IsSearched where
  ended earlier e later split := by
    have unbroken : e.line.IsUnbroken := proper.unbroken _ (by simp [lines, split])
    rw [text_cons]
    exact LineBreak.find?_ended unbroken (proper.whole earlier e later split)
  last := LineBreak.find?_eq_none (proper.unbroken _ (by simp [lines]))

theorem IsSearched.tail {e : EndedLine} {ended : List EndedLine} {last : Text}
    (searched : IsSearched ⟨e :: ended, last⟩) : IsSearched ⟨ended, last⟩ where
  ended earlier f later split := searched.ended (e :: earlier) f later (congrArg (e :: ·) split)
  last := searched.last

/-- The search finds one reading of a text. -/
theorem eq_of_isSearched {l m : Lineation} (searched : l.IsSearched) (searched' : m.IsSearched)
    (same : l.text = m.text) : l = m := by
  obtain ⟨ended, last⟩ := l
  obtain ⟨ended', last'⟩ := m
  induction ended generalizing ended' with
  | nil =>
    have none := searched.last
    cases ended' with
    | nil => exact Lineation.ext rfl same
    | cons e ended' =>
      -- In one text the search finds a line, in the other it finds nothing.
      have found := searched'.ended [] e ended' rfl
      rw [← same] at found
      exact absurd (none.symm.trans found) (by simp)
  | cons e ended ih =>
    have found := searched.ended [] e ended rfl
    cases ended' with
    | nil =>
      have none := searched'.last
      rw [same] at found
      exact absurd (none.symm.trans found) (by simp)
    | cons e' ended' =>
      have found' := searched'.ended [] e' ended' rfl
      rw [same, found'] at found
      obtain ⟨rfl, rest⟩ := Prod.mk.inj (Option.some.inj found)
      obtain ⟨rfl, rfl⟩ := Lineation.mk.inj (ih searched.tail ended' searched'.tail rest.symm)
      rfl

/-! ### The places of line breaks -/

/-- Every character that breaks lines is in one of the line breaks. -/
theorem exists_ended {l : Lineation} (unbroken : ∀ line ∈ l.lines, line.IsUnbroken)
    {before after : Text} {c : Char} (breaks : c ∈ LineBreak.chars)
    (joined : l.text = before ++ c :: after) :
    ∃ earlier e later lead tail, l.ended = earlier ++ e :: later ∧
      e.ending.text = lead ++ c :: tail ∧ before = text ⟨earlier, e.line⟩ ++ lead ∧
      after = tail ++ text ⟨later, l.last⟩ := by
  obtain ⟨ended, last⟩ := l
  induction ended generalizing before with
  | nil => exact absurd joined ((unbroken last List.mem_cons_self).ne_append_cons breaks _ _)
  | cons e ended ih =>
    -- The place is in the first line, in the break that ends it, or farther on.
    rw [text_cons, List.append_assoc] at joined
    rcases Text.append_eq_append_cons joined with ⟨rest, shown, -⟩ | ⟨lead, rfl, further⟩
    · exact absurd shown ((unbroken _ List.mem_cons_self).ne_append_cons breaks _ _)
    rcases Text.append_eq_append_cons further with ⟨tail, own, behind⟩ | ⟨rest, rfl, below⟩
    · exact ⟨[], e, ended, lead, tail, rfl, own, rfl, behind⟩
    · obtain ⟨earlier, f, later, lead, tail, split, own, ahead, behind⟩ :=
        ih (fun line member => unbroken line (List.mem_cons_of_mem _ member)) below
      refine ⟨e :: earlier, f, later, lead, tail, congrArg (e :: ·) split, own, ?_, behind⟩
      rw [ahead, text_cons]
      simp

/-- In a proper reading a carriage return and a line feed behind it are one line break. -/
theorem exists_returnFeed {l : Lineation} (proper : l.IsProper) {before after : Text}
    (joined : l.text = before ++ '\r' :: '\n' :: after) :
    ∃ earlier line later, l.ended = earlier ++ ⟨line, .returnFeed⟩ :: later ∧
      before = text ⟨earlier, line⟩ ∧ after = text ⟨later, l.last⟩ := by
  obtain ⟨earlier, ⟨line, ending⟩, later, lead, tail, split, own, ahead, behind⟩ :=
    exists_ended proper.unbroken (by decide) joined
  cases ending with
  | returnFeed =>
    obtain ⟨rfl, rfl⟩ : lead = [] ∧ tail = ['\n'] := by
      rcases List.cons_eq_append_iff.1 own with ⟨rfl, same⟩ | ⟨lead, rfl, same⟩
      · exact ⟨rfl, (List.cons.inj same).2⟩
      · simp [List.cons_eq_append_iff] at same
    exact ⟨earlier, line, later, split, by simpa using ahead, by simpa using behind⟩
  | carriageReturn =>
    obtain ⟨rfl, rfl⟩ : lead = [] ∧ tail = [] := by
      simpa [LineBreak.text, List.cons_eq_append_iff] using own
    -- The line feed would be behind a carriage return that ends its line on its own.
    refine absurd ?_ (proper.whole _ _ _ split rfl)
    rw [← List.nil_append (text _), ← behind]
    rfl
  | _ => simp [LineBreak.text, List.cons_eq_append_iff] at own

/-! ### The broken lines -/

/-- A character goes before the first line. -/
theorem exists_isProper_cons {l : Lineation} (proper : l.IsProper) {c : Char}
    (plain : isLineBreak c = false) :
    ∃ m : Lineation, m.IsProper ∧ m.text = c :: l.text ∧
      ∀ first others, l.lines = first :: others → m.lines = (c :: first) :: others := by
  have longer {line : Text} (unbroken : line.IsUnbroken) : Text.IsUnbroken (c :: line) := by
    rw [Text.isUnbroken_iff] at unbroken ⊢
    exact List.forall_mem_cons.2 ⟨plain, unbroken⟩
  obtain ⟨ended, last⟩ := l
  cases ended with
  | nil =>
    refine ⟨⟨[], c :: last⟩, isProper_last (longer (proper.unbroken _ List.mem_cons_self)), rfl, ?_⟩
    rintro first others same
    obtain ⟨rfl, rfl⟩ := List.cons.inj same
    rfl
  | cons e ended =>
    obtain ⟨unbroken, whole, proper⟩ := isProper_cons_iff.1 proper
    refine ⟨⟨⟨c :: e.line, e.ending⟩ :: ended, last⟩,
      isProper_cons_iff.2 ⟨longer unbroken, whole, proper⟩, by simp [text_cons], ?_⟩
    rintro first others same
    obtain ⟨rfl, rfl⟩ := List.cons.inj same
    rfl

theorem lines_ne_nil (l : Lineation) : l.lines ≠ [] := by
  simp [lines]

/-- The broken lines of a text are those of a proper reading. -/
theorem exists_isProper (t : Text) :
    ∃ l : Lineation, l.IsProper ∧ l.text = t ∧ l.lines = t.brokenLines := by
  have nothing : Text.IsUnbroken [] := by simp [Text.IsUnbroken]
  fun_induction Text.brokenLines t with
  | case1 => exact ⟨⟨[], []⟩, isProper_last nothing, rfl, rfl⟩
  | case2 t ih =>
    -- A carriage return and a line feed end an empty line together.
    obtain ⟨l, proper, rfl, shown⟩ := ih
    exact ⟨⟨⟨[], .returnFeed⟩ :: l.ended, l.last⟩,
      isProper_cons_iff.2 ⟨nothing, nofun, proper⟩, text_cons _ _ _, congrArg ([] :: ·) shown⟩
  | case3 c t other breaks ih =>
    -- A character that breaks lines ends an empty line alone; if it is a carriage return, no line
    -- feed is behind it.
    obtain ⟨l, proper, rfl, shown⟩ := ih
    obtain ⟨ending, written⟩ := LineBreak.exists_text_eq breaks
    refine ⟨⟨⟨[], ending⟩ :: l.ended, l.last⟩, isProper_cons_iff.2 ⟨nothing, ?_, proper⟩, ?_,
      congrArg ([] :: ·) shown⟩
    · rintro rfl feed
      obtain ⟨rest, same⟩ := List.head?_eq_some_iff.1 feed
      exact other rest (List.cons.inj written).1.symm same
    · rw [text_cons, written]
      rfl
  | case4 c t other plain first others broken ih =>
    obtain ⟨l, proper, rfl, shown⟩ := ih
    obtain ⟨m, proper, joined, lines⟩ := exists_isProper_cons proper (Bool.eq_false_iff.2 plain)
    exact ⟨m, proper, joined, lines first others (shown.trans broken)⟩
  | case5 c t other plain none ih =>
    obtain ⟨l, _, _, shown⟩ := ih
    exact absurd (shown.trans none) l.lines_ne_nil

end Lineation

/-- Every text can be read at exactly its line breaks, and its broken lines are the lines of this
reading. -/
theorem Text.exists_lineation (t : Text) :
    ∃ l : Lineation, l.IsExact t ∧ l.lines = t.brokenLines := by
  obtain ⟨l, proper, joined, shown⟩ := Lineation.exists_isProper t
  have searched := Lineation.isSearched_of_isProper proper
  refine ⟨l, {
    text := joined
    proper := proper
    only := ?only
    paired := ?paired
    searched := searched }, shown⟩
  case only =>
    intro other same proper'
    exact Lineation.eq_of_isSearched (Lineation.isSearched_of_isProper proper') searched
      (same.trans joined.symm)
  case paired =>
    intro before after split
    exact Lineation.exists_returnFeed proper (joined.trans split)

/-- Carriage returns before and line feeds after the pair are line breaks of their own. -/
example : Text.brokenLines "\r\r\n\n".toList = [[], [], [], []] := by decide

end TagLint
