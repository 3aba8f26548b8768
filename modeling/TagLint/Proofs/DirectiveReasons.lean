import TagLint.Proofs.Directives
import TagLint.Proofs.RoundTrip
import TagLint.Proofs.Trimming
import Mathlib.Data.List.Infix

/-!
What a reason does to the directive that it is written in.

The list of ids ends where ` -- ` first stands, so an id that is not `--` itself cannot be taken for
the start of a reason, and a reason is left out with everything in it. But the blanks before a list
are passed over before that. Where nothing else comes before the reason, its own blank is one of
them, so ` -- ` is not found and the words of the reason are taken for ids.
-/
namespace TagLint

open Written (Piece Construct)

namespace Text

/-- What has no `c` in it and is a part of two texts with `c` in between is a part of one of
them. -/
theorem isInfix_append_cons {needle s t : Text} {c : Char} (apart : c ∉ needle)
    (within : needle <:+: s ++ c :: t) : needle <:+: s ∨ needle <:+: t := by
  obtain ⟨before, after, joined⟩ := within
  rw [List.append_assoc] at joined
  rcases List.append_eq_append_iff.1 joined with ⟨middle, rfl, rest⟩ | ⟨middle, rfl, rest⟩
  · -- It starts before `c`, so it stops before `c` too.
    rcases List.append_eq_append_iff.1 rest with ⟨left, rfl, _⟩ | ⟨left, shown, found⟩
    · exact Or.inl ⟨before, left, by simp⟩
    · cases left with
      | nil =>
        rw [List.append_nil] at shown
        exact Or.inl ⟨before, [], by simp [shown]⟩
      | cons d left =>
        obtain ⟨rfl, _⟩ := List.cons.inj found
        exact absurd (shown ▸ by simp) apart
  · cases middle with
    | nil =>
      cases needle with
      | nil => exact Or.inl (List.nil_infix)
      | cons d needle =>
        obtain ⟨rfl, _⟩ := List.cons.inj rest
        exact absurd List.mem_cons_self apart
    | cons d middle =>
      obtain ⟨_, rfl⟩ := List.cons.inj rest
      exact Or.inr ⟨middle, after, by simp⟩

end Text

namespace Directive

/-- What may stand between ids. -/
def separates (c : Char) : Bool :=
  c == ',' || isBlankChar c

/-- The ids that a text lists. -/
def words (t : Text) : List Text :=
  (Text.splitOn separates t).filter fun id => !id.isEmpty

/-- The rules that a list of ids is about: without ids, all of them. -/
def meant (ids : List Text) : List Text :=
  if ids.isEmpty then [allRules] else ids

theorem ruleIds_eq (t : Text) : ruleIds t = meant (words (beforeReason t)) := rfl

section Words

variable {s t : Text} {c : Char}

theorem words_append_cons (between : separates c = true) (s t : Text) :
    words (s ++ c :: t) = words s ++ words t := by
  rw [words, Text.splitOn_append_cons between, List.filter_append, words, words]

theorem words_of_forall (whole : ∀ c ∈ t, separates c = false) (nonempty : t ≠ []) :
    words t = [t] := by
  rw [words, Text.splitOn_of_forall whole]
  simp [nonempty]

theorem separates_of_isBlankChar (blank : isBlankChar c = true) : separates c = true := by
  rw [separates, blank, Bool.or_true]

theorem words_append_of_isBlank (blank : t.isBlank = true) (s : Text) :
    words (s ++ t) = words s := by
  induction t generalizing s with
  | nil => rw [List.append_nil]
  | cons c t ih =>
    rw [Text.isBlank, List.all_cons, Bool.and_eq_true] at blank
    have nothing := ih blank.2 []
    rw [words_append_cons (separates_of_isBlankChar blank.1), ← List.nil_append t, nothing]
    exact List.append_nil _

theorem words_of_isBlank (blank : t.isBlank = true) : words t = [] :=
  words_append_of_isBlank blank []

theorem words_append_left (blank : s.isBlank = true) (t : Text) : words (s ++ t) = words t := by
  induction s with
  | nil => rfl
  | cons c s ih =>
    rw [Text.isBlank, List.all_cons, Bool.and_eq_true] at blank
    have first := words_append_cons (separates_of_isBlankChar blank.1) [] (s ++ t)
    exact first.trans (ih blank.2)

/-- Blanks around a list belong to no id. -/
theorem words_trimStart (t : Text) : words t.trimStart = words t := by
  have blank : t.leadingBlanks.isBlank = true := List.all_eq_true.2 fun _ => List.mem_takeWhile_imp
  have split : t.leadingBlanks ++ t.trimStart = t := List.takeWhile_append_dropWhile
  rw [← words_append_left blank, split]

theorem words_trimEnd (t : Text) : words t.trimEnd = words t := by
  have blank : t.trailingBlanks.isBlank = true := by
    rw [Text.isBlank, Text.trailingBlanks, List.all_reverse]
    exact List.all_eq_true.2 fun _ => List.mem_takeWhile_imp
  have split : t.trimEnd ++ t.trailingBlanks = t := by
    rw [Text.trimEnd, Text.trailingBlanks, ← List.reverse_append, List.takeWhile_append_dropWhile,
      List.reverse_reverse]
  rw [← words_append_of_isBlank blank, split]

theorem words_trim (t : Text) : words t.trim = words t := by
  rw [Text.trim, words_trimEnd, words_trimStart]

/-- A part of a list without separators in it is a part of an id. -/
theorem exists_word_of_isInfix {needle t : Text} (nonempty : needle ≠ [])
    (whole : ∀ c ∈ needle, separates c = false) (within : needle <:+: t) :
    ∃ id ∈ words t, needle <:+: id := by
  by_cases cut : ∃ c ∈ t, separates c = true
  · obtain ⟨c, member, between⟩ := cut
    obtain ⟨s, u, shown⟩ := List.append_of_mem member
    rw [shown] at within
    have apart : c ∉ needle := fun own => by
      rw [whole c own] at between
      contradiction
    rw [shown, words_append_cons between]
    rcases Text.isInfix_append_cons apart within with first | second
    · obtain ⟨id, listed, part⟩ := exists_word_of_isInfix nonempty whole first
      exact ⟨id, List.mem_append_left _ listed, part⟩
    · obtain ⟨id, listed, part⟩ := exists_word_of_isInfix nonempty whole second
      exact ⟨id, List.mem_append_right _ listed, part⟩
  · have one : words t = [t] := by
      refine words_of_forall (fun c member => ?_) ?_
      · rw [Bool.eq_false_iff]
        exact fun between => cut ⟨c, member, between⟩
      · rintro rfl
        exact nonempty (List.infix_nil.1 within)
    exact ⟨t, by rw [one]; exact List.mem_singleton_self t, within⟩
termination_by t.length
decreasing_by
  all_goals
    simp only [shown, List.length_append, List.length_cons]
    omega

end Words

/-- The word that a reason starts with. -/
def dashes : Text := "--".toList

section Reason

variable {t : Text}

theorem words_dashes (t : Text) : words (dashes ++ ' ' :: t) = dashes :: words t := by
  have dash : separates '-' = false := by decide
  have whole : ∀ c ∈ dashes, separates c = false := by simp [dashes, dash]
  have own : words dashes = [dashes] := words_of_forall whole (by decide)
  rw [words_append_cons (by decide), own, List.singleton_append]

/-- The start of a reason is one of the words of a text. -/
theorem dashes_mem_words {s u : Text} : dashes ∈ words (s ++ ' ' :: (dashes ++ ' ' :: u)) := by
  rw [words_append_cons (by decide), words_dashes]
  exact List.mem_append_right _ List.mem_cons_self

/-- A list that does not have the word in it goes on to its end. -/
theorem beforeReason_of_notMem (clear : dashes ∉ words t) : beforeReason t = t := by
  unfold beforeReason
  split
  next ids rest found =>
    obtain ⟨after, rfl⟩ : " -- ".toList <+: rest := Text.breakAt?_prefix found
    have joined := Text.find?_append found
    exact absurd (joined ▸ dashes_mem_words) clear
  · rfl

/-- A list that does not have the word in it ends before the reason. -/
theorem beforeReason_append (clear : dashes ∉ words t) (reason : Text) :
    beforeReason (t ++ (" -- ".toList ++ reason)) = t := by
  have runs (c : Char) (r : Text) (suffix : c :: r <:+ t) :
      " -- ".toList.isPrefixOf (c :: r ++ (" -- ".toList ++ reason)) = false := by
    rw [Bool.eq_false_iff, Ne, List.isPrefixOf_iff_prefix]
    intro starts
    obtain ⟨s, rfl⟩ := suffix
    -- The start of a reason overlaps itself in a blank only, so the list has the word in it.
    match r, starts with
    | [], starts | [d], starts => simp [List.cons_prefix_cons] at starts
    | [d, e], starts =>
      simp only [String.reduceToList, List.cons_append, List.cons_prefix_cons] at starts
      obtain ⟨rfl, rfl, rfl, _⟩ := starts
      have listed := dashes_mem_words (s := s) (u := [])
      have same : s ++ ' ' :: (dashes ++ [' ']) = s ++ [' ', '-', '-'] ++ [' '] := by
        simp [dashes]
      rw [same, words_append_of_isBlank (by decide)] at listed
      exact clear listed
    | d :: e :: f :: r, starts =>
      simp only [String.reduceToList, List.cons_append, List.cons_prefix_cons] at starts
      obtain ⟨rfl, rfl, rfl, rfl, _⟩ := starts
      exact clear dashes_mem_words
  have found : Text.find? " -- ".toList (t ++ (" -- ".toList ++ reason)) =
      some (t, " -- ".toList ++ reason) :=
    Text.breakAt?_eq runs (by simp) (List.isPrefixOf_iff_prefix.2 (List.prefix_append _ _))
  rw [beforeReason, found]

theorem beforeReason_cons {c : Char} (other : c ≠ ' ') (t : Text) :
    beforeReason (c :: t) = c :: beforeReason t := by
  have apart : " -- ".toList.isPrefixOf (c :: t) = false := by
    simp [List.isPrefixOf, Ne.symm other]
  have full : " -- ".toList.isEmpty = false := by decide
  simp only [beforeReason, Text.find?, Text.breakAt?, apart, full, Bool.false_eq_true, if_false]
  cases Text.breakAt? " -- ".toList.isPrefixOf t <;> rfl

theorem words_beforeReason (t : Text) :
    words (beforeReason (dashes ++ ' ' :: t)) = dashes :: words (beforeReason (' ' :: t)) := by
  have passed : beforeReason (dashes ++ ' ' :: t) = dashes ++ beforeReason (' ' :: t) := by
    simp only [dashes, String.reduceToList, List.cons_append, List.nil_append]
    rw [beforeReason_cons (by decide), beforeReason_cons (by decide)]
  rw [passed]
  -- Before the next reason there is nothing, or what comes after the blank.
  have starts : beforeReason (' ' :: t) <+: ' ' :: t := by
    unfold beforeReason
    split
    next ids rest found => exact ⟨rest, Text.find?_append found⟩
    · exact List.prefix_rfl
  rcases List.prefix_cons_iff.1 starts with none | ⟨others, shown, _⟩
  · rw [none]
    decide
  · have blank : Text.isBlank [' '] = true := by decide
    have same : words (' ' :: others) = words others := words_append_left blank others
    rw [shown, words_dashes, same]

end Reason

/-- The words of a directive for the next line only or for the whole document. -/
def command (nextLineOnly : Bool) : Text :=
  keyword ++ if nextLineOnly then nextLineSuffix else []

/-- The comment with a directive about the listed rules. -/
def comment (nextLineOnly : Bool) (list : Text) : Text :=
  "<!-- ".toList ++ command nextLineOnly ++ ' ' :: list ++ " -->".toList

theorem comment_eq (nextLineOnly : Bool) (list : Text) : comment nextLineOnly list =
    "<!-- ".toList ++ command nextLineOnly ++ ' ' :: list ++ " -->".toList := rfl

/-- A list with a reason after it. -/
def withReason (list reason : Text) : Text :=
  list ++ (" -- ".toList ++ reason)

section Comment

variable {list : Text}

theorem dropLead?_append (lead t : Text) : dropLead? lead (lead ++ t) = some t := by
  have starts : lead.isPrefixOf (lead ++ t) = true :=
    List.isPrefixOf_iff_prefix.2 (List.prefix_append lead t)
  rw [dropLead?, if_pos starts, List.drop_left]

theorem trimEnd_cons (list : Text) :
    Text.trimEnd (' ' :: list) = if list.isBlank then [] else ' ' :: list.trimEnd :=
  Text.trimEnd_append [' '] list

/-- The list of a directive is what comes after its words, without the blanks around it. -/
theorem arguments?_trimEnd (oneLine : '\n' ∉ list) :
    arguments? (Text.trimEnd (' ' :: list)) = some list.trim := by
  rw [trimEnd_cons]
  split
  next blank =>
    rw [Text.trim, Text.trimStart_eq_nil blank]
    rfl
  · have start : (' ' :: list.trimEnd).dropWhile isBlankChar = list.trim :=
      Text.trimStart_trimEnd list
    have inside : '\n' ∉ list.trim := fun member => oneLine (list.trim_subset member)
    have blank : isBlankChar ' ' = true := by decide
    simp [arguments?, start, blank, inside]

theorem trim_command (nextLineOnly : Bool) (list : Text) :
    Text.trim (' ' :: (command nextLineOnly ++ ' ' :: list ++ [' '])) =
      command nextLineOnly ++ Text.trimEnd (' ' :: list) := by
  have other : (command nextLineOnly).isBlank = false := by cases nextLineOnly <;> decide
  have start : (command nextLineOnly).trimStart = command nextLineOnly := by
    cases nextLineOnly <;> decide
  have stop : (command nextLineOnly).trimEnd = command nextLineOnly := by
    cases nextLineOnly <;> decide
  have around : Text.trim ([' '] ++ (command nextLineOnly ++ ' ' :: list) ++ [' ']) =
      Text.trim (command nextLineOnly ++ ' ' :: list) :=
    Text.trim_append _ (by decide) (by decide)
  refine around.trans ?_
  rw [Text.trim, Text.trimStart_append, other, start, if_neg Bool.false_ne_true,
    Text.trimEnd_append, stop]
  split
  next blank =>
    have nothing : list.isBlank = true := by
      rw [Text.isBlank, List.all_cons, Bool.and_eq_true] at blank
      exact blank.2
    rw [trimEnd_cons, if_pos nothing, List.append_nil]
  · rfl

theorem ofComment?_command (nextLineOnly : Bool) (oneLine : '\n' ∉ list) (lastLine : Nat) :
    ofComment? (' ' :: (command nextLineOnly ++ ' ' :: list ++ [' '])) lastLine =
      some ⟨ruleIds list.trim, if nextLineOnly then some (lastLine + 1) else none⟩ := by
  rw [ofComment?, trim_command, command, List.append_assoc, dropLead?_append, Option.bind_some]
  cases nextLineOnly with
  | true => simp [dropLead?_append, arguments?_trimEnd oneLine]
  | false =>
    -- A blank comes after the words of a directive for the document, and no dash.
    have plain : dropLead? nextLineSuffix (Text.trimEnd (' ' :: list)) = none := by
      rw [trimEnd_cons]
      split <;> rfl
    simp [plain, arguments?_trimEnd oneLine]

/-- A list whose ids do not end a comment does not end the comment that it is written in. -/
theorem clear_of_words (nextLineOnly : Bool) (inside : ¬"-->".toList <:+: list) :
    ¬"-->".toList <:+: ' ' :: (command nextLineOnly ++ ' ' :: list ++ [' ']) := by
  intro within
  have shown : ' ' :: (command nextLineOnly ++ ' ' :: list ++ [' ']) =
      (' ' :: command nextLineOnly) ++ ' ' :: (list ++ ' ' :: []) := by simp
  rw [shown] at within
  rcases Text.isInfix_append_cons (by decide) within with first | rest
  · revert first
    cases nextLineOnly <;> decide
  · rcases Text.isInfix_append_cons (by decide) rest with own | last
    · exact inside own
    · revert last
      decide

end Comment

end Directive

namespace Document

open Directive (command comment comment_eq ruleIds)

/-- The directives of a source that is a comment with a directive. -/
theorem directives_comment (pairs : List Delimiters) (nextLineOnly : Bool) {list : Text}
    (oneLine : '\n' ∉ list) (inside : ¬"-->".toList <:+: list) :
    (parse pairs (comment nextLineOnly list)).directives =
      [⟨ruleIds list.trim, if nextLineOnly then some 2 else none⟩] := by
  let content : Text := ' ' :: (command nextLineOnly ++ ' ' :: list ++ [' '])
  let piece : Piece := .comment (Fragment.ofText pairs content ("-->".toList ++ [])) true
  let outline : Outline := .single piece .nil
  have shown : piece.render = "<!--".toList ++ (content ++ ("-->".toList ++ [])) := by
    simp [piece, Piece.render]
  have whole : Piece.renderAll [piece] = comment nextLineOnly list := by
    rw [Piece.renderAll_singleton, shown]
    simp [comment_eq, content]
  have reads : Piece.Reads pairs outline.pieces := by
    have clear := Directive.clear_of_words nextLineOnly inside
    refine ⟨?_, ?_, trivial⟩
    · rw [shown]
      exact List.cons_ne_nil _ _
    · change Piece.scan pairs (piece.render ++ []) = (piece, [])
      rw [List.append_nil, shown]
      exact Piece.scan_comment_of_clear clear []
  have nested : outline.Nested [] := ⟨trivial, trivial⟩
  -- There is no line feed in the comment, so it ends on the first line.
  have one : (comment nextLineOnly list).feeds = 0 := by
    have fixed : '\n' ∉ command nextLineOnly := by cases nextLineOnly <;> decide
    apply Text.feeds_of_notMem
    simp only [comment_eq, List.mem_append, List.mem_cons, not_or]
    exact ⟨⟨⟨by decide, fixed⟩, by decide, oneLine⟩, by decide⟩
  have read : piece.directive? ((Piece.renderAll ([] ++ [piece])).feeds + 1) =
      some ⟨ruleIds list.trim, if nextLineOnly then some 2 else none⟩ := by
    rw [List.nil_append, whole, one]
    exact Directive.ofComment?_command nextLineOnly oneLine 1
  have listed := directives_eq_reached nested reads
  rw [Outline.pieces_single, Outline.pieces_nil, whole] at listed
  rw [listed, Piece.reached, Piece.reached]
  simp only [List.filterMap_cons, List.filterMap_nil, read]

end Document

namespace Directive

/-- Whether the text lists ids on one line, none of which is the start of a reason or has the end of
a comment in it. -/
structure IsList (list : Text) : Prop where
  oneLine : '\n' ∉ list
  ids : ∀ id ∈ words list, id ≠ dashes ∧ ¬"-->".toList <:+: id

/-- Whether the text says something on one line, without the end of a comment. -/
structure IsReason (reason : Text) : Prop where
  oneLine : '\n' ∉ reason
  some : reason.isBlank = false
  inside : ¬"-->".toList <:+: reason

/-- Whether the comment with the reason turns off the same rules on the same lines as the comment
without it. -/
def IgnoresReason (pairs : List Delimiters) (nextLineOnly : Bool) (list reason : Text) : Prop :=
  ∀ ruleId line,
    isDisabled (Document.parse pairs (comment nextLineOnly (withReason list reason))).directives
        ruleId line =
      isDisabled (Document.parse pairs (comment nextLineOnly list)).directives ruleId line

section Ignored

variable {list reason : Text}

theorem IsList.clear (lists : IsList list) : dashes ∉ words list :=
  fun member => (lists.ids dashes member).1 rfl

theorem IsList.inside (lists : IsList list) : ¬"-->".toList <:+: list := by
  intro within
  have dash : separates '-' = false := by decide
  have bracket : separates '>' = false := by decide
  have whole : ∀ c ∈ "-->".toList, separates c = false := by simp [dash, bracket]
  obtain ⟨id, listed, part⟩ := exists_word_of_isInfix (by decide) whole within
  exact (lists.ids id listed).2 part

theorem oneLine_withReason (lists : IsList list) (explains : IsReason reason) :
    '\n' ∉ withReason list reason := by
  simp [withReason, lists.oneLine, explains.oneLine]

theorem inside_withReason (lists : IsList list) (explains : IsReason reason) :
    ¬"-->".toList <:+: withReason list reason := by
  intro within
  have shown : withReason list reason = list ++ ' ' :: (dashes ++ ' ' :: reason) := by
    simp [withReason, dashes]
  rw [shown] at within
  rcases Text.isInfix_append_cons (by decide) within with own | rest
  · exact lists.inside own
  · rcases Text.isInfix_append_cons (by decide) rest with between | last
    · revert between
      decide
    · exact explains.inside last

/-- Without a reason the listed rules are meant. -/
theorem ruleIds_trim (lists : IsList list) : ruleIds list.trim = meant (words list) := by
  have clear : dashes ∉ words list.trim := by
    rw [words_trim]
    exact lists.clear
  rw [ruleIds_eq, beforeReason_of_notMem clear, words_trim]

/-- With a reason after something the listed rules are meant. -/
theorem ruleIds_withReason (lists : IsList list) (explains : IsReason reason)
    (other : list.isBlank = false) :
    ruleIds (withReason list reason).trim = meant (words list) := by
  have trimmed : (withReason list reason).trim =
      list.trimStart ++ (" -- ".toList ++ reason.trimEnd) := by
    rw [Text.trim, withReason, Text.trimStart_append, other, if_neg Bool.false_ne_true,
      ← List.append_assoc, Text.trimEnd_append, explains.some, if_neg Bool.false_ne_true,
      List.append_assoc]
  have clear : dashes ∉ words list.trimStart := by
    rw [words_trimStart]
    exact lists.clear
  rw [ruleIds_eq, trimmed, beforeReason_append clear, words_trimStart]

/-- With a reason after nothing the words of the reason are meant. -/
theorem ruleIds_withReason_of_isBlank (explains : IsReason reason) (blank : list.isBlank = true) :
    ruleIds (withReason list reason).trim =
      dashes :: words (beforeReason (' ' :: reason.trimEnd)) := by
  have trimmed : (withReason list reason).trim = dashes ++ ' ' :: reason.trimEnd := by
    have start : (withReason list reason).trimStart = (dashes ++ [' ']) ++ reason := by
      rw [withReason, Text.trimStart_append, if_pos blank]
      rfl
    rw [Text.trim, start, Text.trimEnd_append, explains.some, if_neg Bool.false_ne_true]
    simp
  rw [ruleIds_eq, trimmed, words_beforeReason]
  rfl

/-- A directive for the next line is about the second line where its comment is on the first. -/
theorem isDisabled_singleton {rules : List Text} {nextLineOnly : Bool} {ruleId : String}
    {line : Nat} :
    isDisabled [⟨rules, if nextLineOnly then some 2 else none⟩] ruleId line = true ↔
      (ruleId.toList ∈ rules ∨ allRules ∈ rules) ∧ (nextLineOnly = true → line = 2) := by
  cases nextLineOnly <;> simp [isDisabled, covers, @eq_comm _ 2 line]

/-- A reason is ignored just where something comes before it, or where it names all rules itself;
and without ids and without a reason every rule is off. -/
theorem ignoresReason_iff (pairs : List Delimiters) (nextLineOnly : Bool) (lists : IsList list)
    (explains : IsReason reason) :
    (IgnoresReason pairs nextLineOnly list reason ↔
      list.isBlank = false ∨ allRules ∈ words (beforeReason (' ' :: reason.trimEnd))) ∧
    (words list = [] → ∀ ruleId line, (nextLineOnly = true → line = 2) →
      isDisabled (Document.parse pairs (comment nextLineOnly list)).directives ruleId line =
        true) := by
  have without := Document.directives_comment pairs nextLineOnly lists.oneLine lists.inside
  have reasoned := Document.directives_comment pairs nextLineOnly
    (oneLine_withReason lists explains) (inside_withReason lists explains)
  rw [ruleIds_trim lists] at without
  constructor
  · cases blank : list.isBlank with
    | false =>
      have same : IgnoresReason pairs nextLineOnly list reason := by
        intro ruleId line
        rw [without, reasoned, ruleIds_withReason lists explains blank]
      exact iff_of_true same (Or.inl rfl)
    | true =>
      -- Without the reason all rules are off, so with it they are only if one of its words says so.
      rw [ruleIds_withReason_of_isBlank explains blank] at reasoned
      rw [words_of_isBlank blank] at without
      have all : allRules ∈ meant [] := List.mem_singleton_self allRules
      have other : allRules ≠ dashes := by decide
      constructor
      · intro ignores
        have same := ignores (String.ofList allRules) 2
        rw [without, reasoned, Bool.eq_iff_iff, isDisabled_singleton, isDisabled_singleton] at same
        have named := (same.2 ⟨Or.inr all, fun _ => rfl⟩).1
        simpa [other] using named
      · intro named ruleId line
        have listed := List.mem_cons_of_mem dashes (named.resolve_left (by simp))
        rw [without, reasoned, Bool.eq_iff_iff, isDisabled_singleton, isDisabled_singleton]
        simp [listed, all]
  · intro none ruleId line meets
    rw [without, none, isDisabled_singleton]
    exact ⟨Or.inr (List.mem_singleton_self allRules), meets⟩

end Ignored

/-- Dashes in ids begin no reason, and neither do those that the reason has itself. -/
theorem ignoresReason_dashed :
    let list : Text := "a--, --b,\t---".toList
    let reason : Text := "-- see c -- all".toList
    IsList list ∧ IsReason reason ∧
      IgnoresReason [⟨['\x7b', '\x7b'], ['\x7d', '\x7d']⟩] true list reason := by
  intro list reason
  have lists : IsList list := ⟨by decide, by decide⟩
  have explains : IsReason reason := ⟨by decide, by decide, by decide⟩
  exact ⟨lists, explains, (ignoresReason_iff _ true lists explains).1.2 (Or.inl (by decide))⟩

/-- A reason after no ids keeps rules on that are off without it. -/
theorem reason_listed :
    let list : Text := []
    let reason : Text := "legacy".toList
    IsList list ∧ IsReason reason ∧
      ¬IgnoresReason [⟨['\x7b', '\x7b'], ['\x7d', '\x7d']⟩] false list reason := by
  intro list reason
  refine ⟨⟨by decide, by decide⟩, ⟨by decide, by decide, by decide⟩, fun ignores => ?_⟩
  have same := ignores "element-newline" 1
  revert same
  decide +kernel

end Directive
end TagLint
