import TagLint.Json.Read
import TagLint.Json.Write
import Mathlib.Data.List.Basic
import Mathlib.Data.List.TakeWhile

/-!
The lexemes of written JSON.

`cut` lists the lexemes of a value. Both layouts of a value whose numbers are numerals are cut
into these, before any text that does not go on with a number (`cuts_compact`, `cuts_indented`).
-/
namespace TagLint.Json

/-! ### Numbers -/

/-- A text before which a number ends. -/
def EndsNumber (t : Text) : Prop :=
  ∀ c ∈ t.head?, c.isDigit = false ∧ c ≠ '.' ∧ c ≠ 'e' ∧ c ≠ 'E'

theorem endsNumber_nil : EndsNumber [] := by
  simp [EndsNumber]

/-- A number ends before a separator, a closing bracket and a line break. -/
theorem endsNumber_cons {c : Char} (t : Text)
    (separates : c = ',' ∨ c = ']' ∨ c = '\x7d' ∨ c = '\n') : EndsNumber (c :: t) := by
  rcases separates with rfl | rfl | rfl | rfl <;> simp [EndsNumber]

/-- A text that is one number. -/
def IsNumeral (literal : Text) : Prop :=
  splitNumber? literal = some (literal, [])

section Numbers

variable {t rest : Text} {sides : Text × Text} (ends : EndsNumber rest)
include ends

theorem splitDigits_append :
    splitDigits (t ++ rest) = ((splitDigits t).1, (splitDigits t).2 ++ rest) := by
  induction t with
  | nil =>
    cases rest with
    | nil => rfl
    | cons c rest =>
      have other := (ends c (by simp)).1
      simp [splitDigits, other]
  | cons c t ih =>
    simp only [splitDigits, Prod.mk.injEq] at ih
    cases digit : c.isDigit <;> simp [splitDigits, digit, ih]

theorem splitInteger?_append (found : splitInteger? t = some sides) :
    splitInteger? (t ++ rest) = some (sides.1, sides.2 ++ rest) := by
  unfold splitInteger? at found
  split at found
  · cases found
    rfl
  next c t other =>
    split at found
    next digit =>
      cases found
      rw [splitInteger?.eq_def]
      split
      next same => exact absurd (List.cons.inj same).1 other
      next same =>
        obtain ⟨rfl, rfl⟩ := List.cons.inj same
        exact (if_pos digit).trans (congrArg some (splitDigits_append ends))
      next same => cases same
    · contradiction
  · contradiction

theorem splitFraction?_append (found : splitFraction? t = some sides) :
    splitFraction? (t ++ rest) = some (sides.1, sides.2 ++ rest) := by
  unfold splitFraction? at found
  split at found
  next t =>
    simp only [List.cons_append, splitFraction?, splitDigits_append ends]
    dsimp only at found
    split at found
    · contradiction
    next digits =>
      cases found
      simp [digits]
  next other =>
    cases found
    rw [splitFraction?.eq_def]
    split
    next after same =>
      cases t with
      | nil =>
        have := (ends '.' (by simp_all)).2.1
        contradiction
      | cons c t => exact absurd (by simp_all) (other t)
    · rfl

theorem splitExponent?_append (found : splitExponent? t = some sides) :
    splitExponent? (t ++ rest) = some (sides.1, sides.2 ++ rest) := by
  cases t with
  | nil =>
    cases found
    cases rest with
    | nil => rfl
    | cons c rest =>
      have other := (ends c (by simp)).2.2
      simp [splitExponent?, other]
  | cons c t =>
    simp only [splitExponent?, List.cons_append] at found ⊢
    split at found
    next power =>
      rw [if_pos power]
      -- The sign is looked for in what is left of the number, so there has to be something.
      cases t with
      | nil => simp [signOf, splitDigits] at found
      | cons d t =>
        have same : signOf (d :: t ++ rest) = signOf (d :: t) := rfl
        have short : (signOf (d :: t)).length ≤ (d :: t).length :=
          Nat.le_trans (List.length_filter_le _ _) (by simp)
        rw [same, List.drop_append_of_le_length short, splitDigits_append ends]
        split at found
        · contradiction
        next digits =>
          cases found
          rw [if_neg digits]
    next other =>
      cases found
      rw [if_neg other]
      rfl

/-- A number is split off in the same way before a text that does not go on with it. -/
theorem splitNumber?_append (found : splitNumber? t = some sides) :
    splitNumber? (t ++ rest) = some (sides.1, sides.2 ++ rest) := by
  obtain ⟨whole, integer, found⟩ := Option.bind_eq_some_iff.1 found
  obtain ⟨fraction, point, found⟩ := Option.bind_eq_some_iff.1 found
  obtain ⟨exponent, power, rfl⟩ := Option.map_eq_some_iff.1 found
  cases t with
  | nil => simp [splitInteger?] at integer
  | cons c t =>
    have same : (c :: t ++ rest).head? = (c :: t).head? := rfl
    have short : ((if (c :: t).head? == some '-' then ['-'] else []) : Text).length ≤
        (c :: t).length := by
      split <;> simp
    unfold splitNumber?
    simp only [same]
    rw [List.drop_append_of_le_length short, splitInteger?_append ends integer,
      Option.bind_some, splitFraction?_append ends point, Option.bind_some,
      splitExponent?_append ends power, Option.map_some]

end Numbers

/-- The digits of a positive number do not start with a zero. -/
theorem toDigits_head_ne {n : Nat} (positive : 0 < n) :
    ∀ c ∈ (Nat.toDigits 10 n).head?, c ≠ '0' := by
  induction n using Nat.strongRecOn with
  | ind n ih =>
    intro c head
    rcases Nat.lt_or_ge n 10 with small | large
    · rw [Nat.toDigits_of_lt_base small] at head
      cases head
      have all : ∀ k < 10, 0 < k → Nat.digitChar k ≠ '0' := by decide
      exact all n small positive
    · rw [Nat.toDigits_of_base_le (by omega) large,
        List.head?_append_of_ne_nil _ Nat.toDigits_ne_nil] at head
      exact ih (n / 10) (by omega) (by omega) c head

/-- Natural numbers are written as numerals. -/
theorem isNumeral_toDigits (n : Nat) : IsNumeral (Nat.toDigits 10 n) := by
  rcases Nat.eq_zero_or_pos n with rfl | positive
  · unfold IsNumeral
    decide
  have digits : ∀ c ∈ Nat.toDigits 10 n, c.isDigit = true := fun c member =>
    Nat.isDigit_of_mem_toDigits (by omega) (by omega) member
  have first := toDigits_head_ne positive
  revert first digits
  cases written : Nat.toDigits 10 n with
  | nil => exact absurd written Nat.toDigits_ne_nil
  | cons c t =>
    intro digits first
    have other : c ≠ '0' := first c rfl
    have digit : c.isDigit = true := digits c (by simp)
    -- There is no sign, and after the digits neither a point nor an exponent.
    have unsigned : c ≠ '-' := by
      rintro rfl
      exact absurd digit (by decide)
    have all : splitDigits (c :: t) = (c :: t, []) := by
      rw [splitDigits, List.takeWhile_eq_self_iff.2 digits, List.dropWhile_eq_nil_iff.2 digits]
    have whole : splitInteger? (c :: t) = some (c :: t, []) := by
      rw [splitInteger?.eq_def]
      split
      next same => exact absurd (List.cons.inj same).1 other
      next same =>
        obtain ⟨rfl, rfl⟩ := List.cons.inj same
        rw [if_pos digit, all]
      next same => cases same
    simp [IsNumeral, splitNumber?, unsigned, whole, splitFraction?, splitExponent?]

/-! ### Strings -/

/-- The digit of a value has that value. -/
theorem hexValue?_digitChar {n : Nat} (small : n < 16) :
    hexValue? (Nat.digitChar n) = some n := by
  have all : ∀ k < 16, hexValue? (Nat.digitChar k) = some k := by decide
  exact all n small

/-- Four hexadecimal digits are read as their number. -/
theorem readString_hexUnit (high : Option Nat) {n : Nat} (small : n < 0x10000) (t : Text) :
    readString (.unit high 4 0) (hexUnit n ++ t) =
      match unitChar? high n with
      | none => none
      | some (.inl d) => (readString .none t).map fun read => (d :: read.1, read.2)
      | some (.inr first) => readString (.paired first) t := by
  -- The digits make up the number again, and each is read as its value.
  have total : ((n >>> 12 % 16 * 16 + n >>> 8 % 16) * 16 + n >>> 4 % 16) * 16 + n % 16 = n := by
    simp only [Nat.shiftRight_eq_div_pow]
    omega
  have digit : ∀ k, hexValue? (Nat.digitChar (k % 16)) = some (k % 16) := fun k =>
    hexValue?_digitChar (Nat.mod_lt k (by omega))
  rcases found : unitChar? high n with _ | d | first <;>
    simp only [hexUnit, List.map_cons, List.map_nil, List.cons_append, List.nil_append, readString,
      digit, Nat.reduceLeDiff, ↓reduceIte, Nat.reduceSub, Nat.zero_mul, Nat.zero_add,
      Nat.shiftRight_zero, Nat.le_refl, total, found]

/-- Characters are no surrogates. -/
theorem toNat_lt_or (c : Char) : c.toNat < 0xD800 ∨ 0xDFFF < c.toNat ∧ c.toNat < 0x110000 :=
  c.valid

/-- The unit of a character that takes one is read as the character. -/
theorem readString_unitEscape {c : Char} (single : c.toNat < 0x10000) (t : Text) :
    readString .none (unitEscape c.toNat ++ t) =
      (readString .none t).map fun read => (c :: read.1, read.2) := by
  have opened : readString .none (unitEscape c.toNat ++ t) =
      readString (.unit none 4 0) (hexUnit c.toNat ++ t) := rfl
  have unit : unitChar? none c.toNat = some (.inl c) := by
    have valid := toNat_lt_or c
    have notLow : ¬(0xDC00 ≤ c.toNat ∧ c.toNat < 0xE000) := by omega
    have notHigh : ¬(0xD800 ≤ c.toNat ∧ c.toNat < 0xDC00) := by omega
    simp [unitChar?, notLow, notHigh]
  rw [opened, readString_hexUnit none single, unit]

/-- Two units that make a pair are read as the character of the pair. -/
theorem readString_pair {high low : Nat} {c : Char}
    (first : unitChar? none high = some (.inr high))
    (second : unitChar? (some high) low = some (.inl c))
    (highSmall : high < 0x10000) (lowSmall : low < 0x10000) (t : Text) :
    readString .none (unitEscape high ++ (unitEscape low ++ t)) =
      (readString .none t).map fun read => (c :: read.1, read.2) := by
  have opened : readString .none (unitEscape high ++ (unitEscape low ++ t)) =
      readString (.unit none 4 0) (hexUnit high ++ (unitEscape low ++ t)) := rfl
  have paired : readString (.paired high) (unitEscape low ++ t) =
      readString (.unit (some high) 4 0) (hexUnit low ++ t) := rfl
  rw [opened, readString_hexUnit none highSmall, first]
  dsimp only
  rw [paired, readString_hexUnit (some high) lowSmall, second]

/-- The two units of a character that takes a pair. -/
theorem unitChar?_pair {c : Char} (double : 0x10000 ≤ c.toNat) :
    unitChar? none (0xD800 + (c.toNat - 0x10000) / 0x400) =
        some (.inr (0xD800 + (c.toNat - 0x10000) / 0x400)) ∧
      unitChar? (some (0xD800 + (c.toNat - 0x10000) / 0x400))
        (0xDC00 + (c.toNat - 0x10000) % 0x400) = some (.inl c) := by
  have valid := toNat_lt_or c
  generalize first : 0xD800 + (c.toNat - 0x10000) / 0x400 = high
  generalize second : 0xDC00 + (c.toNat - 0x10000) % 0x400 = low
  -- The first unit is in the range of first units, the second one in that of second units.
  have highRange : 0xD800 ≤ high ∧ high < 0xDC00 := by omega
  have lowRange : 0xDC00 ≤ low ∧ low < 0xE000 := by omega
  have joined : 0x10000 + (high - 0xD800) * 0x400 + (low - 0xDC00) = c.toNat := by omega
  have notLow : ¬(0xDC00 ≤ high ∧ high < 0xE000) := by omega
  constructor
  · simp [unitChar?, notLow, highRange]
  · simp [unitChar?, lowRange, joined]

/-- A character above the tilde is read as itself, whatever units it takes. -/
theorem readString_asciiChar (c : Char) (t : Text) :
    readString .none (asciiChar c ++ t) =
      (readString .none t).map fun read => (c :: read.1, read.2) := by
  unfold asciiChar
  split
  next single => exact readString_unitEscape single t
  next double =>
    rw [List.append_assoc]
    obtain ⟨first, second⟩ := unitChar?_pair (c := c) (by omega)
    have valid := toNat_lt_or c
    exact readString_pair first second (by omega) (by omega) t

/-- A character that stands for itself in a string is read as itself. -/
theorem readString_plain {c : Char} (quote : c ≠ '"') (backslash : c ≠ '\\')
    (visible : ¬c.toNat < 0x20) (t : Text) :
    readString .none (c :: t) = (readString .none t).map fun read => (c :: read.1, read.2) := by
  simp [readString, quote, backslash, visible]

/-- A character inside a string is read as itself. -/
theorem readString_stringChar (charset : Charset) (c : Char) (t : Text) :
    readString .none (stringChar charset c ++ t) =
      (readString .none t).map fun read => (c :: read.1, read.2) := by
  unfold stringChar
  split
  case h_8 quote backslash _ _ _ _ _ =>
    split
    next control => exact readString_unitEscape (by omega) t
    next visible =>
      split
      · exact readString_asciiChar c t
      · exact readString_plain quote backslash visible t
  all_goals rfl

/-- The characters of a string are read up to the closing quote. -/
theorem readString_flatMap (charset : Charset) (s rest : Text) :
    readString .none (s.flatMap (stringChar charset) ++ '"' :: rest) = some (s, rest) := by
  induction s with
  | nil => rfl
  | cons c s ih =>
    rw [List.flatMap_cons, List.append_assoc, readString_stringChar, ih, Option.map_some]

/-! ### Lexemes -/

/-- The text is cut into these lexemes, whatever comes after it. -/
def Cuts (t : Text) (lexemes : List Lexeme) : Prop :=
  ∀ rest, EndsNumber rest → lexemes? (t ++ rest) = (lexemes? rest).map (lexemes ++ ·)

/-- Lexemes of one text after those of another one. -/
theorem Cuts.append {s t : Text} {first second : List Lexeme} (before : Cuts s first)
    (after : Cuts t second) (ends : ∀ rest, EndsNumber rest → EndsNumber (t ++ rest)) :
    Cuts (s ++ t) (first ++ second) := by
  intro rest ended
  rw [List.append_assoc, before _ (ends rest ended), after rest ended, Option.map_map]
  simp [Function.comp_def, List.append_assoc]

theorem cuts_nil : Cuts [] [] := by
  intro rest _
  simp

theorem Cuts.space {c : Char} {t : Text} {lexemes : List Lexeme} (space : isSpace c = true)
    (cuts : Cuts t lexemes) : Cuts (c :: t) lexemes := by
  intro rest ended
  rw [List.cons_append, lexemes?, if_pos space, cuts rest ended]

theorem Cuts.punctuation {c : Char} {t : Text} {lexeme : Lexeme} {lexemes : List Lexeme}
    (mark : punctuation? c = some lexeme) (cuts : Cuts t lexemes) :
    Cuts (c :: t) (lexeme :: lexemes) := by
  intro rest ended
  have visible : ¬isSpace c = true := by
    intro space
    simp only [isSpace, Bool.or_eq_true, beq_iff_eq] at space
    rcases space with ((rfl | rfl) | rfl) | rfl <;> simp [punctuation?] at mark
  rw [List.cons_append, lexemes?, if_neg visible]
  simp only [mark]
  rw [cuts rest ended, Option.map_map]
  rfl

theorem cuts_scalar {c : Char} {t : Text} {value : Json} (visible : isSpace c = false)
    (unmarked : punctuation? c = none)
    (read : ∀ rest, EndsNumber rest → readScalar? c (t ++ rest) = some (value, rest)) :
    Cuts (c :: t) [.scalar value] := by
  intro rest ended
  rw [List.cons_append, lexemes?, visible, unmarked]
  simp only [Bool.false_eq_true, if_false]
  split
  next missing => simp [read rest ended] at missing
  next found =>
    rw [read rest ended] at found
    cases found
    rfl

/-- A string is one lexeme. -/
theorem cuts_stringText (charset : Charset) (s : String) :
    Cuts (stringText charset s) [.scalar (string s)] := by
  refine cuts_scalar (by decide) (by decide) fun rest _ => ?_
  simp [readScalar?, readString_flatMap]

/-- A numeral starts with a sign or a digit. -/
theorem IsNumeral.head {c : Char} {t : Text} (numeral : IsNumeral (c :: t)) :
    c = '-' ∨ c.isDigit = true := by
  by_cases minus : c = '-'
  · exact .inl minus
  right
  obtain ⟨whole, integer, -⟩ := Option.bind_eq_some_iff.1 numeral
  simp only [List.head?_cons, beq_iff_eq, Option.some.injEq, minus, if_false, List.length_nil,
    List.drop_zero] at integer
  unfold splitInteger? at integer
  split at integer
  next same =>
    rw [(List.cons.inj same).1]
    decide
  next same =>
    split at integer
    next digit =>
      rw [(List.cons.inj same).1]
      exact digit
    · contradiction
  next same => cases same

/-- What starts a numeral is neither a space nor a mark. -/
theorem scalar_head {c : Char} (starts : c = '-' ∨ c.isDigit = true) :
    isSpace c = false ∧ punctuation? c = none ∧ c ≠ '"' := by
  refine ⟨?_, ?_, ?_⟩
  · by_contra space
    simp only [isSpace, Bool.not_eq_false, Bool.or_eq_true, beq_iff_eq] at space
    rcases space with ((rfl | rfl) | rfl) | rfl <;> revert starts <;> decide
  · unfold punctuation?
    split <;> first | rfl | (revert starts; decide)
  · rintro rfl
    revert starts
    decide

/-- A numeral is one lexeme. -/
theorem cuts_numeral {literal : Text} (numeral : IsNumeral literal) :
    Cuts literal [.scalar (number literal)] := by
  cases literal with
  | nil => simp [IsNumeral, splitNumber?, splitInteger?] at numeral
  | cons c t =>
    have starts := numeral.head
    obtain ⟨visible, unmarked, quote⟩ := scalar_head starts
    refine cuts_scalar visible unmarked fun rest ended => ?_
    have split := splitNumber?_append ended numeral
    simpa [readScalar?, quote, starts] using split

/-- The word for nothing is one lexeme. -/
theorem cuts_null : Cuts "null".toList [.scalar null] :=
  cuts_scalar (by decide) (by decide) fun _ _ => rfl

/-- The word for yes is one lexeme. -/
theorem cuts_true : Cuts "true".toList [.scalar (bool true)] :=
  cuts_scalar (by decide) (by decide) fun _ _ => rfl

/-- The word for no is one lexeme. -/
theorem cuts_false : Cuts "false".toList [.scalar (bool false)] :=
  cuts_scalar (by decide) (by decide) fun _ _ => rfl

/-- A line break and its indentation are passed over. -/
theorem Cuts.newline {t : Text} {lexemes : List Lexeme} (depth : Nat) (cuts : Cuts t lexemes) :
    Cuts (newline depth ++ t) lexemes := by
  have spaces : ∀ n, Cuts (List.replicate n ' ' ++ t) lexemes := by
    intro n
    induction n with
    | zero => exact cuts
    | succ n ih => exact ih.space (by decide)
  exact (spaces (2 * depth)).space (by decide)

/-! ### Values -/

/-- Pieces of text with commas between them. -/
def joined (isFirst : Bool) : List Text → Text
  | [] => []
  | piece :: pieces => (if isFirst then [] else [',']) ++ piece ++ joined false pieces

/-- Runs of lexemes with commas between them. -/
def separated (isFirst : Bool) : List (List Lexeme) → List Lexeme
  | [] => []
  | run :: runs => (if isFirst then [] else [.comma]) ++ run ++ separated false runs

/-- A number ends before the next piece as it does before the end of the container. -/
theorem endsNumber_joined (pieces : List Text) {rest : Text} (ends : EndsNumber rest) :
    EndsNumber (joined false pieces ++ rest) := by
  cases pieces with
  | nil => exact ends
  | cons piece pieces => exact endsNumber_cons _ (.inl rfl)

/-- Pieces are cut one by one, in any layout that cuts each of them. -/
theorem cuts_joined {α : Type} {text : α → Text} {lexemes : α → List Lexeme} {parts : List α}
    (each : ∀ part ∈ parts, Cuts (text part) (lexemes part)) (isFirst : Bool) :
    Cuts (joined isFirst (parts.map text)) (separated isFirst (parts.map lexemes)) := by
  induction parts generalizing isFirst with
  | nil => exact cuts_nil
  | cons part parts ih =>
    obtain ⟨own, others⟩ := List.forall_mem_cons.1 each
    have piece := own.append (ih others false) fun _ ended => endsNumber_joined _ ended
    cases isFirst with
    | true => exact piece
    | false => exact piece.punctuation rfl

mutual

/-- The lexemes of a value. -/
def cut : Json → List Lexeme
  | array items => .leftBracket :: cutItems true items ++ [.rightBracket]
  | object members => .leftBrace :: cutMembers true members ++ [.rightBrace]
  | scalar => [.scalar scalar]

/-- The lexemes of items with commas between them. -/
def cutItems (isFirst : Bool) : List Json → List Lexeme
  | [] => []
  | item :: items => (if isFirst then [] else [.comma]) ++ cut item ++ cutItems false items

/-- The lexemes of members with commas between them. -/
def cutMembers (isFirst : Bool) : List (String × Json) → List Lexeme
  | [] => []
  | (key, value) :: members =>
    (if isFirst then [] else [.comma]) ++ .scalar (string key) :: .colon :: cut value ++
      cutMembers false members

end

/-- The lexemes of a member. -/
def cutMember (member : String × Json) : List Lexeme :=
  .scalar (string member.1) :: .colon :: cut member.2

/-- A value that can be written and read again, in at most `depth` containers around each other:
its numbers are numerals. -/
inductive IsWritable : Nat → Json → Prop where
  | null {depth : Nat} : IsWritable depth null
  | bool {depth : Nat} (value : Bool) : IsWritable depth (bool value)
  | number {depth : Nat} {literal : Text} (numeral : IsNumeral literal) :
    IsWritable depth (number literal)
  | string {depth : Nat} (value : String) : IsWritable depth (string value)
  | array {depth : Nat} {items : List Json} (each : ∀ item ∈ items, IsWritable depth item) :
    IsWritable (depth + 1) (array items)
  | object {depth : Nat} {members : List (String × Json)}
    (each : ∀ member ∈ members, IsWritable depth member.2) :
    IsWritable (depth + 1) (object members)

theorem cutItems_eq (isFirst : Bool) (items : List Json) :
    cutItems isFirst items = separated isFirst (items.map cut) := by
  induction items generalizing isFirst with
  | nil => rfl
  | cons item items ih => simp [cutItems, separated, ih]

theorem cutMembers_eq (isFirst : Bool) (members : List (String × Json)) :
    cutMembers isFirst members = separated isFirst (members.map cutMember) := by
  induction members generalizing isFirst with
  | nil => rfl
  | cons member members ih => simp [cutMembers, separated, cutMember, ih]

theorem compactItems_eq (charset : Charset) (isFirst : Bool) (items : List Json) :
    compactItems charset isFirst items = joined isFirst (items.map (compact charset)) := by
  induction items generalizing isFirst with
  | nil => rfl
  | cons item items ih => simp [compactItems, joined, ih]

theorem compactMembers_eq (charset : Charset) (isFirst : Bool)
    (members : List (String × Json)) :
    compactMembers charset isFirst members =
      joined isFirst (members.map fun member =>
        stringText charset member.1 ++ ':' :: compact charset member.2) := by
  induction members generalizing isFirst with
  | nil => rfl
  | cons member members ih => simp [compactMembers, joined, ih]

theorem indentedItems_eq (depth : Nat) (isFirst : Bool) (items : List Json) :
    indentedItems depth isFirst items =
      joined isFirst (items.map fun item => newline depth ++ indented depth item) := by
  induction items generalizing isFirst with
  | nil => rfl
  | cons item items ih => simp [indentedItems, joined, ih]

theorem indentedMembers_eq (depth : Nat) (isFirst : Bool) (members : List (String × Json)) :
    indentedMembers depth isFirst members =
      joined isFirst (members.map fun member => newline depth ++
        (stringText .unicode member.1 ++ ':' :: ' ' :: indented depth member.2)) := by
  induction members generalizing isFirst with
  | nil => rfl
  | cons member members ih => simp [indentedMembers, joined, ih]

/-- Items are cut in any layout that cuts each of them. -/
theorem cuts_items {items : List Json} {text : Json → Text}
    (each : ∀ item ∈ items, Cuts (text item) (cut item)) (isFirst : Bool) :
    Cuts (joined isFirst (items.map text)) (cutItems isFirst items) :=
  cutItems_eq isFirst items ▸ cuts_joined each isFirst

/-- Members are cut in any layout that cuts each of them. -/
theorem cuts_members {members : List (String × Json)} {text : String × Json → Text}
    (each : ∀ member ∈ members, Cuts (text member) (cutMember member)) (isFirst : Bool) :
    Cuts (joined isFirst (members.map text)) (cutMembers isFirst members) :=
  cutMembers_eq isFirst members ▸ cuts_joined each isFirst

/-- What is between brackets is cut up to the closing one. -/
theorem Cuts.closed {t : Text} {lexemes : List Lexeme} (cuts : Cuts t lexemes) {last : Char}
    {closing : Lexeme} (bracket : last = ']' ∨ last = '\x7d')
    (closes : punctuation? last = some closing) : Cuts (t ++ [last]) (lexemes ++ [closing]) := by
  refine cuts.append (cuts_nil.punctuation closes) fun rest _ => endsNumber_cons rest ?_
  rcases bracket with rfl | rfl <;> simp

/-- The compact layout is cut into the lexemes of the value. -/
theorem cuts_compact (charset : Charset) {depth : Nat} {value : Json}
    (writable : IsWritable depth value) : Cuts (compact charset value) (cut value) := by
  induction writable with
  | null => exact cuts_null
  | bool value =>
    cases value with
    | true => exact cuts_true
    | false => exact cuts_false
  | number numeral => exact cuts_numeral numeral
  | string value => exact cuts_stringText charset value
  | array _ ih =>
    rw [compact, compactItems_eq]
    exact ((cuts_items ih true).closed (.inl rfl) rfl).punctuation rfl
  | object _ ih =>
    rw [compact, compactMembers_eq]
    refine ((cuts_members (fun member inside => ?_) true).closed (.inr rfl) rfl).punctuation rfl
    exact (cuts_stringText charset member.1).append ((ih member inside).punctuation rfl)
      fun _ _ => by simp [EndsNumber]

/-- The indented layout is cut into the same lexemes. -/
theorem cuts_indented {depth : Nat} {value : Json} (writable : IsWritable depth value)
    (steps : Nat) : Cuts (indented steps value) (cut value) := by
  induction writable generalizing steps with
  | null => exact cuts_null
  | bool value =>
    cases value with
    | true => exact cuts_true
    | false => exact cuts_false
  | number numeral => exact cuts_numeral numeral
  | string value => exact cuts_stringText .unicode value
  | @array _ items _ ih =>
    cases items with
    | nil =>
      -- An empty container stays on one line.
      exact (cuts_nil.punctuation rfl).punctuation rfl
    | cons item items =>
      rw [indented, indentedItems_eq, List.append_assoc]
      refine Cuts.punctuation rfl ((cuts_items (fun item inside => ?_) true).append ?_ ?_)
      · exact (ih item inside (steps + 1)).newline (steps + 1)
      · exact (cuts_nil.punctuation rfl).newline steps
      · exact fun _ _ => endsNumber_cons _ (by simp)
  | @object _ members _ ih =>
    cases members with
    | nil => exact (cuts_nil.punctuation rfl).punctuation rfl
    | cons member members =>
      rw [indented, indentedMembers_eq, List.append_assoc]
      refine Cuts.punctuation rfl ((cuts_members (fun member inside => ?_) true).append ?_ ?_)
      · have value := (ih member inside (steps + 1)).space (c := ' ') rfl
        refine Cuts.newline (steps + 1) ((cuts_stringText .unicode member.1).append
          (value.punctuation rfl) fun _ _ => by simp [EndsNumber])
      · exact (cuts_nil.punctuation rfl).newline steps
      · exact fun _ _ => endsNumber_cons _ (by simp)

end TagLint.Json
