import TagLint.Json.Basic
import TagLint.Text.Letter

/-!
Reading JSON.

A text is first cut into lexemes, which are then read by a machine with a stack of open
containers. The machine refuses at the first lexeme that no value can continue with, and a text
that nests containers too deeply.
-/
namespace TagLint.Json

/-- The smallest units of JSON text. -/
inductive Lexeme where
  | leftBrace
  | rightBrace
  | leftBracket
  | rightBracket
  | comma
  | colon
  /-- A value that is not a container. -/
  | scalar (value : Json)

/-- White space between lexemes. -/
def isSpace (c : Char) : Bool :=
  c == ' ' || c == '\t' || c == '\n' || c == '\r'

/-- How far an escape inside a string has been read. -/
inductive Escape where
  | none
  /-- After the backslash. -/
  | started
  /-- Inside a UTF-16 unit, with the digits still missing; `high` is the unit before it, if that
  was the first of a pair. -/
  | unit (high : Option Nat) (missing value : Nat)
  /-- After the first unit of a pair. -/
  | paired (high : Nat)
  /-- After the first unit of a pair and a backslash. -/
  | pairStarted (high : Nat)

/-- The character of a one-letter escape. -/
def escapedChar? : Char → Option Char
  | '"' => some '"'
  | '\\' => some '\\'
  | '/' => some '/'
  | 'b' => some '\x08'
  | 'f' => some '\x0c'
  | 'n' => some '\n'
  | 'r' => some '\r'
  | 't' => some '\t'
  | _ => none

/-- What a UTF-16 unit gives, read after `high` if that was the first unit of a pair: a character,
or the first unit of a pair. -/
def unitChar? (high : Option Nat) (unit : Nat) : Option (Char ⊕ Nat) :=
  match high with
  | some first =>
    if 0xDC00 ≤ unit && unit < 0xE000 then
      some (.inl (Char.ofNat (0x10000 + (first - 0xD800) * 0x400 + (unit - 0xDC00))))
    else none
  | none =>
    if 0xDC00 ≤ unit && unit < 0xE000 then none
    else if 0xD800 ≤ unit && unit < 0xDC00 then some (.inr unit)
    else some (.inl (Char.ofNat unit))

def readString : Escape → Text → Option (Text × Text)
  | _, [] => none
  | .none, c :: t =>
    if c == '"' then some ([], t)
    else if c == '\\' then readString .started t
    else if c.toNat < 0x20 then none
    else (readString .none t).map fun read => (c :: read.1, read.2)
  | .started, c :: t =>
    if c == 'u' then readString (.unit none 4 0) t
    else match escapedChar? c with
      | some d => (readString .none t).map fun read => (d :: read.1, read.2)
      | none => none
  | .unit high missing value, c :: t =>
    match hexValue? c with
    | none => none
    | some digit =>
      let unit := value * 16 + digit
      if missing ≤ 1 then
        match unitChar? high unit with
        | none => none
        | some (.inl d) => (readString .none t).map fun read => (d :: read.1, read.2)
        | some (.inr first) => readString (.paired first) t
      else readString (.unit high (missing - 1) unit) t
  | .paired high, c :: t => if c == '\\' then readString (.pairStarted high) t else none
  | .pairStarted high, c :: t => if c == 'u' then readString (.unit (some high) 4 0) t else none

/-- A string ends after its opening quote, so what follows it is shorter. -/
theorem readString_rest_lt {escape : Escape} {t text rest : Text}
    (found : readString escape t = some (text, rest)) : rest.length < t.length := by
  -- In every state a character is read and the rest is read on, with or without one more in front.
  induction t generalizing escape text with
  | nil => cases escape <;> simp [readString] at found
  | cons c t ih =>
    simp only [List.length_cons]
    have mapped : ∀ {d : Char} {inner : Escape},
        (readString inner t).map (fun read => (d :: read.1, read.2)) = some (text, rest) →
          rest.length < t.length + 1 := by
      intro d inner same
      obtain ⟨⟨tail, after⟩, read, same⟩ := Option.map_eq_some_iff.1 same
      simp only [Prod.mk.injEq] at same
      obtain ⟨_, rfl⟩ := same
      exact Nat.lt_succ_of_lt (ih read)
    have direct : ∀ {inner : Escape}, readString inner t = some (text, rest) →
        rest.length < t.length + 1 := fun read => Nat.lt_succ_of_lt (ih read)
    cases escape with
    | none =>
      simp only [readString] at found
      split at found
      · simp only [Option.some.injEq, Prod.mk.injEq] at found
        rw [found.2]
        exact Nat.lt_succ_self _
      · split at found
        · exact direct found
        · split at found
          · contradiction
          · exact mapped found
    | started =>
      simp only [readString] at found
      split at found
      · exact direct found
      · split at found
        · exact mapped found
        · contradiction
    | unit high missing value =>
      simp only [readString] at found
      split at found
      · contradiction
      · split at found
        · split at found
          · contradiction
          · exact mapped found
          · exact direct found
        · exact direct found
    | paired high =>
      simp only [readString] at found
      split at found
      · exact direct found
      · contradiction
    | pairStarted high =>
      simp only [readString] at found
      split at found
      · exact direct found
      · contradiction

def splitDigits (t : Text) : Text × Text :=
  (t.takeWhile Char.isDigit, t.dropWhile Char.isDigit)

/-- Splits off the integer part of a number: a zero, or digits that start with another one. -/
def splitInteger? (t : Text) : Option (Text × Text) :=
  match t with
  | '0' :: r => some (['0'], r)
  | c :: _ => if c.isDigit then some (splitDigits t) else none
  | [] => none

def splitFraction? (t : Text) : Option (Text × Text) :=
  match t with
  | '.' :: r =>
    let sides := splitDigits r
    if sides.1.isEmpty then none else some ('.' :: sides.1, sides.2)
  | _ => some ([], t)

def signOf (t : Text) : Text :=
  (t.take 1).filter fun c => c == '+' || c == '-'

def splitExponent? (t : Text) : Option (Text × Text) :=
  match t with
  | c :: r =>
    if c == 'e' || c == 'E' then
      let sides := splitDigits (r.drop (signOf r).length)
      if sides.1.isEmpty then none else some (c :: signOf r ++ sides.1, sides.2)
    else some ([], t)
  | [] => some ([], [])

def splitNumber? (t : Text) : Option (Text × Text) :=
  let sign := if t.head? == some '-' then ['-'] else []
  (splitInteger? (t.drop sign.length)).bind fun whole =>
    (splitFraction? whole.2).bind fun fraction =>
      (splitExponent? fraction.2).map fun exponent =>
        (sign ++ whole.1 ++ fraction.1 ++ exponent.1, exponent.2)

def wordValue? (t : Text) : Option (Json × Text) :=
  if "true".toList.isPrefixOf t then some (bool true, t.drop 4)
  else if "false".toList.isPrefixOf t then some (bool false, t.drop 5)
  else if "null".toList.isPrefixOf t then some (null, t.drop 4)
  else none

def readScalar? (c : Char) (t : Text) : Option (Json × Text) :=
  if c == '"' then (readString .none t).map fun read => (string (String.ofList read.1), read.2)
  else if c == '-' || c.isDigit then
    (splitNumber? (c :: t)).map fun sides => (number sides.1, sides.2)
  else wordValue? (c :: t)

/-- The digits at the front leave no more than there was. -/
theorem splitDigits_rest_le (t : Text) : (splitDigits t).2.length ≤ t.length :=
  (List.dropWhile_sublist Char.isDigit).length_le

/-- A whole number has at least one digit. -/
theorem splitInteger?_rest_lt {t : Text} {sides : Text × Text}
    (found : splitInteger? t = some sides) : sides.2.length < t.length := by
  unfold splitInteger? at found
  split at found
  · cases found
    simp
  next c r _ =>
    split at found
    next digit =>
      cases found
      have := splitDigits_rest_le r
      simp only [splitDigits] at this ⊢
      simp only [List.dropWhile_cons, digit, ↓reduceIte, List.length_cons]
      omega
    · contradiction
  · contradiction

/-- A fraction leaves no more than there was. -/
theorem splitFraction?_rest_le {t : Text} {sides : Text × Text}
    (found : splitFraction? t = some sides) : sides.2.length ≤ t.length := by
  unfold splitFraction? at found
  split at found
  next r =>
    dsimp only at found
    split at found
    · contradiction
    · cases found
      exact Nat.le_succ_of_le (splitDigits_rest_le r)
  · cases found
    exact Nat.le_refl _

/-- An exponent leaves no more than there was. -/
theorem splitExponent?_rest_le {t : Text} {sides : Text × Text}
    (found : splitExponent? t = some sides) : sides.2.length ≤ t.length := by
  unfold splitExponent? at found
  split at found
  next c r =>
    split at found
    · dsimp only at found
      split at found
      · contradiction
      · cases found
        refine Nat.le_trans (splitDigits_rest_le _) ?_
        simp only [List.length_drop, List.length_cons]
        omega
    · cases found
      exact Nat.le_refl _
  · cases found
    exact Nat.le_refl _

/-- A number has at least one digit. -/
theorem splitNumber?_rest_lt {t : Text} {sides : Text × Text}
    (found : splitNumber? t = some sides) : sides.2.length < t.length := by
  obtain ⟨whole, integer, found⟩ := Option.bind_eq_some_iff.1 found
  obtain ⟨fraction, point, found⟩ := Option.bind_eq_some_iff.1 found
  obtain ⟨exponent, power, rfl⟩ := Option.map_eq_some_iff.1 found
  have := splitInteger?_rest_lt integer
  have := splitFraction?_rest_le point
  have := splitExponent?_rest_le power
  simp only [List.length_drop] at *
  omega

/-- A scalar has at least one character. -/
theorem readScalar?_rest_lt {c : Char} {t rest : Text} {value : Json}
    (found : readScalar? c t = some (value, rest)) : rest.length < (c :: t).length := by
  unfold readScalar? at found
  split at found
  · obtain ⟨⟨text, after⟩, read, same⟩ := Option.map_eq_some_iff.1 found
    cases same
    exact Nat.lt_succ_of_lt (readString_rest_lt read)
  · split at found
    · obtain ⟨sides, read, same⟩ := Option.map_eq_some_iff.1 found
      cases same
      exact splitNumber?_rest_lt read
    · unfold wordValue? at found
      have shorter : ∀ n : Nat, ((c :: t).drop (n + 1)).length < (c :: t).length := by
        intro n
        simp only [List.length_drop, List.length_cons]
        omega
      split at found
      · cases found
        exact shorter 3
      · split at found
        · cases found
          exact shorter 4
        · split at found
          · cases found
            exact shorter 3
          · contradiction

def punctuation? : Char → Option Lexeme
  | '\x7b' => some .leftBrace
  | '\x7d' => some .rightBrace
  | '[' => some .leftBracket
  | ']' => some .rightBracket
  | ',' => some .comma
  | ':' => some .colon
  | _ => none

/-- Cuts a text into lexemes. -/
def lexemes? : Text → Option (List Lexeme)
  | [] => some []
  | c :: t =>
    if isSpace c then lexemes? t
    else match punctuation? c with
      | some lexeme => (lexemes? t).map (lexeme :: ·)
      | none =>
        match _found : readScalar? c t with
        | none => none
        | some (value, rest) => (lexemes? rest).map (.scalar value :: ·)
termination_by t => t.length
decreasing_by
  · simp
  · simp
  · exact readScalar?_rest_lt (by assumption)

/-- An open container with what is finished in it, the last first. -/
inductive Container where
  | array (items : List Json)
  | object (members : List (String × Json)) (key : String)

/-- What the reader expects next. -/
inductive Stage where
  | value
  | firstItem
  | firstKey
  | key
  | colon (key : String)
  /-- What comes after an item or a member: a comma or the end of the container. -/
  | afterValue
  | done (value : Json)

/-- The reader between two lexemes; the innermost container comes first. An object whose next key
is not read yet holds an empty one. -/
structure Reader where
  containers : List Container
  stage : Stage

namespace Reader

/-- The deepest nesting of containers that is read. -/
def maxDepth : Nat := 127

def finish (containers : List Container) (value : Json) : Reader :=
  match containers with
  | [] => ⟨[], .done value⟩
  | .array items :: outer => ⟨.array (value :: items) :: outer, .afterValue⟩
  | .object members key :: outer => ⟨.object ((key, value) :: members) "" :: outer, .afterValue⟩

def startValue (containers : List Container) : Lexeme → Option Reader
  | .scalar value => some (finish containers value)
  | .leftBracket =>
    if containers.length < maxDepth then some ⟨.array [] :: containers, .firstItem⟩ else none
  | .leftBrace =>
    if containers.length < maxDepth then some ⟨.object [] "" :: containers, .firstKey⟩ else none
  | _ => none

def startKey (containers : List Container) : Lexeme → Option Reader
  | .scalar (.string key) => some ⟨containers, .colon key⟩
  | _ => none

def closeContainer (containers : List Container) (lexeme : Lexeme) : Option Reader :=
  match containers, lexeme with
  | .array items :: outer, .rightBracket => some (finish outer (.array items.reverse))
  | .object members _ :: outer, .rightBrace => some (finish outer (.object members.reverse))
  | _, _ => none

def step (reader : Reader) (lexeme : Lexeme) : Option Reader :=
  match reader.stage with
  | .value => startValue reader.containers lexeme
  | .firstItem =>
    match lexeme with
    | .rightBracket => closeContainer reader.containers lexeme
    | _ => startValue reader.containers lexeme
  | .firstKey =>
    match lexeme with
    | .rightBrace => closeContainer reader.containers lexeme
    | _ => startKey reader.containers lexeme
  | .key => startKey reader.containers lexeme
  | .colon key =>
    match reader.containers, lexeme with
    | .object members _ :: outer, .colon => some ⟨.object members key :: outer, .value⟩
    | _, _ => none
  | .afterValue =>
    match reader.containers, lexeme with
    | .array items :: outer, .comma => some ⟨.array items :: outer, .value⟩
    | .object members key :: outer, .comma => some ⟨.object members key :: outer, .key⟩
    | _, _ => closeContainer reader.containers lexeme
  | .done _ => none

def run (reader : Reader) : List Lexeme → Option Reader
  | [] => some reader
  | lexeme :: others => (reader.step lexeme).bind fun next => next.run others

end Reader

/-- The value that a text is written for, if it is JSON. -/
def read? (t : Text) : Option Json :=
  (lexemes? t).bind fun lexemes =>
    match Reader.run ⟨[], .value⟩ lexemes with
    | some ⟨_, .done value⟩ => some value
    | _ => none

end TagLint.Json
