import TagLint.Proofs.Scanner

/-!
Where the scanner stops.

Text, keys and values are passed over byte by byte, and template regions as wholes. `Scanner.Skims`
says of such a loop what `Template.skim` does with characters; from it each of the loops stops where
skimming does.
-/
namespace TagLint

open Written

namespace Scanner

variable (s : Scanner)

/-! ### Markup -/

/-- Whether markup begins at the place. -/
def startsMarkup? (pos : Nat) : Option Bool := do
  if !(← s.standsAt? "<".toList pos) then return false
  return (← s.standsAt? "<!--".toList pos) || s.isNamedAt "<!doctype".toList pos ||
    ((← s.standsAt? "</".toList pos) && s.isAt Char.isAlpha (pos + 2)) ||
    s.isAt Char.isAlpha (pos + 1)

/-- The markup that begins at the place. -/
def construct? (pos : Nat) : Option (Option Construct) := do
  if ← s.standsAt? "<!--".toList pos then return some .comment
  else if s.isNamedAt "<!doctype".toList pos then return some .doctype
  else if (← s.standsAt? "</".toList pos) && s.isAt Char.isAlpha (pos + 2) then
    return some .closing
  else if (← s.standsAt? "<".toList pos) && s.isAt Char.isAlpha (pos + 1) then
    return some .opening
  else return none

variable {s : Scanner} {pos n : Nat} {t u : Text} {c : Char} {p : Char → Bool}

theorem isAsciiClass_isAlpha : IsAsciiClass Char.isAlpha := by
  have other (c : Char) (large : 128 ≤ c.toNat) : c.isAlpha = false := by
    rw [Bool.eq_false_iff, Ne, Text.isAlpha_iff]
    omega
  intro c d first second
  rw [other c first, other d second]

theorem Ahead.isAt_cons (ahead : s.Ahead pos (c :: t)) (ascii : IsAsciiClass p) :
    s.isAt p pos = p c :=
  ahead.isAt ascii (Nat.le_refl pos) (Nat.lt_add_of_pos_right c.utf8Size_pos)

theorem Ahead.isAt_head (ahead : s.Ahead pos t) (ascii : IsAsciiClass p) :
    s.isAt p pos = t.head?.any p := by
  cases t with
  | nil => exact ahead.isAt_nil p
  | cons c t => exact ahead.isAt_cons ascii

theorem Ahead.isNamedAt (ahead : s.Ahead pos t) (name : Text) :
    s.isNamedAt name pos = Text.startsWithName name t := by
  have size := ahead.size_eq
  rw [← Text.length_bytes] at size
  rw [Text.startsWithName_iff, Bool.eq_iff_iff, Scanner.isNamedAt, ahead.drop_bytes,
    Bool.and_eq_true, decide_eq_true_iff, Bytes.sameName, beq_iff_eq, List.isPrefixOf_iff_prefix,
    ← Text.bytes_prefix_iff, List.prefix_iff_eq_take, Text.bytes_lower, Text.bytes_lower,
    List.length_map, ← List.map_take, eq_comm (a := name.bytes.map _)]
  refine ⟨And.right, fun same => ⟨?_, same⟩⟩
  have lengths := congrArg List.length same
  simp only [List.length_map, List.length_take] at lengths
  omega

/-- A letter after some text that stands at the place. -/
theorem Ahead.isAlpha_after (ahead : s.Ahead pos t) (lead : Text) :
    (lead.isPrefixOf t && s.isAt Char.isAlpha (pos + lead.byteLength)) =
      (lead.isPrefixOf t && Text.startsWithLetter (t.drop lead.length)) := by
  by_cases starts : lead <+: t
  · obtain ⟨r, rfl⟩ := starts
    rw [ahead.skip.isAt_head isAsciiClass_isAlpha, List.drop_left]
    cases r <;> rfl
  · rw [← List.isPrefixOf_iff_prefix, Bool.not_eq_true] at starts
    simp [starts]

/-- The construct that a text starts with, by the texts that lead one in. -/
theorem construct_eq (t : Text) : Construct.of? t =
    if "<!--".toList.isPrefixOf t then some .comment
    else if Text.startsWithName "<!doctype".toList t then some .doctype
    else if "</".toList.isPrefixOf t && Text.startsWithLetter (t.drop 2) then some .closing
    else if "<".toList.isPrefixOf t && Text.startsWithLetter (t.drop 1) then some .opening
    else none := by
  unfold Construct.of?
  split
  · rfl
  split
  · rfl
  split
  next r _ _ =>
    have slash : Text.startsWithLetter ('/' :: r) = false := rfl
    simp [slash]
  next r other _ _ =>
    cases r with
    | nil => rfl
    | cons d r =>
      have plain : '/' ≠ d := fun same => other r (by rw [same])
      simp [plain]
  next first second =>
    have plain : ¬['<'] <+: t := by
      rintro ⟨r, rfl⟩
      exact second r rfl
    have plain' : ¬['<', '/'] <+: t := by
      rintro ⟨r, rfl⟩
      exact first r rfl
    simp [plain, plain']

section Tags

variable (ahead : s.Ahead pos t)
include ahead

theorem Ahead.isAlpha_after_slash :
    ("</".toList.isPrefixOf t && s.isAt Char.isAlpha (pos + 2)) =
      ("</".toList.isPrefixOf t && Text.startsWithLetter (t.drop 2)) :=
  ahead.isAlpha_after "</".toList

theorem Ahead.isAlpha_after_bracket :
    ("<".toList.isPrefixOf t && s.isAt Char.isAlpha (pos + 1)) =
      ("<".toList.isPrefixOf t && Text.startsWithLetter (t.drop 1)) :=
  ahead.isAlpha_after "<".toList

theorem Ahead.construct? : s.construct? pos = some (Construct.of? t) := by
  unfold Scanner.construct?
  simp only [ahead.standsAt?, ahead.isNamedAt, Option.bind_eq_bind, Option.bind_some,
    ahead.isAlpha_after_slash, ahead.isAlpha_after_bracket]
  rw [construct_eq]
  split
  · rfl
  split
  · rfl
  split
  · rfl
  split <;> rfl

theorem Ahead.startsMarkup? : s.startsMarkup? pos = some (Construct.of? t).isSome := by
  unfold Scanner.startsMarkup?
  simp only [ahead.standsAt?, ahead.isNamedAt, Option.bind_eq_bind, Option.bind_some,
    ahead.isAlpha_after_slash]
  cases bracket : "<".toList.isPrefixOf t with
  | false =>
    have plain : Construct.of? t = none := by
      cases t with
      | nil => rfl
      | cons c t =>
        refine Construct.of?_plain ?_ t
        rintro rfl
        simp at bracket
    rw [plain]
    rfl
  | true =>
    -- Both ask for the same four leads, in another order.
    have letter := ahead.isAlpha_after_bracket
    rw [bracket, Bool.true_and, Bool.true_and] at letter
    rw [construct_eq, bracket, letter]
    generalize "<!--".toList.isPrefixOf t = isComment
    generalize Text.startsWithName "<!doctype".toList t = isDoctype
    generalize ("</".toList.isPrefixOf t && Text.startsWithLetter (t.drop 2)) = isClosing
    generalize Text.startsWithLetter (t.drop 1) = isOpening
    cases isComment <;> cases isDoctype <;> cases isClosing <;> cases isOpening <;> rfl

end Tags

/-! ### Passing over text -/

/-- Whether the turns of a loop that begins at `start` pass over characters as skimming does. -/
structure Skims (s : Scanner) (stops : Text → Bool) (start : Nat)
    (turn : Nat → Option (Turn Nat Nat)) : Prop where
  finish {pos : Nat} (ahead : s.Ahead pos []) : turn pos = some (.leave pos)
  stop {pos : Nat} {c : Char} {t : Text} (after : start ≤ pos) (ahead : s.Ahead pos (c :: t))
    (here : stops (c :: t) = true) : turn pos = some (.leave pos)
  region {pos : Nat} {c : Char} {t region rest : Text} (ahead : s.Ahead pos (c :: t))
    (runs : stops (c :: t) = false)
    (found : Template.region? s.pairs (c :: t) [] = some (region, rest)) :
    turn pos = some (.next (pos + region.byteLength))
  char {pos n : Nat} {c : Char} {t : Text} (ahead : s.Ahead pos (c :: t))
    (runs : stops (c :: t) = false) (plain : Template.opener? s.pairs (c :: t) [] = none)
    (first : pos ≤ n) (last : n < pos + c.utf8Size) : turn n = some (.next (n + 1))

theorem Skims.loop?_eq {stops : Text → Bool} {start : Nat} {turn : Nat → Option (Turn Nat Nat)}
    (skims : s.Skims stops start turn) (after : start ≤ pos) (ahead : s.Ahead pos t) :
    loop? id s.size turn pos = some (pos + (Template.skim s.pairs stops t).1.byteLength) := by
  -- The cases are those of skimming: the end, a stop, a region as a whole, and one character.
  induction t using Template.skim.induct s.pairs stops generalizing pos with
  | case1 =>
    rw [Template.skim]
    exact loop?_leave (skims.finish ahead)
  | case2 c t here =>
    rw [Template.skim_stop s.pairs here]
    exact loop?_leave (skims.stop after ahead here)
  | case3 c t runs region rest found ih =>
    have runs : stops (c :: t) = false := by simpa using runs
    have joined := Template.region?_append found
    have taken := Text.byteLength_pos (Template.region?_ne_nil (List.cons_ne_nil c t) found)
    have within : pos < s.size := by
      rw [ahead.size_eq, ← joined, Text.byteLength_append]
      omega
    rw [loop?_next (skims.region ahead runs found) (Nat.lt_add_of_pos_right taken) within,
      ih (by omega) (joined ▸ ahead).skip, Template.skim_region runs found,
      Text.byteLength_append, Nat.add_assoc]
  | case4 c t runs plain ih =>
    have runs : stops (c :: t) = false := by simpa using runs
    have further : s.Ahead (pos + c.utf8Size) t := by simpa using ahead.skip (u := [c])
    have within : pos + c.utf8Size ≤ s.size := by
      rw [further.size_eq]
      omega
    -- The turns inside the character go on to its end.
    have steps : loop? id s.size turn pos = loop? id s.size turn (pos + c.utf8Size) :=
      loop?_steps id (fun _ => rfl) (Nat.le_add_right pos c.utf8Size) within
        fun n first last => skims.char ahead runs (Template.region?_eq_none_iff.1 plain) first last
    rw [steps, ih (by omega) further, Template.skim_char runs plain, Text.byteLength_cons,
      Nat.add_assoc]

theorem Ahead.regionEnd?_size (ahead : s.Ahead pos t) : s.regionEnd? pos s.size =
    some ((Template.region? s.pairs t []).map fun sides => pos + sides.1.byteLength) := by
  rw [ahead.size_eq]
  exact Ahead.regionEnd? (by rwa [List.append_nil])

/-- Passes over bytes, and over template regions as wholes, up to a place where `stops?` says so. -/
def passOver? (s : Scanner) (stops? : Nat → Option Bool) (pos : Nat) : Option (Turn Nat Nat) :=
  if s.size ≤ pos then some (.leave pos)
  else do
    match ← s.regionEnd? pos s.size with
    | some stop => return .next stop
    | none => return if ← stops? pos then .leave pos else .next (pos + 1)

theorem skims_passOver? {stops? : Nat → Option Bool} {base stops : Text → Bool} {start : Nat}
    (same : ∀ t, stops t = (base t && (Template.opener? s.pairs t []).isNone))
    (holds : ∀ {pos c t}, start ≤ pos → s.Ahead pos (c :: t) → base (c :: t) = true →
      stops? pos = some true)
    (fails : ∀ {pos n c t}, s.Ahead pos (c :: t) → base (c :: t) = false → pos ≤ n →
      n < pos + c.utf8Size → stops? n = some false) :
    s.Skims stops start (s.passOver? stops?) := by
  have within {pos n : Nat} {c : Char} {t : Text} (ahead : s.Ahead pos (c :: t))
      (last : n < pos + c.utf8Size) : ¬s.size ≤ n := Nat.not_le.2 (ahead.lt_size last)
  constructor
  case finish =>
    intro pos ahead
    rw [passOver?, if_pos (by simp [ahead.size_eq])]
  case stop =>
    intro pos c t after ahead here
    rw [same, Bool.and_eq_true, Option.isNone_iff_eq_none] at here
    have missing := Template.region?_eq_none_iff.2 here.2
    rw [passOver?, if_neg (within ahead (Nat.lt_add_of_pos_right c.utf8Size_pos)),
      ahead.regionEnd?_size, missing]
    simp [holds after ahead here.1]
  case region =>
    intro pos c t region rest ahead runs found
    rw [passOver?, if_neg (within ahead (Nat.lt_add_of_pos_right c.utf8Size_pos)),
      ahead.regionEnd?_size, found]
    rfl
  case char =>
    intro pos n c t ahead runs plain first last
    rw [same, plain, Option.isNone_none, Bool.and_true] at runs
    rw [passOver?, if_neg (within ahead last), ahead.regionEnd?_within plain first last]
    simp [fails ahead runs first last]

variable (s)

/-- Where the text ends that begins at the place. -/
def textEnd? (start : Nat) : Option Nat :=
  loop? id s.size
    (s.passOver? fun pos => if start < pos then s.startsMarkup? pos else some false) start

/-- Where the key of an attribute ends. -/
def keyEnd? (start : Nat) : Option Nat :=
  loop? id s.size (s.passOver? fun pos => do
    let ends ← s.byteIs? (fun c => isMarkupSpace c || c == '>' || c == '=') pos
    return ends || (← s.standsAt? "/>".toList pos)) start

/-- Where the value of an attribute ends that is not quoted. -/
def valueEnd? (start : Nat) : Option Nat :=
  loop? id s.size (s.passOver? (s.byteIs? fun c => isMarkupSpace c || c == '>')) start

/-- Where the value of an attribute ends after the quote that led it in. -/
def quotedEnd? (quote : Char) (start : Nat) : Option Nat :=
  loop? id s.size (fun pos =>
    if s.size ≤ pos then some (.leave pos)
    else do
      if ← s.byteIs? (· == quote) pos then return .leave pos
      match ← s.regionEnd? pos s.size with
      | some stop => return .next stop
      | none => return .next (pos + 1)) start

variable {s}

/-- Two texts that come at one place are the same. -/
theorem Ahead.unique (first : s.Ahead pos t) (second : s.Ahead pos u) : t = u := by
  obtain ⟨before, shown, rfl⟩ := first
  obtain ⟨other, shown', same⟩ := second
  obtain ⟨middle, rfl, rfl⟩ := Text.exists_middle (shown'.symm.trans shown) (Nat.le_of_eq same)
  cases middle with
  | nil => rfl
  | cons c middle =>
    have := c.utf8Size_pos
    rw [Text.byteLength_append, Text.byteLength_cons] at same
    omega

/-- Before the end of a character its start is not markup, or the character is a bracket. -/
theorem Ahead.startsMarkup?_within (ahead : s.Ahead pos (c :: t))
    (plain : Construct.of? (c :: t) = none) (first : pos ≤ n) (last : n < pos + c.utf8Size) :
    s.startsMarkup? n = some false := by
  rcases Nat.eq_or_lt_of_le first with rfl | later
  · rw [ahead.startsMarkup?, plain]
    rfl
  · -- A bracket has one byte only.
    have bracket : ¬"<".toList <+: c :: t := by
      rintro ⟨r, same⟩
      obtain ⟨rfl, _⟩ := List.cons.inj same
      exact absurd last (Nat.not_lt.2 later)
    rw [Scanner.startsMarkup?, ahead.standsAt?_within (by simp) bracket first last]
    rfl

theorem Ahead.textEnd? (ahead : s.Ahead pos t) (plain : Construct.of? t = none) :
    s.textEnd? pos =
      some (pos + (Template.skim s.pairs (endsContent s.pairs) t).1.byteLength) := by
  refine Skims.loop?_eq (skims_passOver? (fun _ => rfl) ?_ ?_) (Nat.le_refl pos) ahead
  · intro n c r after ahead' here
    -- Where the text begins no markup is asked for, and there is none.
    rcases Nat.eq_or_lt_of_le after with rfl | later
    · rw [← ahead.unique ahead', plain] at here
      contradiction
    · rw [if_pos later, ahead'.startsMarkup?, here]
  · intro m n c r ahead' runs first last
    split
    · exact ahead'.startsMarkup?_within (by simpa using runs) first last
    · rfl

/-- What is no more than some ASCII characters is a class of them. -/
theorem isAsciiClass_of_ascii (other : ∀ c : Char, p c = true → c.toNat < 128) :
    IsAsciiClass p := by
  have outside (c : Char) (large : 128 ≤ c.toNat) : p c = false := by
    cases holds : p c with
    | false => rfl
    | true => exact absurd (other c holds) (Nat.not_lt.2 large)
  intro c d first second
  rw [outside c first, outside d second]

theorem isMarkupSpace_ascii {c : Char} (blank : isMarkupSpace c = true) : c.toNat < 128 := by
  simp only [isMarkupSpace, Bool.or_eq_true, beq_iff_eq] at blank
  rcases blank with (((rfl | rfl) | rfl) | rfl) | rfl <;> decide

theorem isAsciiClass_isMarkupSpace : IsAsciiClass isMarkupSpace :=
  isAsciiClass_of_ascii fun _ => isMarkupSpace_ascii

theorem isAsciiClass_beq {d : Char} (ascii : d.toNat < 128) : IsAsciiClass (· == d) :=
  isAsciiClass_of_ascii fun c holds => by rwa [eq_of_beq holds]

theorem isAsciiClass_valueEnd : IsAsciiClass fun c => isMarkupSpace c || c == '>' := by
  refine isAsciiClass_of_ascii fun c holds => ?_
  simp only [Bool.or_eq_true, beq_iff_eq] at holds
  rcases holds with blank | rfl
  · exact isMarkupSpace_ascii blank
  · decide

theorem isAsciiClass_keyEnd :
    IsAsciiClass fun c => isMarkupSpace c || c == '>' || c == '=' := by
  refine isAsciiClass_of_ascii fun c holds => ?_
  simp only [Bool.or_eq_true, beq_iff_eq] at holds
  rcases holds with (blank | rfl) | rfl
  · exact isMarkupSpace_ascii blank
  · decide
  · decide

theorem Ahead.valueEnd? (ahead : s.Ahead pos t) :
    s.valueEnd? pos = some (pos + (Template.skim s.pairs (endsValue s.pairs) t).1.byteLength) := by
  refine Skims.loop?_eq (skims_passOver? (fun _ => rfl) ?_ ?_) (Nat.le_refl pos) ahead
  · intro n c r _ ahead' here
    rw [ahead'.byteIs? isAsciiClass_valueEnd (Nat.le_refl n)
      (Nat.lt_add_of_pos_right c.utf8Size_pos)]
    exact congrArg some here
  · intro m n c r ahead' runs first last
    rw [ahead'.byteIs? isAsciiClass_valueEnd first last]
    exact congrArg some runs

theorem endsKey_eq (pairs : List Delimiters) (t : Text) :
    endsKey pairs t =
      ((t.head?.all (fun c => isMarkupSpace c || c == '>' || c == '=') ||
        "/>".toList.isPrefixOf t) && (Template.opener? pairs t []).isNone) := by
  unfold endsKey
  congr 1
  split
  · rfl
  · simp
  next c r other =>
    have plain : "/>".toList.isPrefixOf (c :: r) = false := by
      rw [Bool.eq_false_iff, Ne, List.isPrefixOf_iff_prefix]
      rintro ⟨rest, same⟩
      obtain ⟨rfl, rfl⟩ := List.cons.inj same
      exact other rest rfl rfl
    rw [plain, Bool.or_false]
    rfl

theorem Ahead.keyEnd? (ahead : s.Ahead pos t) :
    s.keyEnd? pos = some (pos + (Template.skim s.pairs (endsKey s.pairs) t).1.byteLength) := by
  refine Skims.loop?_eq (skims_passOver? (endsKey_eq s.pairs) ?_ ?_) (Nat.le_refl pos) ahead
  · intro n c r _ ahead' here
    simp only [ahead'.byteIs? isAsciiClass_keyEnd (Nat.le_refl n)
      (Nat.lt_add_of_pos_right c.utf8Size_pos), ahead'.standsAt?, Option.bind_eq_bind,
      Option.bind_some]
    exact congrArg some here
  · intro m n c r ahead' runs first last
    rw [Bool.or_eq_false_iff] at runs
    -- A slash before a bracket is no single character, so it is asked for on its own.
    have slash : ¬"/>".toList <+: c :: r := by
      rw [← List.isPrefixOf_iff_prefix, runs.2]
      exact Bool.false_ne_true
    have here : s.byteIs? (fun c => isMarkupSpace c || c == '>' || c == '=') n = some false :=
      (ahead'.byteIs? isAsciiClass_keyEnd first last).trans (congrArg some runs.1)
    simp only [here, ahead'.standsAt?_within (by simp) slash first last, Option.bind_eq_bind,
      Option.bind_some]
    rfl

theorem Ahead.quotedEnd? (ahead : s.Ahead pos t) {quote : Char} (ascii : quote.toNat < 128) :
    s.quotedEnd? quote pos = some
      (pos + (Template.skim s.pairs (fun r => r.head? == some quote) t).1.byteLength) := by
  have isQuote : IsAsciiClass (· == quote) := isAsciiClass_beq ascii
  have within {n m : Nat} {c : Char} {r : Text} (ahead : s.Ahead n (c :: r))
      (last : m < n + c.utf8Size) : ¬s.size ≤ m := Nat.not_le.2 (ahead.lt_size last)
  have start {n : Nat} {c : Char} : n < n + c.utf8Size := Nat.lt_add_of_pos_right c.utf8Size_pos
  refine Skims.loop?_eq ⟨?finish, ?stop, ?region, ?char⟩ (Nat.le_refl pos) ahead
  case finish =>
    intro n ahead'
    rw [if_pos (by simp [ahead'.size_eq])]
  case stop =>
    intro n c r _ ahead' here
    have here : (c == quote) = true := by simpa using here
    rw [if_neg (within ahead' start), ahead'.byteIs? isQuote (Nat.le_refl n) start, here]
    rfl
  case region =>
    intro n c r region rest ahead' runs found
    have other : (c == quote) = false := by simpa using runs
    rw [if_neg (within ahead' start), ahead'.byteIs? isQuote (Nat.le_refl n) start, other,
      ahead'.regionEnd?_size, found]
    rfl
  case char =>
    intro n m c r ahead' runs plain first last
    have other : (c == quote) = false := by simpa using runs
    rw [if_neg (within ahead' last), ahead'.byteIs? isQuote first last, other,
      ahead'.regionEnd?_within plain first last]
    rfl

end Scanner
end TagLint
