import TagLint.Markup.Build
import TagLint.Proofs.SkimmedParts

/-!
Bytes that are read with every access checked.

A slice, a list of windows and a turn of a loop come to `none` where they would have to fail:
outside of the bytes, for windows of no size, and where a loop goes on without having moved ahead.
Searching among the bytes of characters finds a text where searching the characters does, also
without regard to case.
-/
namespace TagLint

open Written

/-- The bytes of a text, or of a part of it. -/
abbrev Bytes := List UInt8

namespace Bytes

/-- The bytes from `start` on, if there is such a place. -/
def sliceFrom? (bytes : Bytes) (start : Nat) : Option Bytes :=
  if start ≤ bytes.length then some (bytes.drop start) else none

/-- The bytes up to `stop`, if there is such a place. -/
def sliceTo? (bytes : Bytes) (stop : Nat) : Option Bytes :=
  if stop ≤ bytes.length then some (bytes.take stop) else none

/-- All stretches of `size` bytes, from left to right; there are none of no size. -/
def windows? (bytes : Bytes) (size : Nat) : Option (List Bytes) :=
  if size = 0 then none
  else some ((List.range (bytes.length + 1 - size)).map fun start => (bytes.drop start).take size)

/-- Where `needle` comes first from `start` on. An empty needle is nowhere, and there is nothing
past the end. -/
def search? (same : Bytes → Bytes → Bool) (bytes needle : Bytes) (start : Nat) :
    Option (Option Nat) :=
  if needle.isEmpty || bytes.length < start then some none
  else do
    let rest ← sliceFrom? bytes start
    let windows ← windows? rest needle.length
    return (windows.findIdx? (same needle)).map (start + ·)

/-- The byte of the small letter, for that of a capital letter. -/
def lowerByte (byte : UInt8) : UInt8 :=
  if 65 ≤ byte && byte ≤ 90 then byte + 32 else byte

/-- Equality without regard to ASCII case. -/
def sameName (a b : Bytes) : Bool :=
  a.map lowerByte == b.map lowerByte

theorem toNat_lowerByte (byte : UInt8) : (lowerByte byte).toNat =
    if 65 ≤ byte.toNat ∧ byte.toNat ≤ 90 then byte.toNat + 32 else byte.toNat := by
  have bounds : (65 ≤ byte && byte ≤ 90) = true ↔ 65 ≤ byte.toNat ∧ byte.toNat ≤ 90 := by
    rw [Bool.and_eq_true, decide_eq_true_iff, decide_eq_true_iff, UInt8.le_iff_toNat_le,
      UInt8.le_iff_toNat_le]
    rfl
  unfold lowerByte
  by_cases capital : 65 ≤ byte.toNat ∧ byte.toNat ≤ 90
  · rw [if_pos (bounds.2 capital), if_pos capital, UInt8.toNat_add]
    exact Nat.mod_eq_of_lt (by simp; omega)
  · rw [if_neg fun same => capital (bounds.1 same), if_neg capital]

theorem sliceFrom?_append (a b : Bytes) : sliceFrom? (a ++ b) a.length = some b := by
  rw [sliceFrom?, if_pos (by simp), List.drop_left]

theorem sliceTo?_append (a b : Bytes) : sliceTo? (a ++ b) a.length = some a := by
  rw [sliceTo?, if_pos (by simp), List.take_left]

end Bytes

/-! ### Loops -/

/-- What one turn of a loop comes to. -/
inductive Turn (σ ρ : Type) where
  | leave (result : ρ)
  | next (state : σ)

/-- Takes turns until one of them leaves. The loop fails where a turn does, and where one goes on
that has not moved ahead or that started at the limit already. -/
def loop? {σ ρ : Type} (place : σ → Nat) (limit : Nat) (turn : σ → Option (Turn σ ρ)) (state : σ) :
    Option ρ :=
  match turn state with
  | none => none
  | some (.leave result) => some result
  | some (.next further) =>
    if place state < place further ∧ place state < limit then loop? place limit turn further
    else none
termination_by limit - place state

section Loop

variable {σ ρ : Type} {place : σ → Nat} {limit : Nat} {turn : σ → Option (Turn σ ρ)}
  {state further : σ} {result : ρ}

theorem loop?_leave (leaves : turn state = some (.leave result)) :
    loop? place limit turn state = some result := by
  rw [loop?, leaves]

theorem loop?_next (goes : turn state = some (.next further)) (ahead : place state < place further)
    (within : place state < limit) :
    loop? place limit turn state = loop? place limit turn further := by
  rw [loop?, goes]
  exact if_pos ⟨ahead, within⟩

/-- A loop that steps from place to place gets to the last one. -/
theorem loop?_steps (states : Nat → σ) (at_ : ∀ n, place (states n) = n) {start stop : Nat}
    (ordered : start ≤ stop) (within : stop ≤ limit)
    (steps : ∀ n, start ≤ n → n < stop → turn (states n) = some (.next (states (n + 1)))) :
    loop? place limit turn (states start) = loop? place limit turn (states stop) := by
  -- From the last step back: the loop is where it would be had it begun one place later.
  induction stop, ordered using Nat.le_induction with
  | base => rfl
  | succ stop ordered ih =>
    rw [ih (by omega) fun n first last => steps n first (by omega)]
    have ahead : place (states stop) < place (states (stop + 1)) := by simp [at_]
    exact loop?_next (steps stop ordered (Nat.lt_succ_self stop)) ahead (by rw [at_]; exact within)

end Loop

/-! ### Bytes of characters -/

/-- Whether the class tells no two characters apart that are not ASCII. -/
def IsAsciiClass (p : Char → Bool) : Prop :=
  ∀ c d : Char, 128 ≤ c.toNat → 128 ≤ d.toNat → p c = p d

namespace Text

theorem encode_ascii {c : Char} (ascii : c.toNat < 128) :
    String.utf8EncodeChar c = [UInt8.ofNat c.toNat] := by
  have small : c.val.toNat ≤ 127 := Nat.le_of_lt_succ ascii
  simp only [String.utf8EncodeChar, small, if_true]
  rfl

theorem utf8Size_ascii {c : Char} (ascii : c.toNat < 128) : c.utf8Size = 1 := by
  rw [← String.length_utf8EncodeChar, encode_ascii ascii]
  rfl

theorem le_of_mem_encode {c : Char} (other : 128 ≤ c.toNat) {byte : UInt8}
    (member : byte ∈ String.utf8EncodeChar c) : 128 ≤ byte.toNat := by
  -- The first byte has its two highest bits set, and each further one the highest.
  have large : ¬c.val.toNat ≤ 127 := Nat.not_le_of_lt other
  simp only [String.utf8EncodeChar, large, if_false] at member
  split at member
  · simp only [List.mem_cons, List.not_mem_nil, or_false] at member
    rcases member with rfl | rfl <;> simp only [UInt8.toNat_ofNat'] <;> omega
  · split at member
    · simp only [List.mem_cons, List.not_mem_nil, or_false] at member
      rcases member with rfl | rfl | rfl <;> simp only [UInt8.toNat_ofNat'] <;> omega
    · simp only [List.mem_cons, List.not_mem_nil, or_false] at member
      rcases member with rfl | rfl | rfl | rfl <;> simp only [UInt8.toNat_ofNat'] <;> omega

theorem toNat_ofUInt8 (byte : UInt8) : (Char.ofUInt8 byte).toNat = byte.toNat := rfl

theorem ofUInt8_ascii {c : Char} (ascii : c.toNat < 128) :
    Char.ofUInt8 (UInt8.ofNat c.toNat) = c := by
  apply Char.toNat_inj.1
  rw [toNat_ofUInt8, UInt8.toNat_ofNat', Nat.mod_eq_of_lt (by omega)]

/-- A byte of a character is in a class of bytes where the character is in that class. -/
theorem class_of_mem_encode {p : Char → Bool} (ascii : IsAsciiClass p) {c : Char} {byte : UInt8}
    (member : byte ∈ String.utf8EncodeChar c) : p (Char.ofUInt8 byte) = p c := by
  by_cases small : c.toNat < 128
  · rw [encode_ascii small, List.mem_singleton] at member
    rw [member, ofUInt8_ascii small]
  · exact ascii _ _ (le_of_mem_encode (Nat.not_lt.1 small) member) (Nat.not_lt.1 small)

theorem isAlpha_iff (c : Char) :
    c.isAlpha = true ↔ 65 ≤ c.toNat ∧ c.toNat ≤ 90 ∨ 97 ≤ c.toNat ∧ c.toNat ≤ 122 := by
  have shown : c.isAlpha = (decide (c.val ≥ 65 ∧ c.val ≤ 90) ||
      (decide (c.val ≥ 97) && decide (c.val ≤ 122))) := rfl
  simp [shown, UInt32.le_iff_toNat_le]

theorem toNat_toLower (c : Char) :
    c.toLower.toNat = if 65 ≤ c.toNat ∧ c.toNat ≤ 90 then c.toNat + 32 else c.toNat := by
  have bounds : (c.val ≥ 'A'.val ∧ c.val ≤ 'Z'.val) ↔ 65 ≤ c.toNat ∧ c.toNat ≤ 90 := by
    rw [ge_iff_le, UInt32.le_iff_toNat_le, UInt32.le_iff_toNat_le]
    rfl
  unfold Char.toLower
  by_cases capital : 65 ≤ c.toNat ∧ c.toNat ≤ 90
  · rw [dif_pos (bounds.2 capital), if_pos capital]
    have step : ('a'.val - 'A'.val).toNat = 32 := by decide
    change (c.val + ('a'.val - 'A'.val)).toNat = _
    rw [UInt32.toNat_add, step]
    change (c.toNat + 32) % 2 ^ 32 = _
    exact Nat.mod_eq_of_lt (by omega)
  · rw [dif_neg fun same => capital (bounds.1 same), if_neg capital]

theorem encode_toLower (c : Char) :
    String.utf8EncodeChar c.toLower = (String.utf8EncodeChar c).map Bytes.lowerByte := by
  have lower := toNat_toLower c
  by_cases small : c.toNat < 128
  · have small' : c.toLower.toNat < 128 := by
      rw [lower]
      split <;> omega
    rw [encode_ascii small, encode_ascii small', List.map_singleton]
    congr 1
    apply UInt8.toNat_inj.1
    rw [Bytes.toNat_lowerByte, UInt8.toNat_ofNat', UInt8.toNat_ofNat', Nat.mod_eq_of_lt (by omega),
      Nat.mod_eq_of_lt (by omega), lower]
  · -- Neither the character nor any of its bytes is a capital letter.
    have same : c.toLower = c := Char.toNat_inj.1 (by rw [lower, if_neg (by omega)])
    have alone (byte : UInt8) (member : byte ∈ String.utf8EncodeChar c) :
        Bytes.lowerByte byte = byte := by
      have large := le_of_mem_encode (Nat.not_lt.1 small) member
      exact UInt8.toNat_inj.1 (by rw [Bytes.toNat_lowerByte, if_neg (by omega)])
    rw [same, List.map_congr_left alone, List.map_id']

@[simp] theorem bytes_lower (t : Text) : t.lower.bytes = t.bytes.map Bytes.lowerByte := by
  induction t with
  | nil => rfl
  | cons c t ih =>
    rw [bytes_cons, List.map_append, ← ih, ← encode_toLower]
    rfl

theorem byteLength_lower (t : Text) : t.lower.byteLength = t.byteLength := by
  rw [← length_bytes, ← length_bytes, bytes_lower, List.length_map]

/-- What stands in a source from within a character stands there from its start. -/
theorem StandsAt.prefix_of_within {before t needle : Text} {c : Char} {place : Nat}
    (stands : (before ++ c :: t).StandsAt place needle) (start : before.byteLength ≤ place)
    (stop : place < before.byteLength + c.utf8Size) : needle <+: c :: t := by
  obtain ⟨front, back, split, rfl⟩ := stands
  obtain ⟨middle, rfl, shown⟩ := exists_middle (split.trans (List.append_assoc _ _ _)) start
  cases middle with
  | nil => exact ⟨back, shown.symm⟩
  | cons d middle =>
    -- The needle would stand behind the character.
    obtain ⟨rfl, _⟩ := List.cons.inj shown
    rw [byteLength_append, byteLength_cons] at stop
    omega

end Text

/-! ### Searching -/

namespace Bytes

variable {bytes needle : Bytes} {windows : List Bytes}

theorem getElem?_windows (full : needle ≠ []) (listed : windows? bytes needle.length = some windows)
    (i : Nat) : windows[i]? = some needle ↔ needle <+: bytes.drop i := by
  have size : 0 < needle.length := List.length_pos_iff.2 full
  obtain rfl : _ = windows := by simpa [windows?, full] using listed
  rw [List.prefix_iff_eq_take, List.getElem?_map, Option.map_eq_some_iff]
  constructor
  · rintro ⟨j, here, same⟩
    obtain ⟨bound, rfl⟩ := List.getElem?_eq_some_iff.1 here
    simpa using same.symm
  · intro same
    have lengths := congrArg List.length same
    rw [List.length_take, List.length_drop] at lengths
    refine ⟨i, ?_, same.symm⟩
    rw [List.getElem?_range (by omega)]

/-- The stretch that is found is the first place where the needle stands. -/
theorem findIdx?_eq_some (full : needle ≠ []) (listed : windows? bytes needle.length = some windows)
    {i : Nat} (here : needle <+: bytes.drop i) (first : ∀ j < i, ¬needle <+: bytes.drop j) :
    windows.findIdx? (needle == ·) = some i := by
  obtain ⟨bound, same⟩ := List.getElem?_eq_some_iff.1 ((getElem?_windows full listed i).2 here)
  refine List.findIdx?_eq_some_iff_getElem.2 ⟨bound, by rw [same, BEq.rfl], ?_⟩
  intro j earlier equal
  refine first j earlier ((getElem?_windows full listed j).1 ?_)
  rw [List.getElem?_eq_getElem (Nat.lt_trans earlier bound), ← eq_of_beq equal]

theorem findIdx?_eq_none (full : needle ≠ []) (listed : windows? bytes needle.length = some windows)
    (nowhere : ∀ j, ¬needle <+: bytes.drop j) : windows.findIdx? (needle == ·) = none := by
  refine List.findIdx?_eq_none_iff.2 fun window member => ?_
  obtain ⟨j, bound, rfl⟩ := List.getElem_of_mem member
  refine Bool.eq_false_iff.2 fun equal => nowhere j ((getElem?_windows full listed j).1 ?_)
  rw [List.getElem?_eq_getElem bound, ← eq_of_beq equal]

theorem search?_sameName (bytes needle : Bytes) (start : Nat) :
    search? sameName bytes needle start =
      search? (· == ·) (bytes.map lowerByte) (needle.map lowerByte) start := by
  -- Small letters in every stretch are the stretches of the small letters.
  have windows (size : Nat) (rest : Bytes) : windows? (rest.map lowerByte) size =
      (windows? rest size).map (List.map (List.map lowerByte)) := by
    unfold windows?
    split <;> simp [List.map_drop, List.map_take]
  unfold search?
  simp only [List.isEmpty_map, List.length_map, sliceFrom?, ← List.map_drop]
  split
  · rfl
  · split
    · simp only [Option.bind_eq_bind, Option.bind_some, windows]
      cases windows? (bytes.drop start) needle.length with
      | none => rfl
      | some windows =>
        simp only [Option.bind_some, Option.map_some, List.findIdx?_map]
        rfl
    · rfl

end Bytes

namespace Text

/-- Searching the bytes finds a text where searching the characters does. -/
theorem search?_bytes (before needle t : Text) :
    Bytes.search? (· == ·) (before ++ t).bytes needle.bytes before.byteLength =
      some ((find? needle t).map fun sides => before.byteLength + sides.1.byteLength) := by
  by_cases full : needle = []
  · simp [full, Bytes.search?, find?]
  · have full' : needle.bytes ≠ [] := by
      obtain ⟨byte, first, _⟩ := head?_bytes full
      rintro empty
      simp [empty] at first
    have size : needle.bytes.length ≠ 0 := mt List.length_eq_zero_iff.1 full'
    obtain ⟨windows, listed⟩ :
        ∃ windows, Bytes.windows? t.bytes needle.bytes.length = some windows := ⟨_, if_neg size⟩
    have shown : Bytes.search? (· == ·) (before ++ t).bytes needle.bytes before.byteLength =
        some ((windows.findIdx? (needle.bytes == ·)).map (before.byteLength + ·)) := by
      rw [Bytes.search?, if_neg (by simp [full', length_bytes]), bytes_append,
        ← length_bytes before, Bytes.sliceFrom?_append]
      simp [listed]
    rw [shown]
    cases found : find? needle t with
    | some sides =>
      obtain ⟨body, rest⟩ := sides
      obtain ⟨here, first⟩ := bytes_of_find? found
      rw [Bytes.findIdx?_eq_some full' listed here first]
      rfl
    | none =>
      rw [Bytes.findIdx?_eq_none full' listed (bytes_of_find?_none full found)]
      rfl

theorem startsWithName_iff {needle t : Text} :
    startsWithName needle t = needle.lower.isPrefixOf t.lower := by
  rw [Bool.eq_iff_iff, startsWithName, sameName, beq_iff_eq, List.isPrefixOf_iff_prefix,
    List.prefix_iff_eq_take, eq_comm]
  simp [lower, List.map_take]

theorem breakAt?_startsWithName (needle t : Text) :
    (breakAt? (startsWithName needle) t).map (fun sides => sides.1.byteLength) =
      (breakAt? needle.lower.isPrefixOf t.lower).map fun sides => sides.1.byteLength := by
  induction t with
  | nil => rfl
  | cons c t ih =>
    -- A small letter has as many bytes as its capital, so the places are the same.
    have shown : lower (c :: t) = c.toLower :: lower t := rfl
    have size : c.toLower.utf8Size = c.utf8Size := by
      have := byteLength_lower [c]
      simpa [lower] using this
    rw [shown, breakAt?, breakAt?, ← shown, startsWithName_iff]
    split
    · rfl
    · have longer : ∀ found : Option (Text × Text), ∀ d : Char, d.utf8Size = c.utf8Size →
          (found.map fun sides => ((d :: sides.1, sides.2) : Text × Text)).map
              (fun sides => sides.1.byteLength) =
            (found.map fun sides => sides.1.byteLength).map (c.utf8Size + ·) := by
        rintro (_ | sides) d same <;> simp [same]
      rw [longer _ c rfl, longer _ _ size, ih]

/-- Searching the bytes without regard to case finds a name where searching the characters does. -/
theorem search?_name (before : Text) {needle : Text} (full : needle ≠ []) (t : Text) :
    Bytes.search? Bytes.sameName (before ++ t).bytes needle.bytes before.byteLength =
      some ((breakAt? (startsWithName needle) t).map fun sides =>
        before.byteLength + sides.1.byteLength) := by
  have full' : needle.lower.isEmpty = false := by simpa [lower] using full
  have lengths := congrArg (Option.map (before.byteLength + ·)) (breakAt?_startsWithName needle t)
  have shown : (before ++ t).bytes.map Bytes.lowerByte = (before.lower ++ t.lower).bytes := by
    simp
  rw [Bytes.search?_sameName, shown, ← bytes_lower, ← byteLength_lower before, search?_bytes,
    byteLength_lower, find?, full']
  simpa [Option.map_map, Function.comp_def] using lengths.symm

end Text
end TagLint
