/-!
Markup text as its characters, measured in the bytes of its UTF-8 form.

Every offset of this library counts bytes, and every cut is a cut between characters:
`Text.cut?` refuses an offset inside a character, so a span that selects a slice lies on
character boundaries.
-/
namespace TagLint

/-- Markup text, as its characters. -/
abbrev Text := List Char

namespace Text

/-- The number of bytes of the UTF-8 form. -/
def byteLength : Text → Nat
  | [] => 0
  | c :: t => c.utf8Size + byteLength t

/-- The empty text has no bytes. -/
@[simp] theorem byteLength_nil : byteLength [] = 0 := rfl

/-- A character adds its own bytes. -/
@[simp] theorem byteLength_cons (c : Char) (t : Text) :
    byteLength (c :: t) = c.utf8Size + byteLength t := rfl

/-- Lengths add up. -/
@[simp] theorem byteLength_append (s t : Text) :
    byteLength (s ++ t) = byteLength s + byteLength t := by
  induction s with
  | nil => simp
  | cons c s ih => simp [ih, Nat.add_assoc]

theorem byteLength_pos {t : Text} (nonempty : t ≠ []) : 0 < t.byteLength := by
  cases t with
  | nil => exact absurd rfl nonempty
  | cons c t =>
    have := c.utf8Size_pos
    rw [byteLength_cons]
    omega

/-- Of two cuts of a text the one with fewer bytes before it comes first. -/
theorem exists_middle {s t u v : Text} (same : s ++ t = u ++ v)
    (before : s.byteLength ≤ u.byteLength) : ∃ middle, u = s ++ middle ∧ t = middle ++ v := by
  rcases List.append_eq_append_iff.1 same with ⟨middle, first, second⟩ | ⟨middle, first, second⟩
  · exact ⟨middle, first, second⟩
  · -- Then `s` is no shorter than `u`, and they are the same.
    by_cases empty : middle = []
    · subst empty
      exact ⟨[], by simpa using first.symm, by simpa using second.symm⟩
    · have := byteLength_pos empty
      have lengths := congrArg byteLength first
      rw [byteLength_append] at lengths
      omega

/-- The two sides of byte offset `n`; `none` past the end or inside a character. -/
def cut? : Nat → Text → Option (Text × Text)
  | 0, t => some ([], t)
  | _ + 1, [] => none
  | n + 1, c :: t =>
    if c.utf8Size ≤ n + 1 then
      (cut? (n + 1 - c.utf8Size) t).map fun sides => (c :: sides.1, sides.2)
    else none

/-- The text of the byte range from `start` to `stop`; `none` unless both are boundaries in
order. -/
def slice? (t : Text) (start stop : Nat) : Option Text :=
  if start ≤ stop then
    (cut? start t).bind fun sides => (cut? (stop - start) sides.2).map Prod.fst
  else none

/-- Splits before the first suffix that satisfies `found`; the empty suffix is not tried. -/
def breakAt? (found : Text → Bool) : Text → Option (Text × Text)
  | [] => none
  | c :: t =>
    if found (c :: t) then some ([], c :: t)
    else (breakAt? found t).map fun sides => (c :: sides.1, sides.2)

/-- Splits before the first occurrence of `needle`; an empty needle occurs nowhere. -/
def find? (needle t : Text) : Option (Text × Text) :=
  if needle.isEmpty then none else breakAt? needle.isPrefixOf t

/-- The two sides of a break make up the text. -/
theorem breakAt?_append {found : Text → Bool} {t before rest : Text}
    (split : breakAt? found t = some (before, rest)) : before ++ rest = t := by
  induction t generalizing before rest with
  | nil => simp [breakAt?] at split
  | cons c t ih =>
    simp only [breakAt?] at split
    split at split
    · simp_all
    · obtain ⟨⟨left, right⟩, inner, same⟩ := Option.map_eq_some_iff.1 split
      simp only [Prod.mk.injEq] at same
      obtain ⟨rfl, rfl⟩ := same
      simp [ih inner]

theorem breakAt?_prefix {needle t before rest : Text}
    (split : breakAt? needle.isPrefixOf t = some (before, rest)) : needle <+: rest := by
  induction t generalizing before rest with
  | nil => simp [breakAt?] at split
  | cons c t ih =>
    simp only [breakAt?] at split
    split at split
    next starts =>
      simp only [Option.some.injEq, Prod.mk.injEq] at split
      exact split.2 ▸ List.isPrefixOf_iff_prefix.1 starts
    · obtain ⟨⟨left, right⟩, inner, same⟩ := Option.map_eq_some_iff.1 split
      simp only [Prod.mk.injEq] at same
      exact same.2 ▸ ih inner

theorem find?_append {needle t before rest : Text}
    (split : find? needle t = some (before, rest)) : before ++ rest = t := by
  unfold find? at split
  split at split
  · simp at split
  · exact breakAt?_append split

theorem find?_prefix {needle t before rest : Text}
    (split : find? needle t = some (before, rest)) : needle <+: rest := by
  unfold find? at split
  split at split
  · simp at split
  · exact breakAt?_prefix split

/-- Replaces each occurrence of a non-empty `needle`, from left to right; `skip` counts the
characters of the occurrence being passed over. -/
def replaceFrom (needle replacement : Text) : Nat → Text → Text
  | _, [] => []
  | skip + 1, _ :: t => replaceFrom needle replacement skip t
  | 0, c :: t =>
    if needle.isPrefixOf (c :: t) then
      replacement ++ replaceFrom needle replacement (needle.length - 1) t
    else c :: replaceFrom needle replacement 0 t

/-- Replaces every occurrence of `needle`, which is not empty, from left to right. -/
def replace (needle replacement t : Text) : Text :=
  replaceFrom needle replacement 0 t

/-- The pieces between the characters that satisfy `isSeparator`; one more than there are of
them. -/
def splitOn (isSeparator : Char → Bool) : Text → List Text
  | [] => [[]]
  | c :: t =>
    if isSeparator c then [] :: splitOn isSeparator t
    else match splitOn isSeparator t with
      | first :: others => (c :: first) :: others
      | [] => [[c]]

def dropFinal (c : Char) (t : Text) : Text :=
  if t.getLast? = some c then t.dropLast else t

end Text
end TagLint
