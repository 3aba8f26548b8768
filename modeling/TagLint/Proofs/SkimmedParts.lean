import Mathlib.Data.List.Chain
import TagLint.Proofs.ByteSearch
import TagLint.Proofs.Feeding

/-!
Template regions are recognised twice, in the same way.

First when a scanner skims a text and passes over them, with all of the source before it, and once
more when what it took is divided into parts. A region that is passed over ends before the scanner
does, so dividing finds the same one (`Part.divide_skim`). In the source a region starts where the
first pair has its opening delimiter, byte by byte, and ends with the first closing delimiter after
it, or with the source.
-/
namespace TagLint

/-- The parts of what is skimmed: the regions that are passed over, and the plain text between
them. -/
def Part.skimmed (pairs : List Delimiters) (stops : Text → Bool) : Text → List Part
  | [] => []
  | c :: t =>
    if stops (c :: t) then []
    else match _found : Template.region? pairs (c :: t) [] with
      | some (region, rest) => ⟨true, region⟩ :: skimmed pairs stops rest
      | none => consPlain c (skimmed pairs stops t)
termination_by t => t.length
decreasing_by
  · exact Template.region?_rest_lt (by assumption)
  · simp

namespace Delimiters

/-- Whether the opening delimiter, if it is not empty, stands in the source at the offset. -/
def OpensAt (pair : Delimiters) (source : Text) (place : Nat) : Prop :=
  pair.opening ≠ [] ∧ pair.opening.bytes <+: source.bytes.drop place

/-- Whether the closing delimiter, if it is not empty, stands in the source at the offset. -/
def ClosesAt (pair : Delimiters) (source : Text) (place : Nat) : Prop :=
  pair.closing ≠ [] ∧ pair.closing.bytes <+: source.bytes.drop place

/-- Where a region of the pair stops that starts at `start`. -/
inductive Encloses (pair : Delimiters) (source : Text) (start : Nat) : Nat → Prop where
  /-- The first closing delimiter after the opening one ends the region. -/
  | closed (place : Nat) (closes : pair.ClosesAt source place)
      (after : start + pair.opening.byteLength ≤ place)
      (first : ∀ earlier, start + pair.opening.byteLength ≤ earlier → earlier < place →
        ¬pair.ClosesAt source earlier) :
      Encloses pair source start (place + pair.closing.byteLength)
  /-- Where there is none the region goes on to the end of the source. -/
  | unclosed (never : ∀ place, start + pair.opening.byteLength ≤ place →
        ¬pair.ClosesAt source place) :
      Encloses pair source start source.byteLength

end Delimiters

namespace Template

/-- Whether no region starts in the source at the offset. -/
def IsPlainAt (pairs : List Delimiters) (source : Text) (place : Nat) : Prop :=
  ∀ pair ∈ pairs, ¬pair.OpensAt source place

/-- Whether the span is a region of the first pair that opens at its start. -/
def IsRegion (pairs : List Delimiters) (source : Text) (span : Span) : Prop :=
  ∃ earlier pair later, pairs = earlier ++ pair :: later ∧
    (∀ other ∈ earlier, ¬other.OpensAt source span.start) ∧
    pair.OpensAt source span.start ∧ pair.Encloses source span.start span.stop

end Template

namespace Text

theorem bytes_prefix_iff {needle t : Text} : needle.bytes <+: t.bytes ↔ needle <+: t := by
  refine ⟨prefix_of_bytes, ?_⟩
  rintro ⟨rest, rfl⟩
  rw [bytes_append]
  exact List.prefix_append _ _

theorem drop_bytes_append (before t : Text) (place : Nat) :
    (before ++ t).bytes.drop (before.byteLength + place) = t.bytes.drop place := by
  rw [bytes_append, ← length_bytes, ← List.drop_drop, List.drop_left]

end Text

section Opener

open Template

variable {pairs : List Delimiters} {pair : Delimiters}

theorem Delimiters.opensAt_iff {before t : Text} :
    pair.OpensAt (before ++ t) before.byteLength ↔ pair.opening ≠ [] ∧ pair.opening <+: t := by
  rw [OpensAt, ← Nat.add_zero before.byteLength, Text.drop_bytes_append, List.drop_zero,
    Text.bytes_prefix_iff]

/-- Inside a character nothing opens. -/
theorem Delimiters.OpensAt.isBoundary {source : Text} {place : Nat}
    (opens : pair.OpensAt source place) : source.IsBoundary place :=
  ((Text.standsAt_iff_bytes opens.1 place).2 opens.2).isBoundary

private theorem opens_iff (before t following : Text) :
    (!pair.opening.isEmpty && startsAcross following pair.opening t) = true ↔
      pair.OpensAt (before ++ (t ++ following)) before.byteLength := by
  rw [Delimiters.opensAt_iff, Bool.and_eq_true, startsAcross_iff, Bool.not_eq_true',
    List.isEmpty_eq_false_iff]

/-- What opens is asked of all the text that comes. -/
theorem Template.opener?_append (pairs : List Delimiters) (t following : Text) :
    opener? pairs t following = opener? pairs (t ++ following) [] := by
  unfold opener?
  congr 1
  funext pair
  rw [Bool.eq_iff_iff, opens_iff [], opens_iff [], List.append_nil]

theorem Template.opener?_eq_some_iff (before : Text) {t : Text} :
    opener? pairs t [] = some pair ↔
      pair.OpensAt (before ++ t) before.byteLength ∧
        ∃ earlier later, pairs = earlier ++ pair :: later ∧
          ∀ other ∈ earlier, ¬other.OpensAt (before ++ t) before.byteLength := by
  have test (other : Delimiters) :
      (!other.opening.isEmpty && startsAcross [] other.opening t) = true ↔
        other.OpensAt (before ++ (t ++ [])) before.byteLength :=
    opens_iff before t []
  rw [opener?, List.find?_eq_some_iff_append, test, List.append_nil]
  simp only [Bool.not_eq_true', ← Bool.not_eq_true, test, List.append_nil]

theorem Template.isPlainAt_iff {before t : Text} :
    IsPlainAt pairs (before ++ t) before.byteLength ↔ opener? pairs t [] = none := by
  simp only [IsPlainAt, Delimiters.opensAt_iff, opener?_eq_none_iff, not_and]

/-- Where a character begins at which nothing opens, nothing opens up to its end. -/
theorem Template.isPlainAt_of_char {before t : Text} {c : Char} {place : Nat}
    (plain : opener? pairs (c :: t) [] = none) (start : before.byteLength ≤ place)
    (stop : place < before.byteLength + c.utf8Size) : IsPlainAt pairs (before ++ c :: t) place := by
  intro pair member opens
  obtain ⟨middle, after, split, here⟩ := opens.isBoundary.exists_between start
  cases middle with
  | nil =>
    rw [List.append_nil] at here
    exact isPlainAt_iff.2 plain pair member (here ▸ opens)
  | cons d middle =>
    -- A boundary after the first one is after the character.
    obtain ⟨rfl, _⟩ := List.cons.inj split
    rw [Text.byteLength_append, Text.byteLength_cons] at here
    omega

end Opener

namespace Template

variable {pairs : List Delimiters} {stops : Text → Bool} {before t region rest : Text}

/-- What is found as a region is one in the source. -/
theorem isRegion_of_region? (found : region? pairs t [] = some (region, rest)) :
    IsRegion pairs (before ++ t)
      ⟨before.byteLength, before.byteLength + region.byteLength⟩ := by
  have joined := region?_append found
  obtain ⟨pair, opener, ends⟩ := region?_spec found
  obtain ⟨opens, earlier, later, split, others⟩ := (opener?_eq_some_iff before).1 opener
  refine ⟨earlier, pair, later, split, others, opens, ?_⟩
  obtain ⟨inside, shown⟩ : pair.opening <+: t := (Delimiters.opensAt_iff.1 opens).2
  have size : before.byteLength + pair.opening.byteLength = (before ++ pair.opening).byteLength :=
    (Text.byteLength_append _ _).symm
  -- After the opening delimiter the source is searched as the text after it is.
  have after (place : Nat) : pair.ClosesAt (before ++ t)
      (before.byteLength + pair.opening.byteLength + place) ↔
        pair.closing ≠ [] ∧ pair.closing.bytes <+: (Text.bytes inside).drop place := by
    rw [Delimiters.ClosesAt, ← shown, ← List.append_assoc, size, Text.drop_bytes_append]
  rcases ends with ⟨body, rfl, place⟩ | ⟨rfl, rfl, missing⟩
  · obtain rfl : inside = body ++ (pair.closing ++ rest) := by
      rw [← joined, List.append_assoc, List.append_assoc] at shown
      simpa using shown
    have full : pair.closing ≠ [] := by
      intro empty
      simp [Text.find?, empty] at place
    obtain ⟨here, earlier⟩ := Text.bytes_of_find? place
    have stop : before.byteLength + (pair.opening ++ body ++ pair.closing).byteLength =
        before.byteLength + pair.opening.byteLength + body.byteLength +
          pair.closing.byteLength := by
      simp only [Text.byteLength_append]
      omega
    rw [stop]
    refine .closed _ ((after _).2 ⟨full, here⟩) (Nat.le_add_right _ _) ?_
    intro other first less
    obtain ⟨offset, rfl⟩ := Nat.exists_eq_add_of_le first
    rw [after]
    exact fun closes => earlier offset (Nat.lt_of_add_lt_add_left less) closes.2
  · rw [← Text.byteLength_append]
    refine .unclosed fun other first => ?_
    obtain ⟨offset, rfl⟩ := Nat.exists_eq_add_of_le first
    rw [after]
    rintro ⟨full, closes⟩
    rw [← shown, List.drop_left] at missing
    exact Text.bytes_of_find?_none full missing offset closes

/-- A region is the same one in a text that ends after it, if what comes next is known. -/
theorem region?_shorten {s u : Text}
    (found : region? pairs (region ++ (s ++ u)) [] = some (region, s ++ u)) :
    region? pairs (region ++ s) u = some (region, s) := by
  obtain ⟨pair, opens, ⟨body, rfl, place⟩ | ⟨_, last, _⟩⟩ := region?_spec found
  · refine region?_closed ?_ (Text.find?_stable place s)
    rw [opener?_append, List.append_assoc _ s u]
    exact opens
  · obtain ⟨rfl, rfl⟩ := List.append_eq_nil_iff.1 last
    exact found

end Template

namespace Part

variable {pairs : List Delimiters} {stops : Text → Bool}

/-- Dividing what is skimmed finds the regions that skimming passed over. -/
theorem divide_skim (pairs : List Delimiters) (stops : Text → Bool) (t : Text) :
    divide pairs (Template.skim pairs stops t).2 (Template.skim pairs stops t).1 =
      skimmed pairs stops t := by
  fun_induction skimmed pairs stops t with
  | case1 => simp [Template.skim, divide]
  | case2 c t here =>
    rw [Template.skim_stop pairs here]
    simp [divide]
  | case3 c t runs region rest found ih =>
    have joined := Template.region?_append found
    -- All of the region is skimmed, so dividing finds it whole.
    obtain ⟨d, region, rfl⟩ := List.exists_cons_of_ne_nil
      (Template.region?_ne_nil (List.cons_ne_nil c t) found)
    have again : Template.region? pairs (d :: region ++ (Template.skim pairs stops rest).1)
        (Template.skim pairs stops rest).2 =
          some (d :: region, (Template.skim pairs stops rest).1) := by
      refine Template.region?_shorten ?_
      rw [Template.skim_append, joined]
      exact found
    rw [Template.skim_region (by simpa using runs) found, List.cons_append, divide]
    split
    next found' =>
      rw [← List.cons_append, again] at found'
      cases found'
      rw [ih]
    next missing =>
      rw [← List.cons_append, again] at missing
      contradiction
  | case4 c t runs plain ih =>
    -- An opening delimiter that reaches over the end of what is skimmed would have been seen too.
    have again : Template.region? pairs (c :: (Template.skim pairs stops t).1)
        (Template.skim pairs stops t).2 = none := by
      have joined := Template.skim_append pairs stops t
      rw [Template.region?_eq_none_iff] at plain
      rw [Template.region?, Template.opener?_append, List.cons_append, joined, plain]
      rfl
    rw [Template.skim_char (by simpa using runs) plain, divide]
    split
    next found =>
      rw [again] at found
      contradiction
    · rw [ih]

/-- The parts of what is skimmed make up what is skimmed. -/
theorem join_skimmed (pairs : List Delimiters) (stops : Text → Bool) (t : Text) :
    join (skimmed pairs stops t) = (Template.skim pairs stops t).1 := by
  rw [← divide_skim, join_divide]

theorem map_isTemplate_consPlain (c : Char) (parts : List Part) :
    (consPlain c parts).map isTemplate = parts.map isTemplate ∨
      (consPlain c parts).map isTemplate = false :: parts.map isTemplate ∧
        ∀ part ∈ parts.head?, part.isTemplate = true := by
  unfold consPlain
  split
  · exact Or.inl rfl
  next other =>
    refine Or.inr ⟨rfl, ?_⟩
    cases parts with
    | nil => simp
    | cons part parts =>
      obtain ⟨isTemplate, text⟩ := part
      cases isTemplate with
      | false => exact absurd rfl (other text parts)
      | true => simp

/-- Plain text does not come right after plain text. -/
theorem isChain_divide (pairs : List Delimiters) (following t : Text) :
    ((divide pairs following t).map isTemplate).IsChain fun a b => a = true ∨ b = true := by
  fun_induction divide pairs following t with
  | case1 => exact .nil
  | case2 c t region rest _ ih => exact List.isChain_cons.2 ⟨fun _ _ => Or.inl rfl, ih⟩
  | case3 c t _ ih =>
    rcases map_isTemplate_consPlain c (divide pairs following t) with same | ⟨more, first⟩
    · rw [same]
      exact ih
    · rw [more]
      refine List.isChain_cons.2 ⟨fun next head => Or.inr ?_, ih⟩
      rw [List.head?_map] at head
      obtain ⟨part, shown, rfl⟩ := Option.map_eq_some_iff.1 head
      exact first part shown

end Part
end TagLint
