import TagLint.Proofs.FittingEdits
import TagLint.Proofs.Reads

/-!
Texts and their bytes.

In UTF-8 the first byte of a character is none of its other bytes. So the bytes of a text stand
among those of a source only where the text itself stands in it, between characters, and a search
byte by byte finds no more than one character by character.
-/
namespace TagLint

namespace Text

/-- The bytes of the text in UTF-8. -/
def bytes (t : Text) : List UInt8 :=
  t.flatMap String.utf8EncodeChar

@[simp] theorem bytes_nil : bytes [] = [] := rfl

@[simp] theorem bytes_cons (c : Char) (t : Text) :
    bytes (c :: t) = String.utf8EncodeChar c ++ bytes t := rfl

@[simp] theorem bytes_append (s t : Text) : bytes (s ++ t) = bytes s ++ bytes t :=
  List.flatMap_append

theorem length_bytes (t : Text) : t.bytes.length = t.byteLength := by
  induction t with
  | nil => rfl
  | cons c t ih => rw [bytes_cons, List.length_append, String.length_utf8EncodeChar, ih]; rfl

/-- The bytes of a character are the start of those of no other one. -/
theorem encode_append_inj {c d : Char} {a b : List UInt8}
    (same : String.utf8EncodeChar c ++ a = String.utf8EncodeChar d ++ b) : c = d ∧ a = b := by
  have decoded (e : Char) (rest : List UInt8) :
      (String.utf8EncodeChar e ++ rest).toByteArray.utf8DecodeChar? 0 = some e := by
    rw [List.toByteArray_append]
    exact ByteArray.utf8DecodeChar?_utf8EncodeChar_append
  have first := decoded c a
  rw [same, decoded d b] at first
  obtain rfl := Option.some.inj first
  exact ⟨rfl, List.append_cancel_left same⟩

theorem prefix_of_bytes {needle t : Text} (starts : needle.bytes <+: t.bytes) : needle <+: t := by
  induction needle generalizing t with
  | nil => exact List.nil_prefix
  | cons c needle ih =>
    obtain ⟨rest, same⟩ := starts
    cases t with
    | nil =>
      have lengths := congrArg List.length same
      have := c.utf8Size_pos
      simp only [bytes_cons, bytes_nil, List.append_assoc, List.length_append, List.length_nil,
        String.length_utf8EncodeChar] at lengths
      omega
    | cons d t =>
      rw [bytes_cons, bytes_cons, List.append_assoc] at same
      obtain ⟨rfl, further⟩ := encode_append_inj same
      exact List.cons_prefix_cons.2 ⟨rfl, ih ⟨rest, further⟩⟩

/-- Where the first byte of a character is, a character begins. -/
theorem isBoundary_of_first {t : Text} {place : Nat} {byte : UInt8}
    (here : t.bytes[place]? = some byte) (first : byte.IsUTF8FirstByte) : t.IsBoundary place := by
  induction t generalizing place with
  | nil => simp at here
  | cons c t ih =>
    by_cases inside : place < c.utf8Size
    · -- Of the bytes of one character only the first one is such a byte.
      have long : place < (String.utf8EncodeChar c).length := by
        rwa [String.length_utf8EncodeChar]
      rw [bytes_cons, List.getElem?_append_left long, List.getElem?_eq_getElem long] at here
      obtain rfl := Option.some.inj here
      obtain rfl := UInt8.isUTF8FirstByte_getElem_utf8EncodeChar.1 first
      exact ⟨[], c :: t, rfl, rfl⟩
    · have long : (String.utf8EncodeChar c).length ≤ place := by
        rw [String.length_utf8EncodeChar]
        omega
      rw [bytes_cons, List.getElem?_append_right long, String.length_utf8EncodeChar] at here
      obtain ⟨before, after, rfl, place'⟩ := ih here
      refine ⟨c :: before, after, rfl, ?_⟩
      rw [byteLength_cons]
      omega

theorem head?_bytes {t : Text} (nonempty : t ≠ []) :
    ∃ byte, t.bytes.head? = some byte ∧ byte.IsUTF8FirstByte := by
  obtain ⟨c, t, rfl⟩ := List.exists_cons_of_ne_nil nonempty
  have long : 0 < (String.utf8EncodeChar c).length := by
    rw [String.length_utf8EncodeChar]
    exact c.utf8Size_pos
  refine ⟨(String.utf8EncodeChar c)[0], ?_, UInt8.isUTF8FirstByte_getElem_utf8EncodeChar.2 rfl⟩
  rw [bytes_cons, List.head?_eq_getElem?, List.getElem?_append_left long,
    List.getElem?_eq_getElem long]

/-- Whether the second text stands in the first one at the offset. -/
def StandsAt (source : Text) (place : Nat) (t : Text) : Prop :=
  ∃ before after, source = before ++ t ++ after ∧ before.byteLength = place

namespace StandsAt

variable {source : Text} {place : Nat} {s t : Text}

theorem left (stands : source.StandsAt place (s ++ t)) : source.StandsAt place s := by
  obtain ⟨before, after, rfl, here⟩ := stands
  exact ⟨before, t ++ after, by simp, here⟩

theorem right (stands : source.StandsAt place (s ++ t)) :
    source.StandsAt (place + s.byteLength) t := by
  obtain ⟨before, after, rfl, rfl⟩ := stands
  exact ⟨before ++ s, after, by simp, byteLength_append before s⟩

theorem isBoundary (stands : source.StandsAt place t) : source.IsBoundary place := by
  obtain ⟨before, after, rfl, here⟩ := stands
  exact ⟨before, t ++ after, by simp, here⟩

end StandsAt

/-- A text stands in a source just where its bytes are among those of the source. -/
theorem standsAt_iff_bytes {source needle : Text} (nonempty : needle ≠ []) (place : Nat) :
    source.StandsAt place needle ↔ needle.bytes <+: source.bytes.drop place := by
  constructor
  · rintro ⟨before, after, rfl, rfl⟩
    rw [bytes_append, bytes_append, List.append_assoc, ← length_bytes, List.drop_left]
    exact List.prefix_append _ _
  · intro starts
    obtain ⟨byte, head, first⟩ := head?_bytes nonempty
    have here : source.bytes[place]? = some byte := by
      obtain ⟨rest, same⟩ := starts
      obtain ⟨others, shown⟩ := List.head?_eq_some_iff.1 head
      rw [← List.head?_drop, ← same, shown, List.cons_append, List.head?_cons]
    obtain ⟨before, t, rfl, rfl⟩ := isBoundary_of_first here first
    rw [bytes_append, ← length_bytes, List.drop_left] at starts
    obtain ⟨after, rfl⟩ := prefix_of_bytes starts
    exact ⟨before, after, by simp, rfl⟩

/-- Searching finds the first place where the bytes of a text stand. -/
theorem bytes_of_find? {needle t body rest : Text} (found : find? needle t = some (body, rest)) :
    needle.bytes <+: t.bytes.drop body.byteLength ∧
      ∀ place < body.byteLength, ¬needle.bytes <+: t.bytes.drop place := by
  unfold find? at found
  split at found
  · contradiction
  next full =>
  have nonempty : needle ≠ [] := by simpa using full
  have joined := breakAt?_append found
  have starts : needle <+: rest := breakAt?_prefix found
  constructor
  · obtain ⟨after, rfl⟩ := starts
    exact (standsAt_iff_bytes nonempty _).1 ⟨body, after, by rw [← joined, List.append_assoc], rfl⟩
  · intro place earlier stands
    obtain ⟨before, after, split, rfl⟩ := (standsAt_iff_bytes nonempty _).2 stands
    -- The text would stand at a place that the search has passed over.
    have same : before ++ (needle ++ after) = body ++ rest := by
      rw [joined, split, List.append_assoc]
    obtain ⟨middle, rfl, here⟩ := exists_middle same (Nat.le_of_lt earlier)
    cases middle with
    | nil => simp at earlier
    | cons c r =>
      have passed := breakAt?_runs found c r (List.suffix_append before (c :: r))
      rw [← here, Bool.eq_false_iff] at passed
      exact passed (List.isPrefixOf_iff_prefix.2 (List.prefix_append needle after))

/-- What is not found has its bytes nowhere. -/
theorem bytes_of_find?_none {needle t : Text} (nonempty : needle ≠ [])
    (missing : find? needle t = none) (place : Nat) : ¬needle.bytes <+: t.bytes.drop place := by
  intro stands
  obtain ⟨before, after, rfl, rfl⟩ := (standsAt_iff_bytes nonempty _).2 stands
  obtain ⟨c, r, shown⟩ := List.exists_cons_of_ne_nil nonempty
  have full : needle.isEmpty = false := by simpa using nonempty
  simp only [find?, full, Bool.false_eq_true, if_false] at missing
  have passed := breakAt?_eq_none_iff.1 missing c (r ++ after) ⟨before, by rw [shown]; simp⟩
  rw [← List.cons_append, ← shown, Bool.eq_false_iff] at passed
  exact passed (List.isPrefixOf_iff_prefix.2 (List.prefix_append needle after))

end Text

end TagLint
