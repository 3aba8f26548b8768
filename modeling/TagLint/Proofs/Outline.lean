import TagLint.Markup.Build

/-!
Outlines: the pieces of a source, nested.

An outline puts each element's content between its opening tag and its closing tag, keeps every
piece, and says where each closing tag belongs without a stack: `Outline.Nested` states the rules
of nesting on the finished outline. Every list of pieces has such an outline.
-/
namespace TagLint

open Written (Piece OpenTag)

structure ClosingTag where
  name : Text
  tail : Text
  isClosed : Bool
  deriving DecidableEq, Repr

def ClosingTag.piece (close : ClosingTag) : Piece :=
  .closing close.name close.tail close.isClosed

/-- Pieces with what is nested in them, in source order. -/
inductive Outline where
  | nil
  /-- A piece that nothing is inside of; a closing tag here closes nothing. -/
  | single (piece : Piece) (next : Outline)
  /-- An element that waits for its closing tag, or one with a closing tag written right after
  its opening tag. -/
  | element (tag : OpenTag) (inside : Outline) (close : Option ClosingTag) (next : Outline)
  deriving Repr

/-- Whether one of the names is that of the root of a foreign subtree. -/
def isForeignIn (outer : List Text) : Bool :=
  outer.any isForeignRoot

/-- Whether the element is void inside the elements named `outer`. -/
def isVoidIn (outer : List Text) (name : Text) : Bool :=
  !isForeignIn outer && isVoidName name

namespace Written

/-- Whether an opening tag inside the elements named `outer` waits for a closing tag. -/
def OpenTag.waitsIn (outer : List Text) (tag : OpenTag) : Bool :=
  !(tag.isSelfClosing || isVoidIn outer tag.name)

/-- Whether the piece, written right after a void element, is its closing tag. -/
def Piece.closesVoid (tag : OpenTag) : Piece → Bool
  | .closing name tail isClosed =>
    Text.sameName name tag.name && tail.all isMarkupSpace && isClosed
  | _ => false

/-- Whether `piece`, which `next` comes after, is inside the elements named `outer` and has
nothing inside it: it opens nothing that waits, and closes none of the elements. -/
def Piece.StandsAlone (outer : List Text) (next : Option Piece) : Piece → Prop
  | .opening tag =>
    tag.waitsIn outer = false ∧
      (tag.isSelfClosing = false → ∀ piece ∈ next, piece.closesVoid tag = false)
  | .closing name _ _ => ∀ other ∈ outer, Text.sameName other name = false
  | _ => True

end Written

namespace Outline

def pieces : Outline → List Piece
  | nil => []
  | single piece next => piece :: next.pieces
  | element tag inside close next =>
    .opening tag :: (inside.pieces ++ (close.map ClosingTag.piece).toList ++ next.pieces)

/-- The names of the elements that still wait at the end of the outline, innermost first. -/
def unclosed : Outline → List Text
  | nil => []
  | single _ next => next.unclosed
  | element tag inside none _ => inside.unclosed ++ [tag.name]
  | element _ _ (some _) next => next.unclosed

/-- Whether `close` ends the element `tag` with the outline `inside` in it, inside the elements
named `outer`: it has the name, and nothing inside that waits has it too; or it is written right
after a void element. -/
def Closes (outer : List Text) (tag : OpenTag) (inside : Outline) (close : ClosingTag) : Prop :=
  (tag.waitsIn outer = true ∧ Text.sameName tag.name close.name = true ∧
      ∀ name ∈ inside.unclosed, Text.sameName name close.name = false) ∨
    (tag.isSelfClosing = false ∧ isVoidIn outer tag.name = true ∧ inside = nil ∧
      close.piece.closesVoid tag = true)

/-- The rules of nesting, inside the elements named `outer`, innermost first. An element without
a closing tag is the last of its siblings. -/
def Nested (outer : List Text) : Outline → Prop
  | nil => True
  | single piece next => piece.StandsAlone outer next.pieces.head? ∧ Nested outer next
  | element tag inside none next =>
    tag.waitsIn outer = true ∧ Nested (tag.name :: outer) inside ∧ next = nil
  | element tag inside (some close) next =>
    Nested (tag.name :: outer) inside ∧ Closes outer tag inside close ∧ Nested outer next

section Element

variable {outer : List Text} {tag : OpenTag} {inside next : Outline} {close : Option ClosingTag}

theorem nested_inside (nested : (element tag inside close next).Nested outer) :
    inside.Nested (tag.name :: outer) := by
  cases close with
  | none => exact nested.2.1
  | some close => exact nested.1

theorem nested_next (nested : (element tag inside close next).Nested outer) :
    next.Nested outer := by
  cases close with
  | none =>
    rw [nested.2.2]
    trivial
  | some close => exact nested.2.2

end Element

@[simp] theorem pieces_nil : nil.pieces = [] := rfl

@[simp] theorem pieces_single (piece : Piece) (next : Outline) :
    (single piece next).pieces = piece :: next.pieces := rfl

@[simp] theorem pieces_element (tag : OpenTag) (inside : Outline) (close : Option ClosingTag)
    (next : Outline) :
    (element tag inside close next).pieces =
      .opening tag :: (inside.pieces ++ (close.map ClosingTag.piece).toList ++ next.pieces) := rfl

theorem pieces_unclosed_append (tag : OpenTag) (inside : Outline) (more : List Piece) :
    (element tag inside none nil).pieces ++ more = .opening tag :: (inside.pieces ++ more) := by
  simp

theorem pieces_closed_append (tag : OpenTag) (inside next : Outline) (close : ClosingTag)
    (more : List Piece) :
    (element tag inside (some close) next).pieces ++ more =
      .opening tag :: (inside.pieces ++ (close.piece :: (next.pieces ++ more))) := by
  simp

/-- Whether the closing tag ends an element outside of the outline: one of those named `outer`,
and none that still waits inside. -/
def EndsAt (outer : List Text) (outline : Outline) (piece : Piece) : Prop :=
  ∃ close : ClosingTag, piece = close.piece ∧
    (∃ name ∈ outer, Text.sameName name close.name = true) ∧
    ∀ name ∈ outline.unclosed, Text.sameName name close.name = false

private theorem closes_or_not (outer : List Text) (name : Text) :
    (∃ other ∈ outer, Text.sameName other name = true) ∨
      ∀ other ∈ outer, Text.sameName other name = false := by
  by_cases found : outer.any fun other => Text.sameName other name
  · exact Or.inl (List.any_eq_true.1 found)
  · refine Or.inr ?_
    intro other member
    rw [Bool.not_eq_true, List.any_eq_false] at found
    simpa using found other member

/-- Whether some pieces from the start have an outline inside the elements named `outer`, and what
comes after them, if anything does, is a closing tag of one of those elements. -/
def Begins (outer : List Text) (pieces : List Piece) : Prop :=
  ∃ (outline : Outline) (rest : List Piece), outline.pieces ++ rest = pieces ∧
    outline.Nested outer ∧ ∀ piece ∈ rest.head?, outline.EndsAt outer piece

private theorem begins_single {outer : List Text} {piece : Piece} {others : List Piece}
    (begins : Begins outer others)
    (stands : ∀ next : Option Piece, (∀ p ∈ next, p ∈ others.head?) →
      piece.StandsAlone outer next) : Begins outer (piece :: others) := by
  obtain ⟨next, rest, joined, nested, ends⟩ := begins
  refine ⟨single piece next, rest, by simp [joined], ⟨stands _ ?_, nested⟩, ends⟩
  intro p first
  rw [← joined]
  cases shown : next.pieces with
  | nil => simp [shown] at first
  | cons q others => simpa [shown] using first

private theorem begins_element {outer : List Text} {tag : OpenTag} {others : List Piece}
    (waits : tag.waitsIn outer = true) (begins : Begins (tag.name :: outer) others)
    (onward : ∀ rest, rest.length < others.length → Begins outer rest) :
    Begins outer (.opening tag :: others) := by
  -- Its inside ends with the source, at its own closing tag, or at that of an element around it.
  obtain ⟨inside, rest, joined, nested, ends⟩ := begins
  cases rest with
  | nil => exact ⟨element tag inside none nil, [], by simpa using joined,
      ⟨waits, nested, rfl⟩, by simp⟩
  | cons piece rest =>
    obtain ⟨close, rfl, ⟨name, member, same⟩, apart⟩ := ends piece rfl
    by_cases own : Text.sameName tag.name close.name = true
    · -- What follows is shorter than what the induction was asked for, but no part of it.
      have fewer : rest.length < others.length := by
        rw [← joined]
        simp only [List.length_append, List.length_cons]
        omega
      obtain ⟨next, left, split, following, stops⟩ := onward rest fewer
      exact ⟨element tag inside (some close) next, left, by simp [← joined, ← split],
        ⟨nested, Or.inl ⟨waits, own, apart⟩, following⟩, stops⟩
    · -- The element stays open, and the closing tag is handed on to the elements around it.
      refine ⟨element tag inside none nil, close.piece :: rest, by simpa using joined,
        ⟨waits, nested, rfl⟩, ?_⟩
      rintro _ ⟨⟩
      have outside : name ∈ outer := by
        rcases List.mem_cons.1 member with rfl | outside
        · exact absurd same own
        · exact outside
      refine ⟨close, rfl, ⟨name, outside, same⟩, fun other still => ?_⟩
      rcases List.mem_append.1 still with deeper | this
      · exact apart other deeper
      · rw [List.mem_singleton.1 this]
        exact Bool.eq_false_iff.2 own

private theorem begins_void {outer : List Text} {tag : OpenTag} {close : ClosingTag}
    {others : List Piece} (plain : tag.isSelfClosing = false)
    (void : isVoidIn outer tag.name = true) (closes : close.piece.closesVoid tag = true)
    (begins : Begins outer others) : Begins outer (.opening tag :: close.piece :: others) := by
  obtain ⟨next, rest, joined, nested, ends⟩ := begins
  exact ⟨element tag nil (some close) next, rest, by simp [joined],
    ⟨trivial, Or.inr ⟨plain, void, rfl, closes⟩, nested⟩, ends⟩

/-- Inside any elements, every list of pieces begins with an outline. -/
theorem begins (outer : List Text) (pieces : List Piece) : Begins outer pieces := by
  -- Strong induction on the number of pieces: what follows an element is read after its inside.
  induction size : pieces.length using Nat.strongRecOn generalizing outer pieces with
  | ind size ih =>
    subst size
    have shorter (outer : List Text) (others : List Piece)
        (fewer : others.length < pieces.length) : Begins outer others :=
      ih others.length fewer outer others rfl
    match pieces, shorter with
    | [], _ => exact ⟨nil, [], rfl, trivial, by simp⟩
    | .text _ :: others, shorter | .comment _ _ :: others, shorter
    | .doctype _ _ :: others, shorter | .raw _ _ :: others, shorter =>
      exact begins_single (shorter outer others (by simp)) fun _ _ => trivial
    | .closing name tail isClosed :: others, shorter =>
      rcases closes_or_not outer name with closes | stray
      · refine ⟨nil, .closing name tail isClosed :: others, rfl, trivial, ?_⟩
        rintro _ ⟨⟩
        exact ⟨⟨name, tail, isClosed⟩, rfl, closes, by simp [unclosed]⟩
      · exact begins_single (shorter outer others (by simp)) fun _ _ => stray
    | .opening tag :: others, shorter =>
      cases waits : tag.waitsIn outer with
      | true =>
        exact begins_element waits (shorter _ others (by simp)) fun rest fewer =>
          shorter outer rest (by simp only [List.length_cons]; omega)
      | false =>
        -- A void element takes a closing tag only where it is the very next piece.
        by_cases closed : tag.isSelfClosing = false ∧ others.head?.any (Piece.closesVoid tag)
        · obtain ⟨plain, closes⟩ := closed
          have void : isVoidIn outer tag.name = true := by
            simpa [OpenTag.waitsIn, plain] using waits
          match others, closes, shorter with
          | .closing name tail isClosed :: others, closes, shorter =>
            let close : ClosingTag := ⟨name, tail, isClosed⟩
            have closes : close.piece.closesVoid tag = true := closes
            exact begins_void plain void closes
              (shorter outer others (by simp only [List.length_cons]; omega))
        · refine begins_single (shorter outer others (by simp)) fun next first =>
            ⟨waits, fun plain piece member => ?_⟩
          have follows : others.head? = some piece := first piece member
          rw [follows] at closed
          exact Bool.eq_false_iff.2 fun closes => closed ⟨plain, closes⟩

/-- Every list of pieces has an outline. -/
theorem exists_nested (pieces : List Piece) :
    ∃ outline : Outline, outline.pieces = pieces ∧ outline.Nested [] := by
  obtain ⟨outline, rest, joined, nested, ends⟩ := begins [] pieces
  -- Outside of all elements no closing tag is left over.
  cases rest with
  | nil => exact ⟨outline, by simpa using joined, nested⟩
  | cons piece rest =>
    obtain ⟨_, _, ⟨_, member, _⟩, _⟩ := ends piece rfl
    simp at member

end Outline
end TagLint
