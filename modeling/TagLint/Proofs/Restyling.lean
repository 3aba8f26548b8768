import TagLint.Proofs.ElementTree
import TagLint.Proofs.Weaving

/-!
Reading an outline again whose tags have got other ends.

`Outline.Restyles` says what may be written for an outline: tags end in another way, and where only
blanks are inside an element it may close itself, without its closing tag. What is read of such a
text has the same element tree, as long as no opening delimiter comes to stand where a tag ends or a
closing tag was. A tag that no longer closes itself may come to be open, as long as
nothing of the element tree comes after it among its siblings and no element around it is called the
same.
-/
namespace TagLint

open Written (Piece OpenTag Ending Construct endsContent)

variable {pairs : List Delimiters}

namespace Written

/-- Whether the piece is blank text, or a closing tag. -/
def Piece.isBlank : Piece → Bool
  | .text content => content.text.isBlank
  | .closing _ _ _ => true
  | _ => false

namespace Piece

/-- Blanks are a text again before what has come after them, or become part of the text there. -/
theorem scan_blank {content : Fragment} {s t : Text} (blank : content.text.isBlank = true)
    (nonempty : content.text ≠ []) (quiet : Quiet pairs content.text s t) (ends : s = [] → t = [])
    (read : scan pairs (content.text ++ s) = (.text content, s)) :
    ∃ content', scan pairs (content.text ++ t) =
        (.text content', (Template.skim pairs (endsContent pairs) t).2) ∧
      content'.text = content.text ++ (Template.skim pairs (endsContent pairs) t).1 := by
  have skimmed := (skim_of_scan_text read).2
  have plain (c : Char) (r u : Text) (suffix : c :: r <:+ content.text) :
      Construct.of? (c :: r ++ u) = none := by
    apply Construct.of?_plain
    rintro rfl
    have among := List.all_eq_true.1 blank '<' (suffix.subset List.mem_cons_self)
    simp [isBlankChar] at among
  have again : Template.skim pairs (endsContent pairs) (content.text ++ t) =
      (content.text ++ (Template.skim pairs (endsContent pairs) t).1,
        (Template.skim pairs (endsContent pairs) t).2) := by
    by_cases left : s = []
    · rw [left, List.append_nil] at skimmed
      rw [ends left, List.append_nil, skimmed]
      simp [Template.skim]
    · refine skim_text_stable quiet left (fun c r suffix begins => ?_) skimmed
      rw [plain c r t suffix] at begins
      contradiction
  obtain ⟨c, x, shown⟩ := List.exists_cons_of_ne_nil nonempty
  have unmarked : Construct.of? (content.text ++ t) = none := by
    rw [shown]
    exact plain c x t (by rw [shown])
  simp only [scan, unmarked, again]
  exact ⟨_, rfl, rfl⟩

end Piece

end Written

/-- Whether opening delimiters leave alone two texts that have come together, where a closing tag
was between them. -/
structure OpenersApartAt (pairs : List Delimiters) (s t : Text) : Prop where
  /-- An opening delimiter that begins in the first text ends in it. -/
  quiet : Quiet pairs s [] t
  /-- Markup behind a blank does not begin with an opening delimiter. -/
  markup : ∀ (r : Text) (c : Char), s = r ++ [c] → isBlankChar c = true →
    (Construct.of? t).isSome = true → Template.opener? pairs t [] = none

/-! ### Blanks before an outline -/

namespace Outline

/-- Whether the second outline is read where the first one was after the text has been put before
it, with the same elements. -/
structure Padded (pairs : List Delimiters) (outer : List Text) (x : Text) (outline padded : Outline)
    (more : List Piece) : Prop where
  nested : padded.Nested outer
  reads : Piece.Reads pairs (padded.pieces ++ more)
  shown : Piece.renderAll padded.pieces = x ++ Piece.renderAll outline.pieces
  unclosed : padded.unclosed = outline.unclosed
  elements : padded.elements = outline.elements

section Pad

variable {outer : List Text} {outline : Outline} {more : List Piece}

/-- Blanks are read as a text of their own, or become part of the text that comes next. -/
private theorem exists_padded_text {content : Fragment} {others : List Piece}
    (blank : content.text.isBlank = true)
    (before : Piece.Reads pairs (.text content :: others)) (nested : outline.Nested outer)
    (reads : Piece.Reads pairs (outline.pieces ++ more))
    (quiet : Quiet pairs content.text (Piece.renderAll others)
      (Piece.renderAll (outline.pieces ++ more)))
    (ends : others = [] → outline.pieces ++ more = [])
    (other : ∀ first ∈ more.head?, first.isText = false)
    (stops : (Construct.of? (Piece.renderAll (outline.pieces ++ more))).isSome = true →
      endsContent pairs (Piece.renderAll (outline.pieces ++ more)) = true) :
    ∃ padded, Padded pairs outer content.text outline padded more := by
  have nonempty : content.text ≠ [] := before.1
  have finished : Piece.renderAll others = [] → Piece.renderAll (outline.pieces ++ more) = [] := by
    intro empty
    rw [ends (before.2.2.eq_nil empty)]
    rfl
  obtain ⟨content', read, own⟩ := Piece.scan_blank blank nonempty quiet finished before.2.1
  by_cases text : ∃ fragment next, outline = single (.text fragment) next
  · obtain ⟨fragment, next, rfl⟩ := text
    obtain ⟨_, again, further⟩ := reads
    have skimmed : Template.skim pairs (endsContent pairs)
        (fragment.text ++ Piece.renderAll (next.pieces ++ more)) =
          (fragment.text, Piece.renderAll (next.pieces ++ more)) :=
      (Piece.skim_of_scan_text again).2
    have joined : Piece.renderAll ((single (.text fragment) next).pieces ++ more) =
        fragment.text ++ Piece.renderAll (next.pieces ++ more) := by
      simp [Piece.renderAll, Piece.render]
    rw [joined, skimmed] at read own
    simp only at own
    rw [← List.append_assoc, ← own] at read
    refine ⟨single (.text content') next, ⟨trivial, nested.2⟩, ⟨?_, read, further⟩, ?_, rfl, rfl⟩
    · simp [Piece.render, own, nonempty]
    · simp [Piece.renderAll, Piece.render, own]
  · have solidHead : ∀ first ∈ (outline.pieces ++ more).head?, first.isText = false := by
      intro first head
      cases outline with
      | nil => exact other first head
      | single piece next =>
        obtain rfl : piece = first := Option.some.inj head
        cases piece with
        | text fragment => exact absurd ⟨fragment, next, rfl⟩ text
        | _ => rfl
      | element tag inside close next =>
        obtain rfl : Piece.opening tag = first := Option.some.inj head
        rfl
    -- What does not begin with text ends the blanks.
    have stopped : Template.skim pairs (endsContent pairs)
        (Piece.renderAll (outline.pieces ++ more)) =
          ([], Piece.renderAll (outline.pieces ++ more)) := by
      by_cases full : outline.pieces ++ more = []
      · rw [full]
        simp [Piece.renderAll, Template.skim]
      · have ended := stops (reads.begins full solidHead)
        obtain ⟨c, r, shown⟩ := List.exists_cons_of_ne_nil fun empty => full (reads.eq_nil empty)
        rw [shown] at ended ⊢
        exact Template.skim_stop pairs ended
    rw [stopped, List.append_nil] at own
    rw [stopped] at read
    rw [← own] at read nonempty
    refine ⟨single (.text content') outline, ⟨trivial, nested⟩, reads.cons rfl nonempty read, ?_,
      rfl, rfl⟩
    simp [Piece.renderAll, Piece.render, own]

/-- Blank pieces are read again before another outline. -/
theorem exists_padded {inside : Outline} {others : List Piece}
    (blank : ∀ piece ∈ inside.pieces, piece.isBlank = true) (standing : inside.Nested outer)
    (before : Piece.Reads pairs (inside.pieces ++ others)) (nested : outline.Nested outer)
    (reads : Piece.Reads pairs (outline.pieces ++ more))
    (quiet : Quiet pairs (Piece.renderAll inside.pieces) (Piece.renderAll others)
      (Piece.renderAll (outline.pieces ++ more)))
    (ends : others = [] → outline.pieces ++ more = [])
    (other : ∀ first ∈ more.head?, first.isText = false)
    (stops : ∀ front content, inside.pieces = front ++ [.text content] →
      (Construct.of? (Piece.renderAll (outline.pieces ++ more))).isSome = true →
        endsContent pairs (Piece.renderAll (outline.pieces ++ more)) = true) :
    ∃ padded, Padded pairs outer (Piece.renderAll inside.pieces) outline padded more ∧
      (inside ≠ nil → endsContent pairs (Piece.renderAll (inside.pieces ++ others)) = true →
        endsContent pairs (Piece.renderAll (padded.pieces ++ more)) = true) := by
  -- From the last blank piece to the first; what comes after one is blank pieces and the outline.
  induction inside with
  | nil => exact ⟨outline, ⟨nested, reads, rfl, rfl, rfl⟩, fun full => absurd rfl full⟩
  | element tag inside close next =>
    have := blank (.opening tag) (by simp)
    contradiction
  | single piece next ih =>
    rw [pieces_single, Piece.renderAll_cons] at quiet
    obtain ⟨padded, rest, restStops⟩ := ih (fun q member => blank q (List.mem_cons_of_mem _ member))
      standing.2 before.2.2 (quiet.within (List.suffix_append _ _))
      fun front content last => stops (piece :: front) content (by simp [last])
    have shown : Piece.renderAll (single piece next).pieces ++ Piece.renderAll outline.pieces =
        piece.render ++ Piece.renderAll padded.pieces := by
      rw [rest.shown]
      simp [Piece.renderAll]
    have joined : Piece.renderAll (padded.pieces ++ more) =
        Piece.renderAll next.pieces ++ Piece.renderAll (outline.pieces ++ more) := by
      rw [Piece.renderAll_append, rest.shown, List.append_assoc, ← Piece.renderAll_append]
    have onward : Quiet pairs piece.render (Piece.renderAll (next.pieces ++ others))
        (Piece.renderAll (padded.pieces ++ more)) := by
      rw [joined, Piece.renderAll_append]
      exact quiet.append_left
    have finished : next.pieces ++ others = [] → padded.pieces ++ more = [] := by
      intro empty
      obtain ⟨noneNext, noneLeft⟩ := List.append_eq_nil_iff.1 empty
      apply rest.reads.eq_nil
      rw [joined, noneNext, ends noneLeft]
      rfl
    cases piece with
    | text content =>
      have before : Piece.Reads pairs (.text content :: (next.pieces ++ others)) := before
      have stopsHere : (Construct.of? (Piece.renderAll (padded.pieces ++ more))).isSome = true →
          endsContent pairs (Piece.renderAll (padded.pieces ++ more)) = true := by
        by_cases last : next = nil
        · subst last
          rw [joined]
          exact stops [] content rfl
        · refine fun _ => restStops last (before.stops fun empty => last ?_)
          have nothing := (List.append_eq_nil_iff.1 (before.2.2.eq_nil empty)).1
          cases next with
          | nil => rfl
          | single | element => simp at nothing
      obtain ⟨padded', more_blank⟩ := exists_padded_text
        (blank (.text content) List.mem_cons_self) before rest.nested rest.reads onward finished
        other stopsHere
      refine ⟨padded', ⟨more_blank.nested, more_blank.reads, more_blank.shown.trans shown.symm,
        more_blank.unclosed.trans rest.unclosed, more_blank.elements.trans rest.elements⟩,
        fun _ ended => ?_⟩
      have plain : Construct.of? (Piece.renderAll (.text content :: (next.pieces ++ others))) =
          none := (Piece.skim_of_scan_text before.2.1).1
      have begins := (Bool.and_eq_true_iff.1 ended).1
      rw [pieces_single, List.cons_append, plain] at begins
      contradiction
    | closing name tail isClosed =>
      let close : ClosingTag := ⟨name, tail, isClosed⟩
      have stray : Piece.Reads pairs (close.piece :: (next.pieces ++ others)) := before
      have again := stray.keep_closing rest.reads finished
      exact ⟨single (.closing name tail isClosed) padded,
        ⟨⟨standing.1, rest.nested⟩, again, shown.symm, rest.unclosed, rest.elements⟩,
        fun _ => stray.endsContent_of_bare again rfl onward⟩
    | _ =>
      have := blank _ List.mem_cons_self
      contradiction

end Pad

/-! ### What may be written for an outline -/

/-- Whether the text is what may be written, between `left` and `right`, for the outline inside the
elements named `outer`: some tags end in another way, and some elements with only blanks inside
close themselves. -/
inductive Restyles (pairs : List Delimiters) :
    List Text → Text → Outline → Text → Text → Prop where
  | nil {outer : List Text} {left right : Text} : Restyles pairs outer left nil [] right
  | single {outer : List Text} {left t right : Text} {next : Outline} (piece : Piece)
      (rest : Restyles pairs outer (left ++ piece.render) next t right) :
      Restyles pairs outer left (single piece next) (piece.render ++ t) right
  | element {outer : List Text} {left s t right : Text} {tag : OpenTag} {inside next : Outline}
      (close : ClosingTag)
      (within : Restyles pairs (tag.name :: outer) (left ++ tag.render) inside s
        (close.piece.render ++ (t ++ right)))
      (rest : Restyles pairs outer (left ++ tag.render ++ s ++ close.piece.render) next t right) :
      Restyles pairs outer left (element tag inside (some close) next)
        (tag.render ++ (s ++ (close.piece.render ++ t))) right
  | unclosed {outer : List Text} {left s right : Text} {tag : OpenTag} {inside : Outline}
      (within : Restyles pairs (tag.name :: outer) (left ++ tag.render) inside s right) :
      Restyles pairs outer left (element tag inside none nil) (tag.render ++ s) right
  /-- A tag that is open with its new end takes in what comes after it. -/
  | mend {outer : List Text} {left t right : Text} {tag : OpenTag} {next : Outline}
      {ending : Ending} (ends : ending ≠ .unfinished) (admits : tag.admits pairs ending = true)
      (spare : OpenersApartFrom pairs (left ++ tag.head) ending.mended (t ++ right))
      (apart : (tag.mend ending).waitsIn outer = true →
        next.elements = .nil ∧ ∀ other ∈ outer, Text.sameName other tag.name = false)
      (rest : Restyles pairs outer (left ++ (tag.mend ending).render) next t right) :
      Restyles pairs outer left (single (.opening tag) next) ((tag.mend ending).render ++ t) right
  | collapse {outer : List Text} {left t right : Text} {tag : OpenTag} {inside next : Outline}
      {close : Option ClosingTag} (blank : ∀ piece ∈ inside.pieces, piece.isBlank = true)
      (admits : tag.admits pairs .selfClosing = true)
      (spare : OpenersApartFrom pairs (left ++ tag.head) Ending.selfClosing.mended
        (Piece.renderAll inside.pieces ++ (t ++ right)))
      (removed : close ≠ none → OpenersApartAt pairs (Piece.renderAll inside.pieces) (t ++ right))
      (rest : Restyles pairs outer
        (left ++ (tag.mend .selfClosing).render ++ Piece.renderAll inside.pieces) next t right) :
      Restyles pairs outer left (element tag inside close next)
        ((tag.mend .selfClosing).render ++ (Piece.renderAll inside.pieces ++ t)) right

/-- Whether the second outline is read of the text, before the new rest, where the first one was
before the old rest, with the same elements. -/
structure Restyled (pairs : List Delimiters) (outer : List Text) (left : Text) (outline : Outline)
    (t : Text) (more more' : List Piece) (restyled : Outline) : Prop where
  nested : restyled.Nested outer
  reads : Piece.Reads pairs (restyled.pieces ++ more')
  shown : Piece.renderAll restyled.pieces = t
  elements : restyled.elements = outline.elements
  /-- What waits at the end did so before, or no element around it is called the same. -/
  unclosed : ∀ name ∈ restyled.unclosed, name ∈ outline.unclosed ∨
    ∀ other ∈ outer, Text.sameName other name = false
  quiet : Quiet pairs left (Piece.renderAll (outline.pieces ++ more))
    (Piece.renderAll (restyled.pieces ++ more'))
  ends : outline.pieces ++ more = [] → restyled.pieces ++ more' = []
  /-- A text before it ends there still. -/
  stops : endsContent pairs (Piece.renderAll (outline.pieces ++ more)) = true →
    endsContent pairs (Piece.renderAll (restyled.pieces ++ more')) = true
  /-- A closing tag at the start was there before. -/
  closes : ∀ tag, ∀ first ∈ restyled.pieces.head?, first.closesVoid tag = true →
    ∃ before ∈ outline.pieces.head?, before.closesVoid tag = true

section Steps

variable {outer : List Text} {tag tag' : OpenTag} {ending : Ending} {inside next : Outline}
  {left s t : Text} {more more' : List Piece}

private theorem quiet_cons {piece piece' : Piece} {others others' : List Piece}
    (bare : piece'.bare = piece.bare)
    (quiet : Quiet pairs (left ++ piece.render) (Piece.renderAll others)
      (Piece.renderAll others')) :
    Quiet pairs left (Piece.renderAll (piece :: others)) (Piece.renderAll (piece' :: others')) := by
  rw [Piece.renderAll_cons, Piece.renderAll_cons, Piece.render_of_bare bare]
  exact quiet.append_left

private theorem exists_restyled_single {piece : Piece} {restyled : Outline}
    (rest : Restyled pairs outer (left ++ piece.render) next t more more' restyled)
    (nested : (single piece next).Nested outer)
    (reads : Piece.Reads pairs (piece :: (next.pieces ++ more))) :
    ∃ restyled, Restyled pairs outer left (single piece next) (piece.render ++ t) more more'
      restyled := by
  have quiet := rest.quiet.within (List.suffix_append left piece.render)
  obtain ⟨piece', readsPiece, bare⟩ := reads.keep rest.reads quiet rest.ends fun _ => rest.stops
  refine ⟨Outline.single piece' restyled,
    ⟨Piece.standsAlone_of_bare bare rest.closes nested.1, rest.nested⟩, readsPiece, ?_, ?_,
    rest.unclosed, quiet_cons bare rest.quiet, by simp,
    reads.endsContent_of_bare readsPiece bare quiet, ?_⟩
  · rw [pieces_single, Piece.renderAll_cons, Piece.render_of_bare bare, rest.shown]
  · simp only [Outline.elements, Piece.label?_of_bare bare, rest.elements]
  · intro tag first head closed
    obtain rfl : piece' = first := Option.some.inj head
    exact ⟨piece, rfl, (Piece.closesVoid_of_bare rfl bare).symm.trans closed⟩

private theorem exists_restyled_unclosed {within : Outline}
    (inner : Restyled pairs (tag.name :: outer) (left ++ tag.render) inside s more more' within)
    (waits : tag.waitsIn outer = true)
    (reads : Piece.Reads pairs (.opening tag :: (inside.pieces ++ more))) :
    ∃ restyled, Restyled pairs outer left (element tag inside none nil) (tag.render ++ s) more
      more' restyled := by
  have quiet := inner.quiet.within (List.suffix_append left tag.render)
  obtain ⟨tag', readsTag, bare⟩ := reads.keep_opening inner.reads quiet inner.ends
  have name := OpenTag.name_of_bare bare
  refine ⟨element tag' within none nil,
    ⟨(OpenTag.waitsIn_of_bare bare).trans waits, name ▸ inner.nested, rfl⟩, ?_, ?_, ?_, ?_, ?_,
    by simp, ?_, by simp [Piece.closesVoid]⟩
  · rw [pieces_unclosed_append]
    exact readsTag
  · simp only [pieces_element, Option.map_none, Option.toList_none, List.append_nil, pieces_nil,
      Piece.renderAll_cons, Piece.render, OpenTag.render_of_bare bare, inner.shown]
  · simp only [Outline.elements, OpenTag.label_of_bare bare, inner.elements]
  · -- What stays unclosed is what did so inside, and the element itself.
    intro other waiting
    rcases List.mem_append.1 waiting with deeper | this
    · rcases inner.unclosed other deeper with before | apart
      · exact Or.inl (List.mem_append_left _ before)
      · exact Or.inr fun around member => apart around (List.mem_cons_of_mem _ member)
    · rw [name] at this
      exact Or.inl (List.mem_append_right _ this)
  · rw [pieces_unclosed_append, pieces_unclosed_append]
    exact quiet_cons (congrArg Piece.opening bare) inner.quiet
  · rw [pieces_unclosed_append, pieces_unclosed_append]
    exact reads.endsContent_of_bare readsTag (congrArg Piece.opening bare) quiet

/-- The closing tag ends the same element where more waits inside of it that is called otherwise. -/
private theorem closes_restyled {within : Outline} {close : ClosingTag}
    (bare : tag'.bare = tag.bare) (empty : inside = nil → within = nil)
    (unclosed : ∀ name ∈ within.unclosed, name ∈ inside.unclosed ∨
      ∀ other ∈ tag.name :: outer, Text.sameName other name = false)
    (closes : Closes outer tag inside close) : Closes outer tag' within close := by
  have name := OpenTag.name_of_bare bare
  rcases closes with ⟨waits, same, apart⟩ | ⟨plain, void, bareInside, closesVoid⟩
  · refine Or.inl ⟨(OpenTag.waitsIn_of_bare bare).trans waits, by rw [name, same], ?_⟩
    intro waiting member
    rcases unclosed waiting member with before | other
    · exact apart waiting before
    · -- What has come to wait would be called as the element that it is in.
      rw [Bool.eq_false_iff]
      intro alike
      have called := other tag.name List.mem_cons_self
      simp only [Text.sameName, beq_iff_eq] at same alike
      simp [Text.sameName, same, alike] at called
  · refine Or.inr ⟨?_, ?_, empty bareInside, ?_⟩
    · rw [OpenTag.isSelfClosing_of_bare bare, plain]
    · rw [name, void]
    · rw [Piece.closesVoid_of_bare bare rfl, closesVoid]

private theorem exists_restyled_closed {within restyled : Outline} {close : ClosingTag}
    (inner : Restyled pairs (tag.name :: outer) (left ++ tag.render) inside s
      (close.piece :: (next.pieces ++ more)) (close.piece :: (restyled.pieces ++ more')) within)
    {before : Text} (rest : Restyled pairs outer before next t more more' restyled)
    (empty : inside = nil → s = [])
    (closes : Closes outer tag inside close)
    (reads : Piece.Reads pairs
      (.opening tag :: (inside.pieces ++ close.piece :: (next.pieces ++ more)))) :
    ∃ restyled, Restyled pairs outer left (element tag inside (some close) next)
      (tag.render ++ (s ++ (close.piece.render ++ t))) more more' restyled := by
  have quiet := inner.quiet.within (List.suffix_append left tag.render)
  obtain ⟨tag', readsTag, bare⟩ := reads.keep_opening inner.reads quiet inner.ends
  -- What is read again of an empty text is empty, since no piece is.
  have bareInside : inside = nil → within = nil := by
    intro none_inside
    have nothing := inner.shown.trans (empty none_inside)
    cases within with
    | nil => rfl
    | single piece others | element tag others close more =>
      exact absurd (List.append_eq_nil_iff.1 nothing).1 inner.reads.1
  refine ⟨Outline.element tag' within (some close) restyled,
    ⟨OpenTag.name_of_bare bare ▸ inner.nested,
      closes_restyled bare bareInside inner.unclosed closes, rest.nested⟩, ?_, ?_, ?_,
    rest.unclosed, ?_, by simp, ?_, by simp [Piece.closesVoid]⟩
  · rw [pieces_closed_append]
    exact readsTag
  · simp [Piece.renderAll_append, Piece.renderAll_cons, Piece.render, OpenTag.render_of_bare bare,
      inner.shown, rest.shown]
  · simp only [Outline.elements, OpenTag.label_of_bare bare, inner.elements, rest.elements]
  · rw [pieces_closed_append, pieces_closed_append]
    exact quiet_cons (congrArg Piece.opening bare) inner.quiet
  · rw [pieces_closed_append, pieces_closed_append]
    exact reads.endsContent_of_bare readsTag (congrArg Piece.opening bare) quiet

/-! ### Tags with a new end -/

/-- What is shown, labelled and brought up where a tag with a new end is read. -/
private theorem Restyled.of_mended {outline restyled rest : Outline} {others : List Piece}
    (bare : tag'.bare = (tag.mend ending).bare)
    (spare : OpenersApartFrom pairs (left ++ tag.head) ending.mended
      (Piece.renderAll (rest.pieces ++ more')))
    (nested : restyled.Nested outer) (same : restyled.pieces = .opening tag' :: rest.pieces)
    (before : outline.pieces ++ more = .opening tag :: others)
    (reads : Piece.Reads pairs (.opening tag' :: (rest.pieces ++ more')))
    (shown : Piece.renderAll rest.pieces = t)
    (elements : restyled.elements = outline.elements)
    (unclosed : ∀ name ∈ restyled.unclosed, name ∈ outline.unclosed ∨
      ∀ other ∈ outer, Text.sameName other name = false) :
    Restyled pairs outer left outline ((tag.mend ending).render ++ t) more more' restyled := by
  refine ⟨nested, ?_, ?_, elements, unclosed, ?_, by simp [before], ?_, ?_⟩
  · rw [same]
    exact reads
  · rw [same, Piece.renderAll_cons, shown, Piece.render, OpenTag.render_of_bare bare]
  · rw [same, before]
    exact Piece.quiet_mended spare bare _
  · rw [same, before]
    exact reads.endsContent_mended spare bare
  · simp [same, Piece.closesVoid]

private theorem nested_of_blank {name : Text} {outline : Outline}
    (blank : ∀ piece ∈ outline.pieces, piece.isBlank = true)
    (nested : outline.Nested (name :: outer)) : outline.elements = .nil ∧ outline.Nested outer := by
  induction outline with
  | nil => exact ⟨rfl, trivial⟩
  | element tag inside close next =>
    have := blank (.opening tag) (by simp)
    contradiction
  | single piece next ih =>
    obtain ⟨elements, onward⟩ :=
      ih (fun q member => blank q (List.mem_cons_of_mem _ member)) nested.2
    have first := blank piece List.mem_cons_self
    cases piece with
    | text content => exact ⟨elements, trivial, onward⟩
    | closing _ _ _ =>
      exact ⟨elements, fun other member => nested.1 other (List.mem_cons_of_mem _ member), onward⟩
    | _ => contradiction

/-- Where a closing tag is gone after blanks, or nothing was there, the blanks end as they did if no
text comes next. -/
private theorem stops_collapse {before x : Text} {close : Option ClosingTag} {restyled : Outline}
    (rest : Restyled pairs outer before next t more more' restyled)
    (removed : close ≠ none →
      OpenersApartAt pairs x (Piece.renderAll (restyled.pieces ++ more')))
    {front : List Piece} {content : Fragment} (blank : content.text.isBlank = true)
    (shown : x = Piece.renderAll (front ++ [.text content]))
    (reads : Piece.Reads pairs
      (.text content :: ((close.map ClosingTag.piece).toList ++ (next.pieces ++ more))))
    (begins : (Construct.of? (Piece.renderAll (restyled.pieces ++ more'))).isSome = true) :
    endsContent pairs (Piece.renderAll (restyled.pieces ++ more')) = true := by
  cases close with
  | none =>
    refine rest.stops (reads.stops fun empty => ?_)
    have head := Construct.head_of_isSome begins
    rw [rest.ends (reads.2.2.eq_nil empty)] at head
    simp [Piece.renderAll] at head
  | some close =>
    obtain ⟨r, c, last⟩ : ∃ r c, content.text = r ++ [c] :=
      ⟨_, _, (List.dropLast_concat_getLast reads.1).symm⟩
    have blank : isBlankChar c = true := List.all_eq_true.1 blank c (by simp [last])
    have ends : x = Piece.renderAll front ++ r ++ [c] := by
      simp [shown, Piece.renderAll, Piece.render, last]
    have unopened := (removed (by simp)).markup _ c ends blank begins
    rw [endsContent, begins, unopened]
    rfl

/-- An element that closes itself after all has the blanks and the closing tags that close nothing
after it that were inside of it. -/
private theorem exists_restyled_collapse {close : Option ClosingTag} {restyled : Outline}
    (rest : Restyled pairs outer
      (left ++ (tag.mend .selfClosing).render ++ Piece.renderAll inside.pieces) next t more more'
      restyled)
    (blank : ∀ piece ∈ inside.pieces, piece.isBlank = true)
    (admits : tag.admits pairs .selfClosing = true)
    (spare : OpenersApartFrom pairs (left ++ tag.head) Ending.selfClosing.mended
      (Piece.renderAll inside.pieces ++ Piece.renderAll (restyled.pieces ++ more')))
    (removed : close ≠ none → OpenersApartAt pairs (Piece.renderAll inside.pieces)
      (Piece.renderAll (restyled.pieces ++ more')))
    (nested : (element tag inside close next).Nested outer)
    (reads : Piece.Reads pairs ((element tag inside close next).pieces ++ more))
    (other : ∀ first ∈ more'.head?, first.isText = false) :
    ∃ restyled, Restyled pairs outer left (element tag inside close next)
      ((tag.mend .selfClosing).render ++ (Piece.renderAll inside.pieces ++ t)) more more'
      restyled := by
  have shape : (element tag inside close next).pieces ++ more = .opening tag ::
      (inside.pieces ++ ((close.map ClosingTag.piece).toList ++ (next.pieces ++ more))) := by simp
  rw [shape] at reads
  obtain ⟨elementsInside, standing⟩ := nested_of_blank blank (nested_inside nested)
  have finished : (close.map ClosingTag.piece).toList ++ (next.pieces ++ more) = [] →
      restyled.pieces ++ more' = [] := by
    intro empty
    exact rest.ends (List.append_eq_nil_iff.1 empty).2
  -- No opening delimiter of what was inside goes on behind the place of the closing tag.
  have quiet : Quiet pairs (Piece.renderAll inside.pieces)
      (Piece.renderAll ((close.map ClosingTag.piece).toList ++ (next.pieces ++ more)))
      (Piece.renderAll (restyled.pieces ++ more')) := by
    cases close with
    | none => exact rest.quiet.within (List.suffix_append _ _)
    | some close => exact (removed (by simp)).quiet.of_nil _
  obtain ⟨padded, pad, _⟩ := exists_padded blank standing reads.2.2 rest.nested rest.reads
    quiet finished other fun front content last begins => by
      have readsText := reads.2.2
      rw [last, List.append_assoc] at readsText
      exact stops_collapse rest removed (blank (.text content) (by simp [last])) (by rw [last])
        readsText.of_append begins
  have joined : Piece.renderAll (padded.pieces ++ more') =
      Piece.renderAll inside.pieces ++ Piece.renderAll (restyled.pieces ++ more') := by
    rw [Piece.renderAll_append, pad.shown, List.append_assoc, ← Piece.renderAll_append]
  rw [← joined] at spare
  obtain ⟨tag', readsTag, bare⟩ := reads.mend_tag pad.reads (by decide) admits spare
  -- The tag closes itself now, so it is a piece alone and waits for nothing.
  have closes : tag'.isSelfClosing = true := OpenTag.isSelfClosing_of_bare bare
  refine ⟨single (.opening tag') padded, .of_mended bare spare ⟨⟨?_, ?_⟩, pad.nested⟩ rfl shape
    readsTag ?_ ?_ ?_⟩
  · simp [OpenTag.waitsIn, closes]
  · simp [closes]
  · rw [pad.shown, rest.shown]
  · simp only [Outline.elements, Piece.label?, elementsInside, pad.elements, rest.elements,
      OpenTag.label_of_bare bare]
    rfl
  · intro name waiting
    rw [Outline.unclosed, pad.unclosed] at waiting
    refine (rest.unclosed name waiting).imp_left fun before => ?_
    cases close with
    | some close => exact before
    | none =>
      rw [nested.2.2] at before
      contradiction

/-- Whether an element with this name, read before the outline, takes in the first part of it. -/
private structure Takes (name : Text) (outer : List Text) (outline inside : Outline)
    (close : Option ClosingTag) (next : Outline) : Prop where
  pieces : inside.pieces ++ (close.map ClosingTag.piece).toList ++ next.pieces = outline.pieces
  within : inside.Nested (name :: outer)
  after : next.Nested outer
  elements : inside.elements = .nil ∧ next.elements = .nil
  last : close = none → next = nil
  named : ∀ own ∈ close, Text.sameName name own.name = true

private theorem unclosed_of_elements {outline : Outline} (bare : outline.elements = .nil) :
    outline.unclosed = [] := by
  induction outline with
  | nil => rfl
  | element => simp [Outline.elements] at bare
  | single piece next ih =>
    cases label : piece.label? with
    | none =>
      simp only [Outline.elements, label] at bare
      exact ih bare
    | some label' => simp [Outline.elements, label] at bare

/-- Where nothing of the element tree comes next, an element takes in all that does, up to a closing
tag with its name. -/
private theorem exists_takes (name : Text) {outline : Outline} (nested : outline.Nested outer)
    (bare : outline.elements = .nil) :
    ∃ inside close next, Takes name outer outline inside close next := by
  -- The first closing tag with the name ends the element; it closed nothing before.
  induction outline with
  | nil => exact ⟨nil, none, nil, rfl, trivial, trivial, ⟨rfl, rfl⟩, by simp, by simp⟩
  | element => simp [Outline.elements] at bare
  | single piece next ih =>
    cases label : piece.label? with
    | some label' => simp [Outline.elements, label] at bare
    | none =>
      simp only [Outline.elements, label] at bare
      by_cases own : ∃ close : ClosingTag,
          piece = close.piece ∧ Text.sameName name close.name = true
      · obtain ⟨close, rfl, named⟩ := own
        refine ⟨nil, some close, next, rfl, trivial, nested.2, ⟨rfl, bare⟩, by simp, ?_⟩
        rintro _ ⟨⟩
        exact named
      · obtain ⟨inside, close, after, takes⟩ := ih nested.2 bare
        have stands : piece.StandsAlone (name :: outer) inside.pieces.head? := by
          cases piece with
          | closing called tail isClosed =>
            intro other member
            rcases List.mem_cons.1 member with rfl | further
            · exact Bool.eq_false_iff.2 fun same => own ⟨⟨called, tail, isClosed⟩, rfl, same⟩
            · exact nested.1 other further
          | opening tag => simp [Piece.label?] at label
          | _ => trivial
        refine ⟨single piece inside, close, after, ?_, ⟨stands, takes.within⟩, takes.after,
          ⟨?_, takes.elements.2⟩, takes.last, takes.named⟩
        · simp [← takes.pieces]
        · simp only [Outline.elements, label, takes.elements.1]

section Mend

variable {restyled : Outline} {before : Text}

private theorem elements_mended (rest : Restyled pairs outer before next t more more' restyled)
    (bare : tag'.bare = (tag.mend ending).bare) :
    (single (.opening tag) next).elements = .cons tag'.label .nil restyled.elements := by
  have label : tag'.label = (tag.mend ending).label := OpenTag.label_of_bare bare
  rw [label, rest.elements]
  rfl

/-- An element that is open with its new end takes in all that comes after it, up to a closing tag
with its name. -/
private theorem exists_restyled_open (rest : Restyled pairs outer before next t more more' restyled)
    (bare : tag'.bare = (tag.mend ending).bare)
    (spare : OpenersApartFrom pairs (left ++ tag.head) ending.mended
      (Piece.renderAll (restyled.pieces ++ more')))
    (readsTag : Piece.Reads pairs (.opening tag' :: (restyled.pieces ++ more')))
    (waits : tag'.waitsIn outer = true) (bareNext : next.elements = .nil)
    (other : ∀ other ∈ outer, Text.sameName other tag.name = false) :
    ∃ restyled, Restyled pairs outer left (single (.opening tag) next)
      ((tag.mend ending).render ++ t) more more' restyled := by
  obtain ⟨inside, close, after, takes⟩ :=
    exists_takes tag'.name rest.nested (rest.elements.trans bareNext)
  refine ⟨element tag' inside close after, .of_mended bare spare ?_ ?_ rfl readsTag rest.shown
    ?_ ?_⟩
  · cases close with
    | none => exact ⟨waits, takes.within, takes.last rfl⟩
    | some own =>
      refine ⟨takes.within, Or.inl ⟨waits, takes.named own rfl, ?_⟩, takes.after⟩
      simp [unclosed_of_elements takes.elements.1]
  · rw [pieces_element, takes.pieces]
  · rw [elements_mended rest bare, rest.elements, bareNext]
    simp only [Outline.elements, takes.elements]
  · intro name waiting
    cases close with
    | none =>
      -- Only the element itself waits at the end, and no element around it has its name.
      simp only [Outline.unclosed, unclosed_of_elements takes.elements.1, List.nil_append,
        List.mem_singleton] at waiting
      rw [waiting, OpenTag.name_of_bare bare]
      exact Or.inr other
    | some own => simp [Outline.unclosed, unclosed_of_elements takes.elements.2] at waiting

/-- A void element is closed by the closing tag right after it, which closed nothing before. -/
private theorem exists_restyled_void (rest : Restyled pairs outer before next t more more' restyled)
    (bare : tag'.bare = (tag.mend ending).bare)
    (spare : OpenersApartFrom pairs (left ++ tag.head) ending.mended
      (Piece.renderAll (restyled.pieces ++ more')))
    (readsTag : Piece.Reads pairs (.opening tag' :: (restyled.pieces ++ more')))
    (waits : tag'.waitsIn outer = false) (plain : tag'.isSelfClosing = false) {first : Piece}
    (head : first ∈ restyled.pieces.head?) (closes : first.closesVoid tag' = true) :
    ∃ restyled, Restyled pairs outer left (single (.opening tag) next)
      ((tag.mend ending).render ++ t) more more' restyled := by
  have void : isVoidIn outer tag'.name = true := by
    simpa [OpenTag.waitsIn, plain] using waits
  have elements := elements_mended rest bare
  cases restyled with
  | nil => simp at head
  | element =>
    obtain rfl := Option.some.inj head
    simp [Piece.closesVoid] at closes
  | single piece after =>
    obtain rfl := Option.some.inj head
    cases piece with
    | closing name tail isClosed =>
      exact ⟨element tag' nil (some ⟨name, tail, isClosed⟩) after,
        .of_mended bare spare ⟨trivial, Or.inr ⟨plain, void, rfl, closes⟩, rest.nested.2⟩ rfl
          rfl readsTag rest.shown elements.symm rest.unclosed⟩
    | _ => simp [Piece.closesVoid] at closes

private theorem exists_restyled_mend
    (rest : Restyled pairs outer before next t more more' restyled)
    (ends : ending ≠ .unfinished) (admits : tag.admits pairs ending = true)
    (spare : OpenersApartFrom pairs (left ++ tag.head) ending.mended
      (Piece.renderAll (restyled.pieces ++ more')))
    (apart : (tag.mend ending).waitsIn outer = true →
      next.elements = .nil ∧ ∀ other ∈ outer, Text.sameName other tag.name = false)
    (reads : Piece.Reads pairs (.opening tag :: (next.pieces ++ more))) :
    ∃ restyled, Restyled pairs outer left (single (.opening tag) next)
      ((tag.mend ending).render ++ t) more more' restyled := by
  obtain ⟨tag', readsTag, bare⟩ := reads.mend_tag rest.reads ends admits spare
  -- With its new end the element is open, or closed by what comes next, or stands alone.
  cases waits : tag'.waitsIn outer with
  | true =>
    obtain ⟨bareNext, other⟩ := apart ((OpenTag.waitsIn_of_bare bare).symm.trans waits)
    exact exists_restyled_open rest bare spare readsTag waits bareNext other
  | false =>
    by_cases closed : tag'.isSelfClosing = false ∧
        ∃ piece ∈ restyled.pieces.head?, piece.closesVoid tag' = true
    · obtain ⟨plain, first, head, closes⟩ := closed
      exact exists_restyled_void rest bare spare readsTag waits plain head closes
    · refine ⟨single (.opening tag') restyled, .of_mended bare spare
        ⟨⟨waits, fun plain piece head => ?_⟩, rest.nested⟩ rfl rfl readsTag rest.shown
        (elements_mended rest bare).symm rest.unclosed⟩
      rw [Bool.eq_false_iff]
      intro closes
      exact closed ⟨plain, piece, head, closes⟩

end Mend

private theorem Restyled.whole {outline restyled : Outline}
    (result : Restyled pairs outer left outline t more more' restyled) :
    t ++ Piece.renderAll more' = Piece.renderAll (restyled.pieces ++ more') := by
  rw [Piece.renderAll_append, result.shown]

end Steps

/-- What is written for an outline is read as one with the same elements, whatever comes after
it. -/
theorem exists_restyled {outer : List Text} {left t right : Text} {outline : Outline}
    {more more' : List Piece} (restyles : Restyles pairs outer left outline t right)
    (after : right = Piece.renderAll more') (nested : outline.Nested outer)
    (reads : Piece.Reads pairs (outline.pieces ++ more)) (reads' : Piece.Reads pairs more')
    (quiet : Quiet pairs (left ++ t) (Piece.renderAll more) (Piece.renderAll more'))
    (ends : more = [] → more' = []) (other : ∀ first ∈ more'.head?, first.isText = false)
    (stops : endsContent pairs (Piece.renderAll more) = true →
      endsContent pairs (Piece.renderAll more') = true) :
    ∃ restyled, Restyled pairs outer left outline t more more' restyled := by
  -- From the end backwards: how a piece is read depends on what has become of the pieces after it.
  induction restyles generalizing more more' with
  | nil =>
    rw [List.append_nil] at quiet
    exact ⟨nil, trivial, reads', rfl, rfl, by simp [Outline.unclosed], quiet, ends, stops, by simp⟩
  | single piece rest ih =>
    rw [← List.append_assoc] at quiet
    obtain ⟨next', result⟩ := ih after nested.2 reads.2.2 reads' quiet ends other stops
    exact exists_restyled_single result nested reads
  | unclosed within ih =>
    rw [pieces_unclosed_append] at reads
    rw [← List.append_assoc] at quiet
    obtain ⟨inside', inner⟩ := ih after nested.2.1 reads.2.2 reads' quiet ends other stops
    exact exists_restyled_unclosed inner nested.1 reads
  | element close within rest ihWithin ihRest =>
    obtain ⟨nestedInside, closes, nestedNext⟩ := nested
    rw [pieces_closed_append] at reads
    have readsClose := reads.2.2.of_append
    simp only [← List.append_assoc] at quiet
    obtain ⟨next', result⟩ := ihRest after nestedNext readsClose.2.2 reads' quiet ends other stops
    have readsClose' := readsClose.keep_closing result.reads result.ends
    have before : Quiet pairs _ _ _ := result.quiet.within (List.suffix_append _ _)
    obtain ⟨inside', inner⟩ := ihWithin (by rw [after, result.whole, Piece.renderAll_cons])
      nestedInside reads.2.2 readsClose' (quiet_cons rfl result.quiet) (by simp)
      (by rintro _ ⟨⟩; rfl) (readsClose.endsContent_of_bare readsClose' rfl before)
    refine exists_restyled_closed inner result ?_ closes reads
    rintro rfl
    cases within
    rfl
  | mend ended admits spare apart rest ih =>
    rw [← List.append_assoc] at quiet
    obtain ⟨next', result⟩ := ih after nested.2 reads.2.2 reads' quiet ends other stops
    rw [after, result.whole] at spare
    exact exists_restyled_mend result ended admits spare apart reads
  | @collapse outer left t right tag inside next close blank admits spare removed rest ih =>
    have shape : (element tag inside close next).pieces ++ more = .opening tag ::
        (inside.pieces ++ (close.map ClosingTag.piece).toList) ++ (next.pieces ++ more) := by simp
    have readsNext := (shape ▸ reads).of_append
    simp only [← List.append_assoc] at quiet
    obtain ⟨next', result⟩ := ih after (nested_next nested) readsNext reads' quiet ends other stops
    rw [after, result.whole] at spare removed
    exact exists_restyled_collapse result blank admits spare removed nested reads other

end Outline

end TagLint
