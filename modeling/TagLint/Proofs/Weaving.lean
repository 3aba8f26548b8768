import TagLint.Proofs.Nesting
import TagLint.Proofs.Rereading

/-!
Weaving line feeds into an outline.

A line feed that is put between two pieces becomes part of a text that stands there, or a text of
its own. `Outline.Weaves` relates an outline to what is read with the line feeds in it: every other
piece stays where it is nested, and the rules of nesting still hold.
-/
namespace TagLint

open Written (Piece OpenTag Construct)

variable {pairs : List Delimiters} {places : Nat → Bool}

theorem ClosingTag.eq_of_bare {close : ClosingTag} {piece : Piece}
    (bare : piece.bare = close.piece.bare) : piece = close.piece := by
  cases piece with
  | closing _ _ _ => exact bare
  | _ => simp [ClosingTag.piece, Piece.bare] at bare

/-! ### What is nested stays nested -/

namespace Written

variable {tag tag' : OpenTag} {piece piece' : Piece}

theorem OpenTag.waitsIn_of_bare {outer : List Text} (same : tag'.bare = tag.bare) :
    tag'.waitsIn outer = tag.waitsIn outer := by
  have name := OpenTag.name_of_bare same
  have closes := OpenTag.isSelfClosing_of_bare same
  rw [OpenTag.waitsIn, name, closes, OpenTag.waitsIn]

theorem Piece.closesVoid_of_name (name : tag'.name = tag.name) (piece : Piece) :
    piece.closesVoid tag' = piece.closesVoid tag := by
  cases piece <;> simp only [Piece.closesVoid, name]

theorem Piece.closesVoid_of_bare (same : tag'.bare = tag.bare) (bare : piece'.bare = piece.bare) :
    piece'.closesVoid tag' = piece.closesVoid tag := by
  have name := OpenTag.name_of_bare same
  have unchanged (piece : Piece) : piece.closesVoid tag = piece.bare.closesVoid tag := by
    cases piece <;> rfl
  rw [closesVoid_of_name name, unchanged piece', bare, ← unchanged]

/-- A piece that stands alone does so before what closes a void element only where it was closed. -/
theorem Piece.standsAlone_of_bare {outer : List Text} {next next' : Option Piece}
    (bare : piece'.bare = piece.bare)
    (closes : ∀ tag, ∀ first ∈ next', first.closesVoid tag = true →
      ∃ before ∈ next, before.closesVoid tag = true)
    (stands : piece.StandsAlone outer next) : piece'.StandsAlone outer next' := by
  cases piece' with
  | opening tag' =>
    cases piece with
    | opening tag =>
      have same : tag'.bare = tag.bare := by simpa [Piece.bare] using bare
      refine ⟨(OpenTag.waitsIn_of_bare same).trans stands.1, fun open_ first head => ?_⟩
      have plain : tag.isSelfClosing = false := by
        rw [← OpenTag.isSelfClosing_of_bare same, open_]
      rw [Bool.eq_false_iff]
      intro closed
      obtain ⟨before, headBefore, closedBefore⟩ := closes tag' first head closed
      rw [Piece.closesVoid_of_bare same rfl, stands.2 plain before headBefore] at closedBefore
      contradiction
    | _ => simp [Piece.bare] at bare
  | closing name tail isClosed =>
    cases piece with
    | closing name' tail' isClosed' =>
      obtain ⟨rfl, _⟩ := Piece.closing.inj bare
      exact stands
    | _ => simp [Piece.bare] at bare
  | _ => trivial

end Written

/-- The pieces as written, with a line feed before each that starts at one of the places. -/
def Written.Piece.feedAll (places : Nat → Bool) (offset : Nat) : List Piece → Text
  | [] => []
  | piece :: others =>
    feedIf (places offset) ++ piece.render ++ feedAll places (offset + piece.width) others

/-! ### Outlines with line feeds in them -/

namespace Outline

/-- Whether the second outline, which is at `offset` and comes after text or not, is the first one
with line feeds put in at the places. A text takes the line feeds at its ends. -/
inductive Weaves (places : Nat → Bool) : Nat → Bool → Outline → Outline → Prop where
  | nil {offset : Nat} {after : Bool} (done : places offset = true → after = true) :
      Weaves places offset after nil nil
  | feed {offset : Nat} {outline woven : Outline} {content : Fragment}
      (put : places offset = true) (own : content.text = ['\n'])
      (rest : Weaves places offset true outline woven) :
      Weaves places offset false outline (single (.text content) woven)
  | text {offset : Nat} {content content' : Fragment} {next next' : Outline}
      (own : content'.text = feedIf (places offset) ++ content.text ++
        feedIf (places (offset + Piece.width (.text content))))
      (rest : Weaves places (offset + Piece.width (.text content)) true next next') :
      Weaves places offset false (single (.text content) next) (single (.text content') next')
  | single {offset : Nat} {after : Bool} {piece piece' : Piece} {next next' : Outline}
      (done : places offset = true → after = true) (other : piece.isText = false)
      (bare : piece'.bare = piece.bare)
      (rest : Weaves places (offset + piece.width) false next next') :
      Weaves places offset after (single piece next) (single piece' next')
  | element {offset : Nat} {after : Bool} {tag tag' : OpenTag} {inside inside' : Outline}
      {close : ClosingTag} {next next' : Outline}
      (done : places offset = true → after = true) (bare : tag'.bare = tag.bare)
      (empty : inside = nil → inside' = nil)
      (within : Weaves places (offset + tag.render.byteLength) false inside inside')
      (rest : Weaves places
        (offset + tag.render.byteLength + inside.width + close.piece.width) false next next') :
      Weaves places offset after (element tag inside (some close) next)
        (element tag' inside' (some close) next')
  | unclosed {offset : Nat} {after : Bool} {tag tag' : OpenTag} {inside inside' : Outline}
      (done : places offset = true → after = true) (bare : tag'.bare = tag.bare)
      (within : Weaves places (offset + tag.render.byteLength) false inside inside') :
      Weaves places offset after (element tag inside none nil) (element tag' inside' none nil)

/-- Whether none of the places is between the tags of an element with nothing inside. -/
def Spares (places : Nat → Bool) (offset : Nat) : Outline → Prop
  | nil => True
  | single piece next => next.Spares places (offset + piece.width)
  | element tag inside close next =>
    (inside = nil → close.isSome → places (offset + tag.render.byteLength) = false) ∧
      inside.Spares places (offset + tag.render.byteLength) ∧
      next.Spares places (offset + tag.render.byteLength + inside.width +
        (close.map fun close => close.piece.width).getD 0)

end Outline

/-! ### Reading on after a line feed -/

namespace Written.Piece

theorem feedAll_append (places : Nat → Bool) (offset : Nat) (first second : List Piece) :
    feedAll places offset (first ++ second) = feedAll places offset first ++
      feedAll places (offset + (renderAll first).byteLength) second := by
  induction first generalizing offset with
  | nil => rfl
  | cons piece others ih =>
    have joined : renderAll (piece :: others) = piece.render ++ renderAll others := rfl
    simp [feedAll, ih, joined, Nat.add_assoc]

variable {piece : Piece} {others others' : List Piece}

/-- A closing tag is read again whatever comes after it. -/
theorem Reads.keep_closing {close : ClosingTag} (reads : Reads pairs (close.piece :: others))
    (reads' : Reads pairs others') (ends : others = [] → others' = []) :
    Reads pairs (close.piece :: others') := by
  have letter := (Reads.closing_shape reads).1
  obtain ⟨nonempty, read, further⟩ := reads
  by_cases last : others = []
  · rw [ends last]
    rw [last] at read
    exact ⟨nonempty, read, trivial⟩
  · have left : renderAll others ≠ [] := fun empty => last (further.eq_nil empty)
    have found : Construct.of? (close.piece.render ++ renderAll others) = some .closing := by
      have shown : close.piece.render ++ renderAll others =
          '<' :: '/' :: (close.name ++ (close.tail ++ bracket close.isClosed ++
            renderAll others)) := by
        simp [ClosingTag.piece, render]
      rw [shown]
      exact (Construct.of?_letter (Text.startsWithLetter_append letter _)).2
    obtain ⟨piece', again, bare⟩ := closing_stable (t := renderAll others') left found read
    obtain rfl := ClosingTag.eq_of_bare bare
    exact ⟨nonempty, again, reads'⟩

/-- A text is read before the new rest with the line feeds at its ends. -/
theorem Reads.weave_text (clear : OpenersClear pairs) {content : Fragment}
    (reads : Reads pairs (.text content :: others)) (lead tail : Bool)
    (reads' : Reads pairs others') (other : ∀ piece ∈ others'.head?, piece.isText = false)
    (fed : Fed (renderAll others) (renderAll others'))
    (ends : others = [] → tail = false ∧ others' = []) :
    ∃ content', Reads pairs (.text content' :: others') ∧
      content'.text = feedIf lead ++ content.text ++ feedIf tail := by
  obtain ⟨nonempty, read, further⟩ := reads
  have stops : renderAll others ≠ [] → endsContent pairs (renderAll others') = true := by
    intro left
    refine endsContent_of_isSome clear.plain (reads'.begins ?_ other)
    rintro rfl
    exact left fed.eq_nil
  have finished : renderAll others = [] → feedIf tail ++ renderAll others' = [] := by
    intro empty
    obtain ⟨rfl, rfl⟩ := ends (further.eq_nil empty)
    rfl
  obtain ⟨content', again, own⟩ := scan_text_stable clear fed lead tail stops finished read
  refine ⟨content', reads'.cons own ?_ again, own⟩
  have full : content.text ≠ [] := nonempty
  simp [full]

theorem Reads.weave_feed (clear : OpenersClear pairs) (reads : Reads pairs others)
    (full : others ≠ []) (other : ∀ piece ∈ others.head?, piece.isText = false) :
    ∃ content, Reads pairs (.text content :: others) ∧ content.text = ['\n'] := by
  obtain ⟨content, read, own⟩ :=
    scan_feed clear (endsContent_of_isSome clear.plain (reads.begins full other))
  exact ⟨content, reads.cons own (by simp) read, own⟩

end Written.Piece

/-! ### Weaving line feeds in -/

namespace Outline

/-- Whether the woven outline is read before the new rest as the outline was before the old one. -/
structure Woven (pairs : List Delimiters) (places : Nat → Bool) (offset : Nat) (after : Bool)
    (outline woven : Outline) (more more' : List Piece) : Prop where
  weaves : outline.Weaves places offset after woven
  reads : Piece.Reads pairs (woven.pieces ++ more')
  fed : Fed (Piece.renderAll (outline.pieces ++ more)) (Piece.renderAll (woven.pieces ++ more'))
  ends : outline.pieces ++ more = [] → woven.pieces ++ more' = []
  /-- Whatever comes right after text is not text. -/
  other : after = true → ∀ piece ∈ (woven.pieces ++ more').head?, piece.isText = false

variable {offset : Nat} {after : Bool} {outline : Outline} {more more' : List Piece}

/-- A line feed goes before what does not begin with text, where it has to and no text took it. -/
private theorem exists_woven_of_other (clear : OpenersClear pairs)
    (reads : Piece.Reads pairs (outline.pieces ++ more))
    (full : places offset = true → outline.pieces ++ more ≠ [])
    (build : ∀ after, (places offset = true → after = true) →
      ∃ woven, Woven pairs places offset after outline woven more more') :
    ∃ woven, Woven pairs places offset after outline woven more more' := by
  by_cases done : places offset = true → after = true
  · exact build after done
  · -- The line feed becomes a text of its own, before what is woven as if text came first.
    obtain ⟨put, before⟩ := Classical.not_imp.1 done
    rw [Bool.not_eq_true] at before
    subst before
    obtain ⟨woven, result⟩ := build true fun _ => rfl
    have nonempty : woven.pieces ++ more' ≠ [] := by
      intro empty
      have fed := result.fed
      rw [empty] at fed
      exact full put (reads.eq_nil fed.eq_nil)
    obtain ⟨content, readsFeed, own⟩ := result.reads.weave_feed clear nonempty (result.other rfl)
    have shown : Piece.renderAll (.text content :: (woven.pieces ++ more')) =
        '\n' :: Piece.renderAll (woven.pieces ++ more') := by
      rw [Piece.renderAll, List.flatMap_cons, Piece.render, own]
      rfl
    refine ⟨.single (.text content) woven, .feed put own result.weaves, readsFeed, ?_, ?_, ?_⟩
    · rw [pieces_single, List.cons_append, shown]
      exact result.fed.feed
    · exact fun empty => absurd empty (full put)
    · intro other
      contradiction

private theorem head_other {piece : Piece} {others : List Piece} (other : piece.isText = false) :
    ∀ first ∈ (piece :: others).head?, first.isText = false := by
  rintro _ ⟨⟩
  exact other

private theorem fed_cons {piece piece' : Piece} {others others' : List Piece}
    (bare : piece'.bare = piece.bare)
    (fed : Fed (Piece.renderAll others) (Piece.renderAll others')) :
    Fed (Piece.renderAll (piece :: others)) (Piece.renderAll (piece' :: others')) := by
  rw [Piece.renderAll_cons, Piece.renderAll_cons, Piece.render_of_bare bare]
  exact fed.append_left _

section Steps

variable {tag : OpenTag} {inside inside' next next' : Outline}

private theorem Woven.text (clear : OpenersClear pairs) {content : Fragment}
    (reads : Piece.Reads pairs (.text content :: (next.pieces ++ more)))
    (rest : Woven pairs places (offset + Piece.width (.text content)) true next next' more more')
    (ends : next.pieces ++ more = [] →
      places (offset + Piece.width (.text content)) = false) :
    ∃ woven, Woven pairs places offset false (single (.text content) next) woven more more' := by
  obtain ⟨content', readsText, own⟩ := reads.weave_text clear (places offset)
    (places (offset + Piece.width (.text content))) rest.reads (rest.other rfl) rest.fed
    fun empty => ⟨ends empty, rest.ends empty⟩
  refine ⟨Outline.single (.text content') next', .text own rest.weaves, readsText, ?_, by simp,
    by simp⟩
  have shown : Piece.renderAll ((Outline.single (.text content') next').pieces ++ more') =
      feedIf (places offset) ++ (content.text ++
        (feedIf (places (offset + Piece.width (.text content))) ++
          Piece.renderAll (next'.pieces ++ more'))) := by
    rw [pieces_single, List.cons_append, Piece.renderAll, List.flatMap_cons, Piece.render, own]
    simp [Piece.renderAll]
  rw [shown]
  exact ((rest.fed.feedIf _).append_left content.text).feedIf _

private theorem Woven.single (clear : OpenersClear pairs) {piece : Piece}
    (other : piece.isText = false) (done : places offset = true → after = true)
    (reads : Piece.Reads pairs (piece :: (next.pieces ++ more)))
    (rest : Woven pairs places (offset + piece.width) false next next' more more') :
    ∃ woven, Woven pairs places offset after (single piece next) woven more more' := by
  obtain ⟨piece', readsPiece, bare⟩ :=
    reads.keep rest.reads (rest.fed.quiet clear _) rest.ends fun text =>
      absurd text (by simp [other])
  refine ⟨Outline.single piece' next', .single done other bare rest.weaves, readsPiece,
    fed_cons bare rest.fed, by simp, fun _ => head_other ?_⟩
  rw [← Piece.isText_bare, bare, Piece.isText_bare, other]

private theorem Woven.unclosed (clear : OpenersClear pairs)
    (done : places offset = true → after = true)
    (reads : Piece.Reads pairs (.opening tag :: (inside.pieces ++ more)))
    (within : Woven pairs places (offset + tag.render.byteLength) false inside inside' more
      more') :
    ∃ woven, Woven pairs places offset after (element tag inside none nil) woven more more' := by
  obtain ⟨tag', readsOpening, bare⟩ :=
    reads.keep_opening within.reads (within.fed.quiet clear _) within.ends
  refine ⟨Outline.element tag' inside' none nil, .unclosed done bare within.weaves, ?_, ?_,
    by simp, fun _ => ?_⟩
  · rw [pieces_unclosed_append]
    exact readsOpening
  · rw [pieces_unclosed_append, pieces_unclosed_append]
    exact fed_cons (congrArg Piece.opening bare) within.fed
  · rw [pieces_unclosed_append]
    exact head_other rfl

private theorem Woven.element (clear : OpenersClear pairs) {close : ClosingTag}
    (done : places offset = true → after = true) (empty : inside = nil → inside' = nil)
    (reads : Piece.Reads pairs
      (.opening tag :: (inside.pieces ++ close.piece :: (next.pieces ++ more))))
    (within : Woven pairs places (offset + tag.render.byteLength) false inside inside'
      (close.piece :: (next.pieces ++ more)) (close.piece :: (next'.pieces ++ more')))
    (rest : Woven pairs places (offset + tag.render.byteLength + inside.width + close.piece.width)
      false next next' more more') :
    ∃ woven,
      Woven pairs places offset after (element tag inside (some close) next) woven more more' := by
  obtain ⟨tag', readsOpening, bare⟩ :=
    reads.keep_opening within.reads (within.fed.quiet clear _) within.ends
  refine ⟨Outline.element tag' inside' (some close) next',
    .element done bare empty within.weaves rest.weaves, ?_, ?_, by simp, fun _ => ?_⟩
  · rw [pieces_closed_append]
    exact readsOpening
  · rw [pieces_closed_append, pieces_closed_append]
    exact fed_cons (congrArg Piece.opening bare) within.fed
  · rw [pieces_closed_append]
    exact head_other rfl

end Steps

/-- Line feeds at places that are spared can be woven into an outline that is read, whatever is
read after it. -/
theorem exists_woven (clear : OpenersClear pairs) {outer : List Text}
    (nested : outline.Nested outer) (spares : outline.Spares places offset)
    (reads : Piece.Reads pairs (outline.pieces ++ more)) (readsMore : Piece.Reads pairs more')
    (fed : Fed (Piece.renderAll more) (Piece.renderAll more'))
    (otherMore : ∀ piece ∈ more'.head?, piece.isText = false)
    (ends : more = [] → places (offset + outline.width) = false ∧ more' = [])
    (opens : after = true → ∀ piece ∈ (outline.pieces ++ more).head?, piece.isText = false) :
    ∃ woven, Woven pairs places offset after outline woven more more' := by
  -- From the end backwards: what is read of a piece depends on what is read after it.
  induction outline generalizing outer offset after more more' with
  | nil =>
    refine exists_woven_of_other clear reads ?_ fun after done =>
      ⟨nil, .nil done, readsMore, fed, fun empty => (ends empty).2, fun _ => otherMore⟩
    intro put empty
    have spared := (ends empty).1
    rw [width_nil, Nat.add_zero] at spared
    rw [spared] at put
    contradiction
  | single piece next ih =>
    have endsNext : more = [] →
        places (offset + piece.width + next.width) = false ∧ more' = [] := by
      rw [Nat.add_assoc, ← width_single]
      exact ends
    cases text : piece.isText with
    | true =>
      cases piece with
      | text content =>
        obtain rfl : after = false := by
          rw [Bool.eq_false_iff]
          intro afterText
          exact absurd (opens afterText _ rfl) (by simp [Piece.isText])
        have second : ∀ piece ∈ (next.pieces ++ more).head?, piece.isText = false := by
          rw [pieces_single, List.cons_append] at reads
          exact reads.other rfl
        obtain ⟨next', rest⟩ : ∃ next', Woven pairs places _ true next next' more more' :=
          ih nested.2 spares reads.2.2 readsMore fed otherMore endsNext fun _ => second
        apply Woven.text clear reads rest
        intro empty
        -- Nothing comes after the text, so its end is that of the outline.
        have spared := (endsNext (List.append_eq_nil_iff.1 empty).2).1
        have none_left : next.width = 0 := by
          rw [width, (List.append_eq_nil_iff.1 empty).1]
          rfl
        rwa [none_left, Nat.add_zero] at spared
      | _ => contradiction
    | false =>
      refine exists_woven_of_other clear reads (by simp) ?_
      intro after done
      obtain ⟨next', rest⟩ : ∃ next', Woven pairs places _ false next next' more more' :=
        ih nested.2 spares reads.2.2 readsMore fed otherMore endsNext (by simp)
      exact Woven.single clear text done reads rest
  | element tag inside close next ihInside ihNext =>
    refine exists_woven_of_other clear reads (by simp) ?_
    intro after done
    cases close with
    | none =>
      obtain ⟨_, nestedInside, rfl⟩ := nested
      have endsInside : more = [] →
          places (offset + tag.render.byteLength + inside.width) = false ∧ more' = [] := by
        simpa [Nat.add_assoc] using ends
      rw [pieces_unclosed_append] at reads
      obtain ⟨inside', within⟩ :
          ∃ inside', Woven pairs places _ false inside inside' more more' :=
        ihInside nestedInside spares.2.1 reads.2.2 readsMore fed otherMore endsInside (by simp)
      exact Woven.unclosed clear done reads within
    | some close =>
      obtain ⟨nestedInside, _, nestedNext⟩ := nested
      obtain ⟨spared, sparesInside, sparesNext⟩ := spares
      have closing : close.piece.isText = false := rfl
      rw [pieces_closed_append] at reads
      have readsClose := reads.2.2.of_append
      have endsNext : more = [] → places (offset + tag.render.byteLength + inside.width +
          close.piece.width + next.width) = false ∧ more' = [] := by
        simpa [Nat.add_assoc] using ends
      obtain ⟨next', rest⟩ : ∃ next', Woven pairs places _ false next next' more more' :=
        ihNext nestedNext sparesNext readsClose.2.2 readsMore fed otherMore endsNext (by simp)
      have readsClose' := readsClose.keep_closing rest.reads rest.ends
      have fedClose := fed_cons (rfl : close.piece.bare = close.piece.bare) rest.fed
      by_cases bareInside : inside = nil
      · -- Between tags with nothing inside no line feed is put, and nothing comes to be there.
        obtain rfl := bareInside
        have within : Woven pairs places (offset + tag.render.byteLength) false nil nil
            (close.piece :: (next.pieces ++ more)) (close.piece :: (next'.pieces ++ more')) := by
          refine ⟨.nil fun put => ?_, readsClose', fedClose, by simp, by simp⟩
          rw [spared rfl rfl] at put
          contradiction
        exact Woven.element clear done (fun _ => rfl) reads within rest
      · obtain ⟨inside', within⟩ := ihInside nestedInside sparesInside reads.2.2 readsClose'
          fedClose (head_other closing) (by simp)
          (fun afterText => absurd afterText Bool.false_ne_true)
        exact Woven.element clear done (fun empty => absurd empty bareInside) reads within rest

/-! ### What is woven -/

section Weaves

variable {outer : List Text} {woven : Outline}

/-- A woven outline begins with a line feed or with the piece that the outline begins with. -/
private theorem Weaves.head (weaves : outline.Weaves places offset after woven) :
    ∀ piece ∈ woven.pieces.head?, piece.isText = false →
      ∃ first ∈ outline.pieces.head?, piece.bare = first.bare := by
  cases weaves with
  | nil => simp
  | feed | text => simp [Piece.isText]
  | single _ _ bare => simp [bare]
  | element _ bare | unclosed _ bare => simp [Piece.bare, bare]

private theorem Weaves.standsAlone {piece piece' : Piece}
    (weaves : outline.Weaves places offset after woven) (bare : piece'.bare = piece.bare)
    (stands : piece.StandsAlone outer outline.pieces.head?) :
    piece'.StandsAlone outer woven.pieces.head? := by
  refine Piece.standsAlone_of_bare bare (fun tag first head closed => ?_) stands
  cases text : first.isText with
  | true =>
    -- A line feed that comes in between closes nothing.
    cases first <;> simp_all [Piece.isText, Piece.closesVoid]
  | false =>
    obtain ⟨before, headBefore, same⟩ := weaves.head first head text
    exact ⟨before, headBefore, (Piece.closesVoid_of_bare rfl same).symm.trans closed⟩

/-- The same elements wait at the end of a woven outline. -/
theorem Weaves.unclosed_eq (weaves : outline.Weaves places offset after woven) :
    woven.unclosed = outline.unclosed := by
  induction weaves with
  | nil => rfl
  | feed _ _ _ ih | text _ _ ih | single _ _ _ _ ih | element _ _ _ _ _ _ ih => exact ih
  | unclosed _ bare _ ih =>
    have name := OpenTag.name_of_bare bare
    rw [Outline.unclosed, Outline.unclosed, ih, name]

/-- The rules of nesting hold of a woven outline. -/
theorem Weaves.nested (weaves : outline.Weaves places offset after woven)
    (nested : outline.Nested outer) : woven.Nested outer := by
  induction weaves generalizing outer with
  | nil => trivial
  | feed _ _ _ ih => exact ⟨trivial, ih nested⟩
  | text _ _ ih => exact ⟨trivial, ih nested.2⟩
  | single _ _ bare rest ih => exact ⟨rest.standsAlone bare nested.1, ih nested.2⟩
  | element _ bare empty within _ ihInside ihNext =>
    obtain ⟨inside, closes, next⟩ := nested
    have name := OpenTag.name_of_bare bare
    refine ⟨ihInside (name ▸ inside), ?_, ihNext next⟩
    rcases closes with ⟨waits, same, apart⟩ | ⟨plain, void, bareInside, closesVoid⟩
    · refine Or.inl ⟨(OpenTag.waitsIn_of_bare bare).trans waits, ?_, ?_⟩
      · rw [name, same]
      · rw [within.unclosed_eq]
        exact apart
    · refine Or.inr ⟨?_, ?_, empty bareInside, ?_⟩
      · rw [OpenTag.isSelfClosing_of_bare bare, plain]
      · rw [name, void]
      · rw [Piece.closesVoid_of_bare bare rfl, closesVoid]
  | unclosed _ bare _ ih =>
    obtain ⟨waits, inside, _⟩ := nested
    have name := OpenTag.name_of_bare bare
    exact ⟨(OpenTag.waitsIn_of_bare bare).trans waits, ih (name ▸ inside), rfl⟩

variable {tag : OpenTag} {inside next : Outline} {close : ClosingTag}

private theorem renderAll_closed :
    Piece.renderAll (element tag inside (some close) next).pieces =
      tag.render ++ (Piece.renderAll inside.pieces ++
        (close.piece.render ++ Piece.renderAll next.pieces)) := by
  simp [Piece.renderAll, Piece.render]

private theorem renderAll_unclosed :
    Piece.renderAll (element tag inside none nil).pieces =
      tag.render ++ Piece.renderAll inside.pieces := by
  simp [Piece.renderAll, Piece.render]

private theorem feedAll_closed :
    Piece.feedAll places offset (element tag inside (some close) next).pieces =
      feedIf (places offset) ++ (tag.render ++
        (Piece.feedAll places (offset + tag.render.byteLength) inside.pieces ++
          feedIf (places (offset + tag.render.byteLength + inside.width)) ++
        (close.piece.render ++ Piece.feedAll places
          (offset + tag.render.byteLength + inside.width + close.piece.width) next.pieces))) := by
  have opening : (Piece.opening tag).width = tag.render.byteLength := rfl
  rw [pieces_element, Piece.feedAll, List.append_assoc inside.pieces, Piece.feedAll_append, opening]
  simp [Piece.feedAll, Piece.render, width]

private theorem feedAll_unclosed :
    Piece.feedAll places offset (element tag inside none nil).pieces =
      feedIf (places offset) ++ (tag.render ++
        Piece.feedAll places (offset + tag.render.byteLength) inside.pieces) := by
  have opening : (Piece.opening tag).width = tag.render.byteLength := rfl
  rw [pieces_element, Piece.feedAll, opening]
  simp [Piece.render]

/-- A woven outline is written as the outline is, with a line feed at each of the places; the one
at its start may be in the text before it. -/
theorem Weaves.renderAll_eq (weaves : outline.Weaves places offset after woven) :
    feedIf (places offset && after) ++ Piece.renderAll woven.pieces =
      Piece.feedAll places offset outline.pieces ++ feedIf (places (offset + outline.width)) := by
  have taken {offset : Nat} {after : Bool} (done : places offset = true → after = true) :
      (places offset && after) = places offset := by
    cases put : places offset with
    | false => rfl
    | true => rw [done put, Bool.and_self]
  -- Only after a text is the line feed at the start already written.
  induction weaves with
  | nil done => simp [taken done, Piece.renderAll, Piece.feedAll]
  | feed put own _ ih =>
    rw [put, Bool.and_true] at ih
    rw [put, Bool.and_false, ← ih, pieces_single, Piece.renderAll_cons, Piece.render, own]
    rfl
  | text own _ ih =>
    rw [Bool.and_true] at ih
    rw [Bool.and_false, pieces_single, pieces_single, Piece.renderAll_cons, Piece.feedAll,
      Piece.render, own, width_single, List.append_assoc _ (Piece.feedAll _ _ _), ← Nat.add_assoc,
      ← ih]
    simp [feedIf, Piece.render]
  | single done _ bare _ ih =>
    rw [Bool.and_false] at ih
    rw [taken done, pieces_single, pieces_single, Piece.renderAll_cons, Piece.feedAll, width_single,
      List.append_assoc _ (Piece.feedAll _ _ _), ← Nat.add_assoc, ← ih, Piece.render_of_bare bare]
    simp [feedIf]
  | @element offset _ tag _ inside _ close next _ done bare _ _ _ ihInside ihNext =>
    rw [Bool.and_false] at ihInside ihNext
    have stop : offset + (Outline.element tag inside (some close) next).width =
        offset + tag.render.byteLength + inside.width + close.piece.width + next.width := by
      simp [Nat.add_assoc]
    rw [taken done, renderAll_closed, OpenTag.render_of_bare bare, feedAll_closed, stop,
      ← ihInside]
    simp only [List.append_assoc, ← ihNext]
    rfl
  | @unclosed offset _ tag _ inside _ done bare _ ih =>
    rw [Bool.and_false] at ih
    have stop : offset + (Outline.element tag inside none .nil).width =
        offset + tag.render.byteLength + inside.width := by
      simp [Nat.add_assoc]
    rw [taken done, renderAll_unclosed, OpenTag.render_of_bare bare, feedAll_unclosed, stop]
    simp only [List.append_assoc, ← ih]
    rfl

/-- Line feeds can be woven into an outline that is read, at places inside it that spare what has
to stay together; what is read again is the woven outline. -/
theorem exists_weaves (clear : OpenersClear pairs) (nested : outline.Nested [])
    (reads : Piece.Reads pairs outline.pieces) (spares : outline.Spares places 0)
    (last : places outline.width = false) :
    ∃ woven, outline.Weaves places 0 false woven ∧ Piece.Reads pairs woven.pieces ∧
      Piece.renderAll woven.pieces = Piece.feedAll places 0 outline.pieces := by
  have ends : places (0 + outline.width) = false := by
    rw [Nat.zero_add]
    exact last
  obtain ⟨woven, result⟩ : ∃ woven, Woven pairs places 0 false outline woven [] [] :=
    exists_woven clear nested spares (by simpa using reads) trivial (Fed.refl _) (by simp)
      (fun _ => ⟨ends, rfl⟩) (by simp)
  refine ⟨woven, result.weaves, by simpa using result.reads, ?_⟩
  have rendered := result.weaves.renderAll_eq
  rw [ends, Bool.and_false] at rendered
  simpa [feedIf] using rendered

end Weaves

end Outline
end TagLint
