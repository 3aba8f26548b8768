import TagLint.Proofs.LineCount
import TagLint.Proofs.Weaving

/-!
Where pieces stand once line feeds have been put in.

`Ahead` compares what comes before a piece in an outline with what comes before it in the outline
with line feeds woven in. Where no line feed is put in between, two pieces stay as many lines apart
as they were.
-/
namespace TagLint

open Written (Piece OpenTag)

namespace Written.Piece

theorem feedAll_of_free {places : Nat → Bool} {offset : Nat} {pieces : List Piece}
    (free : ∀ place, places place = true →
      ¬(offset ≤ place ∧ place ≤ offset + (renderAll pieces).byteLength)) :
    feedAll places offset pieces ++ feedIf (places (offset + (renderAll pieces).byteLength)) =
      renderAll pieces := by
  induction pieces generalizing offset with
  | nil =>
    have here : places offset = false := Bool.eq_false_iff.2 fun put =>
      free offset put ⟨Nat.le_refl _, Nat.le_refl _⟩
    simp [renderAll, feedAll, here, feedIf]
  | cons piece others ih =>
    have shown : (renderAll (piece :: others)).byteLength =
        piece.width + (renderAll others).byteLength := by
      rw [renderAll_cons, Text.byteLength_append]
    rw [shown] at free
    have here : places offset = false := Bool.eq_false_iff.2 fun put =>
      free offset put ⟨Nat.le_refl _, by omega⟩
    have rest := @ih (offset + piece.width) fun place put bounds =>
      free place put (by omega)
    rw [shown, renderAll_cons, feedAll, here, ← Nat.add_assoc, List.append_assoc, rest]
    simp [feedIf]

/-- Each of the pieces with all that comes before it, after the pieces `pre`. -/
def reached (pre : List Piece) : List Piece → List (List Piece × Piece)
  | [] => []
  | piece :: others => (pre, piece) :: reached (pre ++ [piece]) others

theorem renderAll_singleton (piece : Piece) : renderAll [piece] = piece.render := by
  simp [renderAll]

theorem byteLength_concat (pre : List Piece) (piece : Piece) :
    (renderAll (pre ++ [piece])).byteLength = (renderAll pre).byteLength + piece.width := by
  rw [renderAll_append, Text.byteLength_append, renderAll_singleton]

theorem byteLength_opening (pre : List Piece) (tag : OpenTag) :
    (renderAll (pre ++ [.opening tag])).byteLength =
      (renderAll pre).byteLength + tag.render.byteLength :=
  byteLength_concat pre (.opening tag)

theorem isClosing_of_bare {piece piece' : Piece} (bare : piece'.bare = piece.bare) :
    piece'.isClosing = piece.isClosing := by
  have own (piece : Piece) : piece.bare.isClosing = piece.isClosing := by
    cases piece <;> rfl
  rw [← own, bare, own]

theorem feedAll_singleton (places : Nat → Bool) (offset : Nat) (piece : Piece) :
    feedAll places offset [piece] = feedIf (places offset) ++ piece.render := by
  simp [feedAll]

theorem reached_append (pre first second : List Piece) :
    reached pre (first ++ second) = reached pre first ++ reached (pre ++ first) second := by
  induction first generalizing pre with
  | nil => simp [reached]
  | cons piece others ih => simp [reached, ih]

theorem exists_of_mem_reached {pre pieces before : List Piece} {piece : Piece}
    (member : (before, piece) ∈ reached pre pieces) :
    ∃ after, pre ++ pieces = before ++ piece :: after := by
  induction pieces generalizing pre with
  | nil => simp [reached] at member
  | cons first others ih =>
    rcases List.mem_cons.1 member with here | later
    · obtain ⟨rfl, rfl⟩ := Prod.mk.inj here
      exact ⟨others, rfl⟩
    · obtain ⟨after, split⟩ := ih later
      exact ⟨after, by simpa using split⟩

end Written.Piece

/-- Whether the second pieces are what the first ones are with a line feed at each of the places;
that at their end is among them if they end with text. -/
def Ahead (places : Nat → Bool) (after : Bool) (pre pre' : List Piece) : Prop :=
  Piece.renderAll pre' = Piece.feedAll places 0 pre ++
    feedIf (places (Piece.renderAll pre).byteLength && after)

namespace Ahead

variable {places : Nat → Bool} {after : Bool} {pre pre' : List Piece}

theorem nil (places : Nat → Bool) : Ahead places false [] [] := by
  simp [Ahead, Piece.renderAll, Piece.feedAll, feedIf]

/-- The line feed at the end is there, if there has to be one. -/
theorem full (ahead : Ahead places after pre pre')
    (done : places (Piece.renderAll pre).byteLength = true → after = true) :
    Ahead places true pre pre' := by
  rw [Ahead] at ahead ⊢
  rw [ahead]
  congr 2
  cases put : places (Piece.renderAll pre).byteLength with
  | false => rfl
  | true => rw [done put]

theorem piece {piece piece' : Piece} (ahead : Ahead places true pre pre')
    (shown : piece'.render = piece.render) :
    Ahead places false (pre ++ [piece]) (pre' ++ [piece']) := by
  rw [Ahead, Bool.and_true] at ahead
  rw [Ahead, Piece.renderAll_append, ahead, Piece.feedAll_append, Bool.and_false,
    Piece.renderAll_singleton, Piece.feedAll_singleton, shown, Nat.zero_add]
  simp [feedIf]

theorem feed {content : Fragment} (ahead : Ahead places false pre pre')
    (put : places (Piece.renderAll pre).byteLength = true) (own : content.text = ['\n']) :
    Ahead places true pre (pre' ++ [.text content]) := by
  rw [Ahead, Bool.and_false] at ahead
  rw [Ahead, Piece.renderAll_append, ahead, put]
  simp [Piece.renderAll, Piece.render, own, feedIf]

theorem text {content content' : Fragment} (ahead : Ahead places false pre pre')
    (own : content'.text = feedIf (places (Piece.renderAll pre).byteLength) ++ content.text ++
      feedIf (places ((Piece.renderAll pre).byteLength + Piece.width (.text content)))) :
    Ahead places true (pre ++ [.text content]) (pre' ++ [.text content']) := by
  rw [Ahead, Bool.and_false] at ahead
  rw [Ahead, Piece.byteLength_concat, Piece.renderAll_append, ahead, Piece.feedAll_append,
    Bool.and_true, Piece.renderAll_singleton, Piece.feedAll_singleton, Nat.zero_add, Piece.render,
    own]
  simp [feedIf, Piece.render]

/-- Past a whole outline, with the line feed at its end. -/
theorem outline {outline woven : Outline} (ahead : Ahead places after pre pre')
    (weaves : outline.Weaves places (Piece.renderAll pre).byteLength after woven) :
    Ahead places true (pre ++ outline.pieces) (pre' ++ woven.pieces) := by
  have inner := weaves.renderAll_eq
  rw [Ahead] at ahead
  rw [Ahead, Piece.renderAll_append, ahead, List.append_assoc, inner, Piece.feedAll_append,
    Piece.renderAll_append, Text.byteLength_append, Bool.and_true, List.append_assoc, Nat.zero_add]
  rfl

/-- Past an opening tag that is read again. -/
theorem opening {tag tag' : OpenTag} (ahead : Ahead places after pre pre')
    (done : places (Piece.renderAll pre).byteLength = true → after = true)
    (bare : tag'.bare = tag.bare) :
    Ahead places false (pre ++ [.opening tag]) (pre' ++ [.opening tag']) :=
  (ahead.full done).piece (OpenTag.render_of_bare bare)

/-- Past a whole element, of which the opening tag comes last in `pre`. -/
theorem closing {inside inside' : Outline} (close : ClosingTag)
    (ahead : Ahead places false pre pre')
    (within : inside.Weaves places (Piece.renderAll pre).byteLength false inside') :
    Ahead places false (pre ++ inside.pieces ++ [close.piece])
      (pre' ++ inside'.pieces ++ [close.piece]) :=
  (ahead.outline within).piece rfl

/-- Without a line feed in between, what comes next stays as it is written. -/
theorem renderAll_eq {middle last : List Piece} (ahead : Ahead places false pre pre')
    (onward : Ahead places true (pre ++ middle) last)
    (free : ∀ place, places place = true →
      ¬((Piece.renderAll pre).byteLength ≤ place ∧
        place ≤ (Piece.renderAll (pre ++ middle)).byteLength)) :
    Piece.renderAll last = Piece.renderAll pre' ++ Piece.renderAll middle := by
  rw [Ahead, Bool.and_false] at ahead
  rw [Ahead, Bool.and_true, Piece.feedAll_append, Piece.renderAll_append, Text.byteLength_append,
    Nat.zero_add, List.append_assoc, Piece.feedAll_of_free ?_] at onward
  · rw [onward, ahead]
    simp [feedIf]
  · intro place put bounds
    rw [Piece.renderAll_append, Text.byteLength_append] at free
    exact free place put bounds

end Ahead

namespace Outline

theorem byteLength_through (pre : List Piece) (outline : Outline) :
    (Piece.renderAll (pre ++ outline.pieces)).byteLength =
      (Piece.renderAll pre).byteLength + outline.width := by
  rw [Piece.renderAll_append, Text.byteLength_append, width]

/-- The end of an element, as far as it is written. -/
theorem byteLength_element (pre : List Piece) (tag : OpenTag) (inside : Outline)
    (close : Option ClosingTag) :
    (Piece.renderAll (pre ++ [.opening tag] ++ inside.pieces ++
        (close.map ClosingTag.piece).toList)).byteLength =
      (Piece.renderAll pre).byteLength + tag.render.byteLength + inside.width +
        (close.map fun close => close.piece.width).getD 0 := by
  rw [Piece.renderAll_append, Text.byteLength_append, byteLength_close, byteLength_through,
    Piece.byteLength_opening]

theorem reached_element (pre : List Piece) (tag : OpenTag) (inside next : Outline)
    (close : Option ClosingTag) :
    Piece.reached pre (element tag inside close next).pieces =
      (pre, .opening tag) :: (Piece.reached (pre ++ [.opening tag]) inside.pieces ++
        (Piece.reached (pre ++ [.opening tag] ++ inside.pieces)
            (close.map ClosingTag.piece).toList ++
          Piece.reached (pre ++ [.opening tag] ++ inside.pieces ++
            (close.map ClosingTag.piece).toList) next.pieces)) := by
  simp [Piece.reached, Piece.reached_append]

theorem reached_closed (pre : List Piece) (tag : OpenTag) (inside next : Outline)
    (close : ClosingTag) :
    Piece.reached pre (element tag inside (some close) next).pieces =
      (pre, .opening tag) :: (Piece.reached (pre ++ [.opening tag]) inside.pieces ++
        (pre ++ [.opening tag] ++ inside.pieces, close.piece) ::
          Piece.reached (pre ++ [.opening tag] ++ inside.pieces ++ [close.piece]) next.pieces) := by
  simp [Piece.reached, Piece.reached_append]

theorem reached_unclosed (pre : List Piece) (tag : OpenTag) (inside : Outline) :
    Piece.reached pre (element tag inside none nil).pieces =
      (pre, .opening tag) :: Piece.reached (pre ++ [.opening tag]) inside.pieces := by
  simp [Piece.reached]

variable {places : Nat → Bool} {offset : Nat} {after : Bool} {outline woven : Outline}

/-- Every piece but text is in the woven outline too, and what comes before it is ahead. -/
theorem Weaves.exists_reached (weaves : outline.Weaves places offset after woven)
    {pre pre' : List Piece} (here : offset = (Piece.renderAll pre).byteLength)
    (ahead : Ahead places after pre pre') {before : List Piece} {piece : Piece}
    (member : (before, piece) ∈ Piece.reached pre outline.pieces)
    (other : piece.isText = false) :
    ∃ before' piece', (before', piece') ∈ Piece.reached pre' woven.pieces ∧
      piece'.bare = piece.bare ∧ Ahead places true before before' := by
  -- What comes before the two outlines grows along, and `Ahead` holds of it all the way.
  induction weaves generalizing pre pre' with
  | nil => simp [Piece.reached] at member
  | feed put own _ ih =>
    subst here
    obtain ⟨before', piece', within, rest⟩ := ih rfl (ahead.feed put own) member
    exact ⟨before', piece', List.mem_cons_of_mem _ within, rest⟩
  | text own _ ih =>
    subst here
    rcases List.mem_cons.1 member with first | later
    · obtain ⟨rfl, rfl⟩ := Prod.mk.inj first
      contradiction
    · obtain ⟨before', piece', within, rest⟩ :=
        ih (Piece.byteLength_concat _ _).symm (ahead.text own) later
      exact ⟨before', piece', List.mem_cons_of_mem _ within, rest⟩
  | single done _ bare _ ih =>
    subst here
    have full := ahead.full done
    rcases List.mem_cons.1 member with first | later
    · obtain ⟨rfl, rfl⟩ := Prod.mk.inj first
      exact ⟨_, _, List.mem_cons_self, bare, full⟩
    · obtain ⟨before', piece', within, rest⟩ := ih (Piece.byteLength_concat _ _).symm
        (full.piece (Piece.render_of_bare bare)) later
      exact ⟨before', piece', List.mem_cons_of_mem _ within, rest⟩
  | @element offset after tag tag' inside inside' close next next' done bare _ within rest ihInside
      ihNext =>
    subst here
    have start := (Piece.byteLength_opening pre tag).symm
    have stop := (byteLength_element pre tag inside (some close)).symm
    rw [start] at within
    have opened := ahead.opening done bare
    rw [reached_closed, List.mem_cons, List.mem_append, List.mem_cons] at member
    rw [reached_closed]
    simp only [List.mem_cons, List.mem_append]
    rcases member with first | deeper | last | later
    · obtain ⟨rfl, rfl⟩ := Prod.mk.inj first
      exact ⟨pre', .opening tag', Or.inl rfl, congrArg Piece.opening bare, ahead.full done⟩
    · obtain ⟨before', piece', within', result⟩ := ihInside start opened deeper
      exact ⟨before', piece', Or.inr (Or.inl within'), result⟩
    · obtain ⟨rfl, rfl⟩ := Prod.mk.inj last
      exact ⟨_, close.piece, Or.inr (Or.inr (Or.inl rfl)), rfl, opened.outline within⟩
    · obtain ⟨before', piece', within', result⟩ := ihNext stop (opened.closing close within) later
      exact ⟨before', piece', Or.inr (Or.inr (Or.inr within')), result⟩
  | @unclosed offset after tag tag' inside inside' done bare within ih =>
    subst here
    have start := (Piece.byteLength_opening pre tag).symm
    rw [reached_unclosed, List.mem_cons] at member
    rw [reached_unclosed]
    simp only [List.mem_cons]
    rcases member with first | deeper
    · obtain ⟨rfl, rfl⟩ := Prod.mk.inj first
      exact ⟨pre', .opening tag', Or.inl rfl, congrArg Piece.opening bare, ahead.full done⟩
    · obtain ⟨before', piece', within', result⟩ := ih start (ahead.opening done bare) deeper
      exact ⟨before', piece', Or.inr within', result⟩

end Outline

end TagLint
