import TagLint.Proofs.BreakPlaces
import TagLint.Proofs.Trimming
import TagLint.Proofs.Weaving

/-!
Each line feed at a place that needs one leaves one place fewer that does.

What a woven outline has between its neighbours is at least what the outline had, and a line feed
where one was put in. So a gap that was broken still is, and a gap that was not is broken where
a line feed was put in.
-/
namespace TagLint

open Written (Piece OpenTag)
open ElementNewline

namespace Text

theorem isBlank_feedIf (put : Bool) : isBlank (feedIf put) = true := by
  cases put <;> decide

theorem reverse_feedIf (put : Bool) : (feedIf put).reverse = feedIf put := by
  cases put <;> rfl

theorem feeds_feedIf (put : Bool) : (feedIf put).feeds = if put then 1 else 0 := by
  cases put <;> rfl

theorem hasLineBreak_reverse (t : Text) : hasLineBreak t.reverse = t.hasLineBreak :=
  List.any_reverse

theorem hasLineBreak_of_subset {s t : Text} (within : s ⊆ t) (broken : s.hasLineBreak = true) :
    t.hasLineBreak = true := by
  obtain ⟨c, member, breaks⟩ := List.any_eq_true.1 broken
  exact List.any_eq_true.2 ⟨c, within member, breaks⟩

theorem leadingBlanks_isPrefix (t u : Text) : t.leadingBlanks <+: leadingBlanks (t ++ u) := by
  rw [leadingBlanks, leadingBlanks, List.takeWhile_append]
  split
  next whole =>
    rw [List.Sublist.eq_of_length (List.takeWhile_sublist _) whole]
    exact List.prefix_append _ _
  · exact List.prefix_rfl

/-- A text keeps the break that it starts with, and a line feed before it is one. -/
theorem hasLineBreak_leadingBlanks (lead : Bool) (t u : Text)
    (broken : lead = true ∨ t.leadingBlanks.hasLineBreak = true) :
    (leadingBlanks (feedIf lead ++ t ++ u)).hasLineBreak = true := by
  have first : leadingBlanks (feedIf lead ++ t ++ u) = feedIf lead ++ leadingBlanks (t ++ u) := by
    rw [List.append_assoc]
    exact List.takeWhile_append_of_pos (List.all_eq_true.1 (isBlank_feedIf lead))
  rw [first]
  rcases broken with rfl | inner
  · rfl
  · refine hasLineBreak_of_subset ?_ inner
    intro c member
    exact List.mem_append_right _ ((leadingBlanks_isPrefix t u).subset member)

/-- A text keeps the break that it ends with, and a line feed after it is one. -/
theorem hasLineBreak_trailingBlanks (tail : Bool) (s t : Text)
    (broken : tail = true ∨ t.trailingBlanks.hasLineBreak = true) :
    (trailingBlanks (s ++ t ++ feedIf tail)).hasLineBreak = true := by
  have turned (r : Text) :
      (trailingBlanks r).hasLineBreak = (leadingBlanks r.reverse).hasLineBreak :=
    hasLineBreak_reverse _
  rw [turned] at broken ⊢
  rw [List.reverse_append, List.reverse_append, reverse_feedIf, ← List.append_assoc]
  exact hasLineBreak_leadingBlanks tail t.reverse s.reverse broken

end Text

section Pieces

variable {content content' : Fragment} {lead tail : Bool}

private theorem isBetween_feed (own : content.text = ['\n']) :
    (Piece.text content).isBetween false = true := by
  simp only [Piece.isBetween, own]
  decide

private theorem isBetween_fed (own : content'.text = feedIf lead ++ content.text ++ feedIf tail)
    (whole : Bool) :
    (Piece.text content').isBetween whole = (Piece.text content).isBetween whole := by
  have one := Text.isBlank_feedIf lead
  have two := Text.isBlank_feedIf tail
  rw [Text.isBlank] at one two
  simp only [Piece.isBetween, own, Text.isBlank, List.all_append, one, two, Bool.true_and,
    Bool.and_true]

private theorem wantsPiece_fed (rule : ElementNewline)
    (own : content'.text = feedIf lead ++ content.text ++ feedIf tail) :
    rule.wantsPiece (.text content') = rule.wantsPiece (.text content) := by
  simp only [wantsPiece, own,
    Text.trim_append _ (Text.isBlank_feedIf lead) (Text.isBlank_feedIf tail)]

private theorem startsBroken_fed
    (own : content'.text = feedIf lead ++ content.text ++ feedIf tail)
    (cause : lead = true ∨ (Piece.text content).startsBroken = true) :
    (Piece.text content').startsBroken = true := by
  simp only [Piece.startsBroken, own]
  exact Text.hasLineBreak_leadingBlanks lead _ _ cause

/-- Whether the line is broken at the end of the piece, if `broken` says whether it is at its
start; a piece between neighbours leaves it broken. -/
private def brokenAfter (whole broken : Bool) (piece : Piece) : Bool :=
  if piece.isBetween whole then broken || piece.render.feeds != 0 else piece.endsBroken

private theorem brokenAfter_feed (own : content.text = ['\n']) (whole broken : Bool) :
    brokenAfter whole broken (.text content) = true := by
  have blank : Text.isBlank ['\n'] = true := by decide
  have ends : (Text.trailingBlanks ['\n']).hasLineBreak = true := by decide
  simp only [brokenAfter, Piece.isBetween, Piece.render, Piece.endsBroken, own, blank, ends]
  cases whole <;> simp [Text.feeds]

private theorem brokenAfter_fed (whole : Bool) {broken broken' : Bool}
    (own : content'.text = feedIf lead ++ content.text ++ feedIf tail)
    (stays : broken = true → broken' = true)
    (cause : tail = true ∨ brokenAfter whole broken (.text content) = true) :
    brokenAfter whole broken' (.text content') = true := by
  rw [brokenAfter, isBetween_fed own]
  rw [brokenAfter] at cause
  split
  next between =>
    rw [if_pos between] at cause
    simp only [Piece.render, own, Text.feeds_append, Text.feeds_feedIf, Bool.or_eq_true,
      bne_iff_ne] at cause ⊢
    rcases cause with rfl | before | inner
    · simp
    · exact Or.inl (stays before)
    · omega
  next solid =>
    rw [if_neg solid] at cause
    simp only [Piece.endsBroken, own] at cause ⊢
    exact Text.hasLineBreak_trailingBlanks tail _ _ cause

/-- A line feed put in before a blank text breaks the line at its end too. -/
private theorem brokenAfter_led (own : content'.text = feedIf lead ++ content.text ++ feedIf tail)
    (blank : (Piece.text content).isBetween false = true) (put : lead = true) (broken : Bool) :
    brokenAfter false broken (.text content') = true := by
  rw [brokenAfter, isBetween_fed own, if_pos blank]
  simp [Piece.render, own, put, Text.feeds_append, Text.feeds_feedIf]

variable {piece piece' : Piece}

private theorem wantsPiece_of_bare (rule : ElementNewline) (bare : piece'.bare = piece.bare) :
    rule.wantsPiece piece' = rule.wantsPiece piece := by
  have unchanged (piece : Piece) : rule.wantsPiece piece = rule.wantsPiece piece.bare := by
    cases piece <;> rfl
  rw [unchanged piece', bare, ← unchanged]

private theorem seen_of_bare (bare : piece'.bare = piece.bare) :
    (∀ whole, piece'.isBetween whole = piece.isBetween whole) ∧
      piece'.startsBroken = piece.startsBroken ∧ piece'.endsBroken = piece.endsBroken ∧
      piece'.render = piece.render := by
  have unchanged (piece : Piece) : (∀ whole, piece.isBetween whole = piece.bare.isBetween whole) ∧
      piece.startsBroken = piece.bare.startsBroken ∧ piece.endsBroken = piece.bare.endsBroken := by
    cases piece <;> exact ⟨fun _ => rfl, rfl, rfl⟩
  obtain ⟨between, starts, ends⟩ := unchanged piece'
  obtain ⟨between', starts', ends'⟩ := unchanged piece
  refine ⟨?_, ?_, ?_, ?_⟩
  · intro whole
    rw [between, between', bare]
  · rw [starts, starts', bare]
  · rw [ends, ends', bare]
  · exact Piece.render_of_bare bare

private theorem brokenAfter_of_bare (whole : Bool) {broken broken' : Bool}
    (bare : piece'.bare = piece.bare) (stays : broken = true → broken' = true)
    (cause : brokenAfter whole broken piece = true) : brokenAfter whole broken' piece' = true := by
  obtain ⟨between, _, ends, render⟩ := seen_of_bare bare
  rw [brokenAfter] at cause ⊢
  rw [between, ends, render]
  split
  next first =>
    rw [if_pos first, Bool.or_eq_true] at cause
    rw [Bool.or_eq_true]
    exact cause.imp_left stays
  next solid =>
    rwa [if_neg solid] at cause

end Pieces

variable {places : Nat → Bool}

/-- Whether the second neighbours are the first ones with line feeds put in at the places: they
want the same, are apart where the first ones are, and are apart where a line feed was put before
them; `put` says whether one was put in before the first. -/
inductive Mended (places : Nat → Bool) : Bool → List Neighbour → List Neighbour → Prop where
  | nil {put : Bool} : Mended places put [] []
  | cons {put : Bool} {a a' : Neighbour} {others others' : List Neighbour}
      (wants : a'.wants = a.wants)
      (apart : put = true ∨ places a.start = true ∨ a.apart = true → a'.apart = true)
      (rest : Mended places (places a.stop) others others') :
      Mended places put (a :: others) (a' :: others')

namespace Mended

variable {put : Bool} {content content' : List Neighbour}

/-- Where the first neighbour is apart, nothing more is asked before it. -/
theorem of_apart (mended : Mended places put content content') (other : Bool)
    (apart : other = true → ∀ first ∈ content'.head?, first.apart = true) :
    Mended places other content content' := by
  cases mended with
  | nil => exact nil
  | cons wants stays rest =>
    refine cons wants ?_ rest
    intro cause
    rcases cause with before | own
    · exact apart before _ rfl
    · exact stays (Or.inr own)

/-- A place that still needs a line break did so before, and none was put in there. -/
private theorem length_placeIf {needs needs' : Bool} {place : Nat}
    (stays : needs' = true → needs = true ∧ places place = false) (place' : Nat) :
    (if needs' then [place'] else []).length + (if needs then [place] else []).countP places ≤
      (if needs then [place] else []).length := by
  cases needs' with
  | false =>
    rw [if_neg Bool.false_ne_true, List.length_nil, Nat.zero_add]
    exact List.countP_le_length
  | true =>
    obtain ⟨rfl, kept⟩ := stays rfl
    simp [kept]

private theorem length_pairPlace {a a' b b' : Neighbour} (wants : a'.wants = a.wants)
    (wants' : b'.wants = b.wants)
    (apart : places a.stop = true ∨ places b.start = true ∨ b.apart = true → b'.apart = true) :
    (pairPlace a' b').length + (pairPlace a b).countP places ≤ (pairPlace a b).length := by
  rw [pairPlace, pairPlace, wants, wants']
  apply length_placeIf
  intro needs
  rw [Bool.and_eq_true, Bool.not_eq_true', ← Bool.not_eq_true] at needs
  obtain ⟨broken, wanted⟩ := needs
  -- The gap is open, so it was open before, and no line feed was put in at either end of it.
  have kept (place : Nat) (ends : place = a.stop ∨ place = b.start) : places place = false := by
    rw [Bool.eq_false_iff]
    intro put
    rcases ends with rfl | rfl
    · exact broken (apart (Or.inl put))
    · exact broken (apart (Or.inr (Or.inl put)))
  have open_ : b.apart = false := by
    rw [Bool.eq_false_iff]
    intro own
    exact broken (apart (Or.inr (Or.inr own)))
  refine ⟨by rw [open_, wanted]; rfl, kept _ ?_⟩
  split
  · exact Or.inl rfl
  · exact Or.inr rfl

/-- Between the new neighbours as many places fewer need a line break as were among those where a
line feed was put in. -/
theorem length_pairPlaces (mended : Mended places put content content') :
    (pairPlaces content').length + (pairPlaces content).countP places ≤
      (pairPlaces content).length := by
  induction mended with
  | nil => exact Nat.le_refl 0
  | @cons _ a a' _ _ wants _ rest ih =>
    cases rest with
    | nil => exact Nat.le_refl 0
    | @cons _ b b' _ _ wants' apart _ =>
      have here := length_pairPlace wants wants' apart
      simp only [pairPlaces, List.length_append, List.countP_append] at ih ⊢
      omega

private theorem edgePlaces_cons (within stop : Nat) (isClosed broken : Bool) (a : Neighbour)
    (others : List Neighbour) :
    edgePlaces within stop isClosed broken (a :: others) =
      (if !a.apart then [within] else []) ++ if isClosed && !broken then [stop] else [] := by
  simp [edgePlaces]

/-- The same is so at the ends of the new content. -/
theorem length_edgePlaces {within stop : Nat} {broken broken' : Bool}
    (mended : Mended places (places within) content content') (isClosed : Bool)
    (ends : places stop = true ∨ broken = true → broken' = true) (within' stop' : Nat) :
    (edgePlaces within' stop' isClosed broken' content').length +
        (edgePlaces within stop isClosed broken content).countP places ≤
      (edgePlaces within stop isClosed broken content).length := by
  cases mended with
  | nil => simp [edgePlaces]
  | @cons _ a a' _ _ _ apart _ =>
    -- Each end needs a line break in the new content only if it did in the old and got none.
    have first : (!a'.apart) = true → (!a.apart) = true ∧ places within = false := by
      intro needs
      rw [Bool.not_eq_true', ← Bool.not_eq_true] at needs
      constructor
      · rw [Bool.not_eq_true', Bool.eq_false_iff]
        exact fun own => needs (apart (Or.inr (Or.inr own)))
      · rw [Bool.eq_false_iff]
        exact fun put => needs (apart (Or.inl put))
    have last : (isClosed && !broken') = true →
        (isClosed && !broken) = true ∧ places stop = false := by
      intro needs
      rw [Bool.and_eq_true, Bool.not_eq_true', ← Bool.not_eq_true] at needs
      obtain ⟨closed, needs⟩ := needs
      constructor
      · rw [closed, Bool.true_and, Bool.not_eq_true', Bool.eq_false_iff]
        exact fun own => needs (ends (Or.inr own))
      · rw [Bool.eq_false_iff]
        exact fun put => needs (ends (Or.inl put))
    have first := length_placeIf first within'
    have last := length_placeIf last stop'
    simp only [edgePlaces_cons, List.length_append, List.countP_append]
    omega

end Mended

namespace Outline

variable {rule : ElementNewline} {offset offset' : Nat} {after broken broken' : Bool}
  {outline woven : Outline}

theorem neighbours_apart (rule : ElementNewline) (offset : Nat) (outline : Outline) :
    ∀ first ∈ (outline.neighbours rule offset true).head?, first.apart = true := by
  induction outline generalizing offset with
  | nil => simp [neighbours]
  | single piece next ih =>
    rw [neighbours]
    split
    · exact ih _
    · rintro _ ⟨⟩
      rfl
  | element tag inside close next _ _ =>
    rintro _ ⟨⟩
    rfl

private theorem neighbours_single (piece : Piece) (next : Outline) :
    (single piece next).neighbours rule offset broken =
      if piece.isBetween false then
        next.neighbours rule (offset + piece.width) (brokenAfter false broken piece)
      else
        ⟨rule.wantsPiece piece, offset, offset + piece.width, broken || piece.startsBroken⟩ ::
          next.neighbours rule (offset + piece.width) (brokenAfter false broken piece) := by
  rw [neighbours, brokenAfter]
  split <;> rfl

private theorem breaks_single (whole : Bool) (piece : Piece) (next : Outline) :
    (single piece next).breaks whole broken =
      next.breaks whole (brokenAfter whole broken piece) := rfl

/-- A line feed before something other than text has made a break there already. -/
private theorem broken_of (stays : broken = true → broken' = true)
    (taken : places offset = true → after = true → broken' = true)
    (done : places offset = true → after = true)
    (cause : places offset = true ∨ places offset = true ∨ broken = true) : broken' = true := by
  rcases cause with put | put | own
  · exact taken put (done put)
  · exact taken put (done put)
  · exact stays own

theorem Weaves.mended (weaves : outline.Weaves places offset after woven) (offset' : Nat)
    (stays : broken = true → broken' = true)
    (taken : places offset = true → after = true → broken' = true) :
    Mended places (places offset) (outline.neighbours rule offset broken)
      (woven.neighbours rule offset' broken') := by
  -- A break before the outline stays one; and a line feed at its start that text before it took
  -- has made one already.
  induction weaves generalizing offset' broken broken' with
  | nil => exact .nil
  | @feed offset outline woven content put own rest ih =>
    rw [neighbours_single, if_pos (isBetween_feed own), brokenAfter_feed own]
    exact ih _ (fun _ => rfl) (fun _ _ => rfl)
  | @text offset content content' next next' own rest ih =>
    have others := ih (offset' + (Piece.text content').width)
      (fun before => brokenAfter_fed false own stays (Or.inr before))
      (fun put _ => brokenAfter_fed false own stays (Or.inl put))
    rw [neighbours_single, neighbours_single, isBetween_fed own]
    split
    next blank =>
      -- The blank text is no neighbour: the line feed before it stands before the next one.
      apply others.of_apart
      intro put
      rw [brokenAfter_led own blank put]
      exact neighbours_apart rule _ _
    next solid =>
      refine .cons (wantsPiece_fed rule own) ?_ others
      intro cause
      rw [Bool.or_eq_true] at cause ⊢
      rcases cause with put | put | before | inner
      · exact Or.inr (startsBroken_fed own (Or.inl put))
      · exact Or.inr (startsBroken_fed own (Or.inl put))
      · exact Or.inl (stays before)
      · exact Or.inr (startsBroken_fed own (Or.inr inner))
  | @single offset after piece piece' next next' done other bare rest ih =>
    obtain ⟨between, starts, _, render⟩ := seen_of_bare bare
    have others := ih (offset' + piece'.width) (brokenAfter_of_bare false bare stays) (by simp)
    rw [neighbours_single, neighbours_single, between, starts]
    split
    next first =>
      apply others.of_apart
      intro put
      rw [brokenAfter, between, if_pos first, taken put (done put), Bool.true_or]
      exact neighbours_apart rule _ _
    next solid =>
      refine .cons (wantsPiece_of_bare rule bare) ?_ others
      intro cause
      rw [Bool.or_eq_true] at cause ⊢
      rcases cause with put | put | before | inner
      · exact Or.inl (taken put (done put))
      · exact Or.inl (taken put (done put))
      · exact Or.inl (stays before)
      · exact Or.inr inner
  | @element offset after tag tag' inside inside' close next next' done bare _ _ _ _ ihNext =>
    have same : (Piece.opening tag').bare = (Piece.opening tag).bare := congrArg Piece.opening bare
    exact .cons (wantsPiece_of_bare rule same) (broken_of stays taken done)
      (ihNext _ id (by simp))
  | @unclosed offset after tag tag' inside inside' done bare _ _ =>
    have same : (Piece.opening tag').bare = (Piece.opening tag).bare := congrArg Piece.opening bare
    exact .cons (wantsPiece_of_bare rule same) (broken_of stays taken done) .nil

/-- What is broken at the end of an outline is broken at the end of a woven one, and so is what
a line feed was put in at. -/
theorem Weaves.breaks_eq_true (weaves : outline.Weaves places offset after woven) (whole : Bool)
    (stays : broken = true → broken' = true)
    (taken : places offset = true → after = true → broken' = true)
    (cause : places (offset + outline.width) = true ∨ outline.breaks whole broken = true) :
    woven.breaks whole broken' = true := by
  induction weaves generalizing whole broken broken' with
  | nil done =>
    rcases cause with put | own
    · exact taken put (done put)
    · exact stays own
  | feed _ own _ ih =>
    rw [breaks_single, brokenAfter_feed own]
    exact ih whole (fun _ => rfl) (fun _ _ => rfl) cause
  | text own _ ih =>
    rw [width_single, ← Nat.add_assoc, breaks_single] at cause
    rw [breaks_single]
    exact ih whole (fun before => brokenAfter_fed whole own stays (Or.inr before))
      (fun put _ => brokenAfter_fed whole own stays (Or.inl put)) cause
  | single _ _ bare _ ih =>
    rw [width_single, ← Nat.add_assoc, breaks_single] at cause
    rw [breaks_single]
    exact ih whole (brokenAfter_of_bare whole bare stays) (by simp) cause
  | element _ _ _ _ _ _ ihNext =>
    rw [width_element, ← Nat.add_assoc, ← Nat.add_assoc, ← Nat.add_assoc] at cause
    exact ihNext whole id (by simp) cause
  | @unclosed offset _ tag _ inside _ _ _ _ ih =>
    -- An element without a closing tag ends where what is inside it does.
    have spanned : offset + (Outline.element tag inside none .nil).width =
        offset + tag.render.byteLength + inside.width := by
      simp [Nat.add_assoc]
    rw [spanned] at cause
    exact ih true id (by simp) cause

/-- Whether fewer places of the new list need a line break, by as many as were among those where a
line feed was put in, and as much is wanted. -/
private def Mends (places : Nat → Bool) (inside inside' : List Nat × Bool) : Prop :=
  inside'.1.length + inside.1.countP places ≤ inside.1.length ∧ inside'.2 = inside.2

/-- What was put into an element and after it, where it was woven, mends the element. -/
private theorem mends_element {tag tag' : OpenTag} {inside inside' next next' : Outline}
    (close : Option ClosingTag) (bare : tag'.bare = tag.bare)
    (within : inside.Weaves places (offset + tag.render.byteLength) false inside')
    (below : ∀ offset', Mends places (inside.insidePlaces rule (offset + tag.render.byteLength))
      (inside'.insidePlaces rule offset'))
    (rest : ∀ offset', Mends places (next.insidePlaces rule (offset + tag.render.byteLength +
        inside.width + (close.map fun close => close.piece.width).getD 0))
      (next'.insidePlaces rule offset')) (offset' : Nat) :
    Mends places ((Outline.element tag inside close next).insidePlaces rule offset)
      ((Outline.element tag' inside' close next').insidePlaces rule offset') := by
  have name := OpenTag.name_of_bare bare
  have same : (Piece.opening tag').bare = (Piece.opening tag).bare := congrArg Piece.opening bare
  rw [insidePlaces, insidePlaces, wantsPiece_of_bare rule same, name]
  obtain ⟨fewer, wanted⟩ := rest (offset' + tag'.render.byteLength + inside'.width +
    (close.map fun close => close.piece.width).getD 0)
  split
  · -- Nothing is asked of what is inside a skipped element.
    exact ⟨fewer, congrArg (rule.wantsPiece (.opening tag) || ·) wanted⟩
  · obtain ⟨fewer', wanted'⟩ := below (offset' + tag'.render.byteLength)
    have content : Mended places (places (offset + tag.render.byteLength))
        (inside.neighbours rule (offset + tag.render.byteLength) false)
        (inside'.neighbours rule (offset' + tag'.render.byteLength) false) :=
      within.mended _ id (by simp)
    have pairs := content.length_pairPlaces
    have breaks : places (offset + tag.render.byteLength + inside.width) = true ∨
        inside.breaks false false = true → inside'.breaks false false = true :=
      within.breaks_eq_true false id (by simp)
    have edges := content.length_edgePlaces close.isSome breaks (offset' + tag'.render.byteLength)
      (offset' + tag'.render.byteLength + inside'.width)
    refine ⟨?_, by simp only [wanted, wanted']⟩
    simp only [List.length_append, List.countP_append, wanted']
    split
    · omega
    · simp only [List.length_nil, List.countP_nil]
      omega

/-- Where line feeds were put in, as many places fewer inside the elements need one. -/
private theorem Weaves.mends (weaves : outline.Weaves places offset after woven) (offset' : Nat) :
    Mends places (outline.insidePlaces rule offset) (woven.insidePlaces rule offset') := by
  induction weaves generalizing offset' with
  | nil => exact ⟨Nat.le_refl 0, rfl⟩
  | feed _ own _ ih =>
    rw [insidePlaces, if_pos (isBetween_feed own)]
    exact ih _
  | text own _ ih =>
    rw [insidePlaces, insidePlaces, isBetween_fed own, wantsPiece_fed rule own]
    split
    · exact ih _
    · exact ⟨(ih _).1, congrArg (rule.wantsPiece _ || ·) (ih _).2⟩
  | single _ _ bare _ ih =>
    rw [insidePlaces, insidePlaces, (seen_of_bare bare).1, wantsPiece_of_bare rule bare]
    split
    · exact ih _
    · exact ⟨(ih _).1, congrArg (rule.wantsPiece _ || ·) (ih _).2⟩
  | element _ bare _ within _ ihInside ihNext =>
    exact mends_element (some _) bare within ihInside ihNext offset'
  | unclosed _ bare within ih =>
    have nothing (here there : Nat) :
        Mends places (Outline.nil.insidePlaces rule here) (Outline.nil.insidePlaces rule there) :=
      ⟨Nat.le_refl 0, rfl⟩
    exact mends_element none bare within ih (nothing _) offset'

/-- In a woven outline as many places fewer need a line break as were among those where a line feed
was put in. -/
theorem Weaves.length_breakPlaces (weaves : outline.Weaves places 0 false woven) :
    (woven.breakPlaces rule).length + (outline.breakPlaces rule).countP places ≤
      (outline.breakPlaces rule).length := by
  obtain ⟨inside, _⟩ : Mends places (outline.insidePlaces rule 0) (woven.insidePlaces rule 0) :=
    weaves.mends 0
  have content : Mended places (places 0) (outline.neighbours rule 0 false)
      (woven.neighbours rule 0 false) := weaves.mended 0 id (by simp)
  have pairs := content.length_pairPlaces
  simp only [breakPlaces, List.length_append, List.countP_append]
  omega

end Outline

end TagLint
