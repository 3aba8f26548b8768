import TagLint.Proofs.ClosingEdits
import TagLint.Proofs.WovenPlaces

/-!
Which opening tags `require-closing-tags` reports, and that line feeds put in do not change it.

What the rule says of an opening tag hangs on the subtree that it is in, on whether its element is
closed and, for custom elements that may close themselves, on whether anything is inside.
`Outline.openings` lists the opening tags with all of this, and `ClosingTags.complaint?` reads off
it what the rule says.
-/
namespace TagLint

open Written (Piece OpenTag)
open ClosingTags (reportsIn closesItself)

/-- An opening tag with what comes before it and with what its element has inside. -/
structure Opening where
  before : List Piece
  tag : OpenTag
  isForeign : Bool
  isClosed : Bool
  inside : Outline

namespace Outline

/-- Whether nothing in the outline becomes a node: there are only closing tags that close
nothing. -/
def isBare (outline : Outline) : Bool :=
  outline.pieces.all Piece.isClosing

/-- The opening tags of an outline that comes after the pieces `pre`, inside a foreign subtree or
outside of all. -/
def openings (isForeign : Bool) (pre : List Piece) : Outline → List Opening
  | nil => []
  | single piece next =>
    let others := next.openings isForeign (pre ++ [piece])
    match piece with
    | .opening tag => ⟨pre, tag, isForeign, false, nil⟩ :: others
    | _ => others
  | element tag inside close next =>
    ⟨pre, tag, isForeign, close.isSome, inside⟩ ::
      (inside.openings (isForeign || isForeignRoot tag.name) (pre ++ [.opening tag]) ++
        next.openings isForeign
          (pre ++ [.opening tag] ++ inside.pieces ++ (close.map ClosingTag.piece).toList))

end Outline

namespace Opening

/-- The offset of the opening tag. -/
def start (opening : Opening) : Nat :=
  (Piece.renderAll opening.before).byteLength

/-- The offset after the opening tag. -/
def within (opening : Opening) : Nat :=
  opening.start + opening.tag.render.byteLength

end Opening

/-! ### What the rule says of an opening tag -/

namespace ClosingTags

/-- Whether the name is that of a custom element that may close itself when nothing is inside. -/
def mayStandAlone (rule : ClosingTags) (name : Text) : Bool :=
  rule.isCustom name && rule.allowsCustom

/-- Whether the element may close itself. -/
def mayClose (rule : ClosingTags) (opening : Opening) : Bool :=
  isVoidName opening.tag.name || opening.isForeign ||
    (rule.mayStandAlone opening.tag.name && opening.inside.isBare)

/-- The part of the opening tag before the place where the rule reports it; none if it does not. -/
def complaint? (rule : ClosingTags) (opening : Opening) : Option Text :=
  let tag := opening.tag
  if tag.isSelfClosing && rule.mayStandAlone tag.name then none
  else if tag.isSelfClosing || rule.mayClose opening then
    if (rule.prefersSelfClosing && rule.mayClose opening) == tag.isSelfClosing then none
    else some (tag.head ++ tag.gap)
  else if opening.isClosed then none
  else some []

/-- Whether the rule asks of the opening tag if anything is inside. -/
def asksInside (rule : ClosingTags) (opening : Opening) : Bool :=
  !opening.tag.isSelfClosing && !isVoidName opening.tag.name &&
    rule.mayStandAlone opening.tag.name

variable {rule : ClosingTags}

/-- Where the rule complains about a tag, what it complains about starts with the tag. -/
theorem complaint?_prefix {opening : Opening} {lead : Text}
    (found : rule.complaint? opening = some lead) : lead <+: opening.tag.render := by
  have shown : opening.tag.render =
      opening.tag.head ++ opening.tag.gap ++ opening.tag.ending.render := by
    rw [OpenTag.render_eq, List.append_assoc]
  simp only [complaint?] at found
  split_ifs at found
  · obtain rfl := Option.some.inj found
    exact ⟨_, shown.symm⟩
  · obtain rfl := Option.some.inj found
    exact List.nil_prefix

/-- The rule says the same of a tag that is read again, if its element is closed or not as before
and may close itself as before. -/
theorem complaint?_of_bare {opening opening' : Opening}
    (bare : opening'.tag.bare = opening.tag.bare)
    (isClosed : opening'.isClosed = opening.isClosed)
    (may : rule.mayClose opening' = rule.mayClose opening) :
    rule.complaint? opening' = rule.complaint? opening := by
  have name := OpenTag.name_of_bare bare
  have closes := OpenTag.isSelfClosing_of_bare bare
  have ending : opening'.tag.ending = opening.tag.ending := by
    simpa [OpenTag.bare] using congrArg OpenTag.ending bare
  have lead : opening'.tag.head ++ opening'.tag.gap = opening.tag.head ++ opening.tag.gap := by
    have same := OpenTag.render_of_bare bare
    rw [OpenTag.render_eq, OpenTag.render_eq, ending, ← List.append_assoc, ← List.append_assoc]
      at same
    exact List.append_cancel_right same
  simp only [complaint?, may, name, closes, lead, isClosed]

section Check

variable {index : LineIndex}

/-- Where the rule reports the opening tag, in bytes and by line and column. -/
def place? (rule : ClosingTags) (index : LineIndex) (opening : Opening) :
    Option (Nat × Position) :=
  (rule.complaint? opening).map fun lead =>
    (opening.start + lead.byteLength, index.position (opening.start + lead.byteLength))

/-- Where a report starts, in bytes and by line and column. -/
def placeOf (report : Report) : Nat × Position :=
  (report.span.start, report.extent.start)

theorem checkEnd_place (tree : Tree) (tag : Tag) (shouldClose isFixable : Bool) :
    (checkEnd tree tag shouldClose isFixable).map placeOf =
      if shouldClose == closesItself tag then none
      else some (tag.openEnd.span.start, tag.openEnd.extent.start) := by
  unfold checkEnd
  cases shouldClose <;> cases closesItself tag <;> rfl

/-- A report about an opening tag is at the place that the complaint about it names. -/
theorem check_eq (opening : Opening) (tree : Tree) {close : Option Token}
    (start : tree.node.span.start = opening.start)
    (extent : tree.node.extent = index.extent tree.node.span)
    (isClosed : close.isSome = opening.isClosed)
    (isBare : tree.children.isEmpty = opening.inside.isBare) :
    (rule.check opening.isForeign tree (index.tagAt opening.start opening.tag close)).map placeOf =
      (rule.complaint? opening).map fun lead =>
        (opening.start + lead.byteLength, index.position (opening.start + lead.byteLength)) := by
  let tag := index.tagAt opening.start opening.tag close
  have closes : closesItself tag = opening.tag.isSelfClosing := closesItself_tagAt
  have itself : tag.isSelfClosing = opening.tag.isSelfClosing := rfl
  have name : tag.name = opening.tag.name := rfl
  have unclosed : tag.close.isNone = !opening.isClosed := by
    rw [← isClosed]
    cases close <;> rfl
  have ends : (tag.openEnd.span.start, tag.openEnd.extent.start) =
      (opening.start + (opening.tag.head ++ opening.tag.gap).byteLength,
        index.position (opening.start + (opening.tag.head ++ opening.tag.gap).byteLength)) := by
    have shown : tag.openEnd.span.start = opening.start +
        (opening.tag.head ++ opening.tag.gap).byteLength := openEnd_tagAt
    exact Prod.ext shown (congrArg index.position shown)
  have whole :
      placeOf ⟨tree.node.span, tree.node.extent, "MISSING", [("tag", label tag.name)], []⟩ =
        (opening.start + Text.byteLength [],
          index.position (opening.start + Text.byteLength [])) := by
    simp only [placeOf, extent, LineIndex.extent, start, Text.byteLength_nil, Nat.add_zero]
  -- The rule and the complaint ask the same, in the same order.
  have asked : rule.check opening.isForeign tree tag =
      if opening.tag.isSelfClosing && rule.mayStandAlone opening.tag.name then
        checkEnd tree tag true false
      else
        if opening.tag.isSelfClosing || rule.mayClose opening then
          checkEnd tree tag (rule.prefersSelfClosing && rule.mayClose opening)
            (rule.mayClose opening)
        else if !opening.tag.isSelfClosing && !opening.isClosed then
          some ⟨tree.node.span, tree.node.extent, "MISSING", [("tag", label tag.name)], []⟩
        else none := by
    simp only [check, mayClose, mayStandAlone, Bool.and_assoc, closes, unclosed, isBare, itself,
      name]
  have endsAt (shouldClose isFixable : Bool) :
      (checkEnd tree tag shouldClose isFixable).map placeOf =
        (if shouldClose == opening.tag.isSelfClosing then none
          else some (opening.tag.head ++ opening.tag.gap)).map fun lead =>
            (opening.start + lead.byteLength,
              index.position (opening.start + lead.byteLength)) := by
    rw [checkEnd_place, closes, ends]
    split <;> rfl
  change (rule.check opening.isForeign tree tag).map placeOf = _
  rw [asked, complaint?]
  by_cases alone : (opening.tag.isSelfClosing && rule.mayStandAlone opening.tag.name) = true
  · rw [if_pos alone, if_pos alone, endsAt, (Bool.and_eq_true_iff.1 alone).1]
    rfl
  · rw [if_neg alone, if_neg alone]
    by_cases may : (opening.tag.isSelfClosing || rule.mayClose opening) = true
    · rw [if_pos may, if_pos may, endsAt]
    · rw [if_neg may, if_neg may]
      simp only [Bool.not_eq_true, Bool.or_eq_false_iff] at may
      rw [may.1]
      cases opening.isClosed with
      | true => rfl
      | false => exact congrArg some whole

end Check

end ClosingTags

/-! ### The reports about an outline -/

namespace Outline

variable {index : LineIndex} {rule : ClosingTags}

/-- Nothing in an outline becomes a node just where it has closing tags only. -/
theorem isEmpty_forest (index : LineIndex) (parent id offset : Nat) (outline : Outline) :
    (outline.forest index parent id offset).trees.isEmpty = outline.isBare := by
  induction outline generalizing parent id offset with
  | nil => rfl
  | single piece next ih =>
    have closing := Piece.kindAt?_isNone index offset piece
    simp only [isBare] at ih
    cases kind : piece.kindAt? index offset <;> rw [kind] at closing
    · simp [forest, kind, isBare, ← closing, ih]
    · simp [forest, kind, isBare, ← closing, Forest.trees]
  | element tag inside close next => simp [forest, Forest.trees, isBare, Piece.isClosing]

/-- What the rule reports about one element. -/
private theorem placeOf_element (opening : Opening) (node : Node) (inside : Forest)
    {close : Option Token}
    (kind : node.kind = .element (index.tagAt opening.start opening.tag close))
    (start : node.span.start = opening.start) (extent : node.extent = index.extent node.span)
    (isClosed : close.isSome = opening.isClosed)
    (isBare : inside.trees.isEmpty = opening.inside.isBare) :
    ((node.kind.tag?.bind (rule.check opening.isForeign ⟨node, inside⟩)).toList).map
        ClosingTags.placeOf = (rule.place? index opening).toList := by
  rw [ClosingTags.place?,
    ← ClosingTags.check_eq opening ⟨node, inside⟩ start extent isClosed isBare, kind, ← Option.toList_map]
  rfl

/-- The rule reports the opening tags that it complains about, in order. -/
theorem placeOf_reportsIn (parent id : Nat) (isForeign : Bool) (pre : List Piece)
    {outline : Outline} (full : outline.IsFull) :
    (reportsIn rule isForeign
        (outline.forest index parent id (Piece.renderAll pre).byteLength)).map
      ClosingTags.placeOf =
    (outline.openings isForeign pre).flatMap fun opening =>
      (rule.place? index opening).toList := by
  induction outline generalizing parent id isForeign pre with
  | nil => rfl
  | single piece next ih =>
    obtain ⟨_, fullNext⟩ := full_single full
    have others (id : Nat) := ih parent id isForeign (pre ++ [piece]) fullNext
    rw [Piece.byteLength_concat] at others
    -- Of the pieces that stand alone only opening tags are looked at; nothing is inside them.
    cases piece with
    | opening tag =>
      simp only [forest, Piece.kindAt?, reportsIn, List.append_nil, List.map_append, openings,
        List.flatMap_cons, others]
      congr 1
      let start := (Piece.renderAll pre).byteLength
      let span : Span := ⟨start, start + Piece.width (.opening tag)⟩
      let kind : Kind := .element (index.tagAt start tag none)
      have same : kind = .element (index.tagAt start tag none) := rfl
      exact placeOf_element ⟨pre, tag, isForeign, false, nil⟩
        ⟨id, some parent, span, index.extent span, kind⟩ .nil same rfl rfl rfl rfl
    | closing name tail isClosed => simpa only [forest, Piece.kindAt?, openings] using others id
    | raw tag body =>
      simp only [forest, Piece.kindAt?, reportsIn, List.append_nil, List.map_append, openings,
        others]
      split <;> rfl
    | _ =>
      simp only [forest, Piece.kindAt?, reportsIn, List.append_nil, List.map_append, openings,
        others]
      rfl
  | element tag inside close next ihInside ihNext =>
    obtain ⟨opens, fullInside, _, fullNext⟩ := full_element full
    have within := (Piece.byteLength_opening pre tag).symm
    obtain ⟨node, shown, _, kind, start, extent, _⟩ :=
      forest_element index parent id (Piece.renderAll pre).byteLength tag inside close next
        (laid_forest _ _ _ _ _ fullInside)
    -- The element, what is inside and what comes next are reported in the order of the openings.
    rw [shown, ← byteLength_element, within, reportsIn, openings, List.map_append, List.map_append,
      ihInside _ _ _ _ fullInside, ihNext _ _ _ _ fullNext, isForeignRoot_of_kind kind,
      List.flatMap_cons, List.flatMap_append, List.append_assoc]
    congr 1
    exact placeOf_element ⟨pre, tag, isForeign, close.isSome, inside⟩ node _ kind start extent
      Option.isSome_map (isEmpty_forest _ _ _ _ _)

section Open

variable {pre : List Piece} {opening : Opening} {outline : Outline}

theorem bounds_of_mem_openings {isForeign : Bool}
    (member : opening ∈ outline.openings isForeign pre) :
    (Piece.renderAll pre).byteLength ≤ opening.start ∧
      opening.within + opening.inside.width ≤ (Piece.renderAll pre).byteLength + outline.width := by
  -- `pre` grows by what is passed, so an offset is the length of what was passed.
  induction outline generalizing isForeign pre with
  | nil => simp [openings] at member
  | single piece next ih =>
    have later (member : opening ∈ next.openings isForeign (pre ++ [piece])) := ih member
    rw [Piece.byteLength_concat] at later
    rw [width_single]
    cases piece with
    | opening tag =>
      rcases List.mem_cons.1 member with rfl | further
      · have : (Piece.opening tag).width = tag.render.byteLength := rfl
        simp only [Opening.within, Opening.start, width_nil]
        omega
      · have := later further
        omega
    | _ =>
      have := later member
      omega
  | element tag inside close next ihInside ihNext =>
    rw [width_element]
    rcases List.mem_cons.1 member with rfl | further
    · simp only [Opening.within, Opening.start]
      omega
    · rcases List.mem_append.1 further with deeper | later
      · have := ihInside deeper
        rw [Piece.byteLength_opening] at this
        omega
      · have := ihNext later
        rw [byteLength_element] at this
        omega

/-- An element without a closing tag is open up to where what is inside of it ends. -/
theorem exists_openAt (index : LineIndex) (parent id : Nat) {outer : List Text}
    (nested : outline.Nested outer) (full : outline.IsFull)
    (member : opening ∈ outline.openings (isForeignIn outer) pre)
    (unclosed : opening.isClosed = false) (plain : opening.tag.isSelfClosing = false)
    (solid : isVoidName opening.tag.name = false) {place : Nat} (later : opening.start < place)
    (before : place ≤ opening.within + opening.inside.width) :
    ∃ tree ∈ (outline.forest index parent id (Piece.renderAll pre).byteLength).openAt place
        (isForeignIn outer),
      tree.node.kind = .element (index.tagAt opening.start opening.tag none) ∧
        tree.children.isEmpty = opening.inside.isBare := by
  induction outline generalizing parent id outer pre with
  | nil => simp [openings] at member
  | single piece next ih =>
    obtain ⟨stands, nestedNext⟩ := nested
    obtain ⟨_, fullNext⟩ := full_single full
    -- The tag of an element that waits does not stand alone.
    have among : opening ∈ next.openings (isForeignIn outer) (pre ++ [piece]) := by
      cases piece with
      | opening tag =>
        rcases List.mem_cons.1 member with rfl | further
        · have ended : tag.waitsIn outer = false := stands.1
          simp [OpenTag.waitsIn, isVoidIn, plain, solid] at ended
        · exact further
      | _ => exact member
    cases kind : piece.kindAt? index (Piece.renderAll pre).byteLength with
    | none =>
      simp only [forest, kind]
      rw [← Piece.byteLength_concat]
      exact ih _ _ nestedNext fullNext among
    | some kind' =>
      simp only [forest, kind]
      rw [Forest.openAt_cons_of_not_isOpenAt (isOpenAt_of_kindAt? stands kind rfl place),
        ← Piece.byteLength_concat]
      exact ih _ _ nestedNext fullNext among
  | element tag inside close next ihInside ihNext =>
    obtain ⟨opens, fullInside, long, fullNext⟩ := full_element full
    obtain ⟨node, shown, _, kind, start, _, _⟩ :=
      forest_element index parent id (Piece.renderAll pre).byteLength tag inside close next
        (laid_forest _ _ _ _ _ fullInside)
    rw [shown]
    rcases List.mem_cons.1 member with rfl | further
    · -- The element itself has no closing tag, so it is open from its start on.
      obtain rfl : close = none := by simpa using unclosed
      have waits : tag.waitsIn outer = true := nested.1
      have isOpen := isOpenAt_of_waits place kind waits (start ▸ later) (by simp)
      rw [Forest.openAt_cons_of_isOpenAt isOpen]
      exact ⟨_, List.mem_cons_self, kind, isEmpty_forest _ _ _ _ _⟩
    · rcases List.mem_append.1 further with deeper | after
      · -- The element around it is open too, for its closing tag comes after all that is inside.
        have bounds := bounds_of_mem_openings deeper
        rw [Piece.byteLength_opening] at bounds
        have waits : tag.waitsIn outer = true := by
          refine (waits_or_nil nested).resolve_right ?_
          rintro rfl
          simp [openings] at deeper
        have isOpen := isOpenAt_of_waits place kind waits (by omega : node.span.start < place) (by
          cases close with
          | none => simp
          | some close =>
            simp only [Option.map_some, Option.mem_some_iff, forall_eq', LineIndex.tokenAt]
            omega)
        rw [Forest.openAt_cons_of_isOpenAt isOpen, isForeignRoot_of_kind kind, ← isForeignIn_cons,
          ← Piece.byteLength_opening]
        rw [← isForeignIn_cons] at deeper
        obtain ⟨tree, among, rest⟩ := ihInside id (id + 1) (nested_inside nested) fullInside deeper
        exact ⟨tree, List.mem_cons_of_mem _ (List.mem_append_left _ among), rest⟩
      · -- The element before it is closed by then, or else nothing would come next.
        have bounds := bounds_of_mem_openings after
        rw [byteLength_element] at bounds
        obtain ⟨tree, among, rest⟩ :=
          ihNext parent (id + inside.count + 1) (nested_next nested) fullNext after
        rw [byteLength_element] at among
        cases close with
        | none =>
          obtain rfl : next = nil := nested.2.2
          simp [openings] at after
        | some close =>
          have width := long close rfl
          simp only [Option.map_some, Option.getD_some] at bounds
          have ended := isOpenAt_of_closed place kind
            ⟨_, rfl, by simp only [LineIndex.tokenAt]; omega⟩ (isForeignIn outer)
          rw [Forest.openAt_cons_of_not_isOpenAt ended]
          exact ⟨tree, among, rest⟩

end Open

section Bare

variable {places : Nat → Bool} {offset : Nat} {after : Bool} {outline woven : Outline}

theorem isBare_single (piece : Piece) (next : Outline) :
    (single piece next).isBare = (piece.isClosing && next.isBare) := rfl

/-- Line feeds only add to what is inside. -/
theorem Weaves.isBare (weaves : outline.Weaves places offset after woven)
    (bare : woven.isBare = true) : outline.isBare = true := by
  induction weaves with
  | nil => rfl
  | feed | text | element | unclosed => contradiction
  | single _ _ same _ ih =>
    rw [isBare_single, Bool.and_eq_true] at bare ⊢
    exact ⟨by rw [← Piece.isClosing_of_bare same, bare.1], ih bare.2⟩

/-- What was bare has line feeds inside only where one of the places is. -/
theorem Weaves.exists_place (weaves : outline.Weaves places offset after woven)
    (bare : outline.isBare = true) (fed : woven.isBare = false) :
    ∃ place, places place = true ∧ offset ≤ place ∧ place ≤ offset + outline.width := by
  induction weaves with
  | nil => contradiction
  | feed put => exact ⟨_, put, Nat.le_refl _, Nat.le_add_right _ _⟩
  | text | element | unclosed => contradiction
  | single _ _ same _ ih =>
    rw [isBare_single, Bool.and_eq_true] at bare
    rw [isBare_single, Piece.isClosing_of_bare same, bare.1, Bool.true_and] at fed
    obtain ⟨place, put, later, before⟩ := ih bare.2 fed
    rw [width_single]
    exact ⟨place, put, by omega, by omega⟩

end Bare

end Outline

/-! ### Complaints where line feeds were put in -/

namespace Opening

variable {places : Nat → Bool} {opening opening' : Opening} {rule : ClosingTags}

/-- Whether the second opening tag is the first one, read again with line feeds at the places. -/
structure Woven (places : Nat → Bool) (opening opening' : Opening) : Prop where
  bare : opening'.tag.bare = opening.tag.bare
  isForeign : opening'.isForeign = opening.isForeign
  isClosed : opening'.isClosed = opening.isClosed
  ahead : Ahead places true opening.before opening'.before
  inside : opening'.inside = opening.inside ∨
    opening.inside.Weaves places opening.within false opening'.inside

/-- Line feeds only add to what is inside. -/
theorem Woven.isBare (woven : opening.Woven places opening')
    (bare : opening'.inside.isBare = true) : opening.inside.isBare = true := by
  rcases woven.inside with same | weaves
  · rwa [← same]
  · exact weaves.isBare bare

/-- An element may close itself as before, or it had to be bare, was so, and is not so now. -/
theorem Woven.mayClose (woven : opening.Woven places opening') :
    rule.mayClose opening' = rule.mayClose opening ∨
      rule.mayClose opening' = false ∧ isVoidName opening.tag.name = false ∧
        rule.mayStandAlone opening.tag.name = true ∧ opening.inside.isBare = true ∧
          opening'.inside.isBare = false := by
  simp only [ClosingTags.mayClose, OpenTag.name_of_bare woven.bare, woven.isForeign]
  cases void : isVoidName opening.tag.name with
  | true => exact Or.inl rfl
  | false =>
    by_cases kept : opening'.inside.isBare = opening.inside.isBare
    · rw [kept]
      exact Or.inl rfl
    · -- Weaving only adds to what is inside, so it was bare before and is not so now.
      have fed : opening'.inside.isBare = false := by
        by_contra bare
        rw [Bool.not_eq_false] at bare
        exact kept (bare.trans (woven.isBare bare).symm)
      have bare : opening.inside.isBare = true := by
        by_contra full
        rw [Bool.not_eq_true] at full
        exact kept (fed.trans full.symm)
      cases opening.isForeign with
      | true => exact Or.inl rfl
      | false =>
        cases rule.mayStandAlone opening.tag.name with
        | false => exact Or.inl rfl
        | true => simp [fed, bare]

/-- What the rule says of an opening tag that is read again it has said before, if no line feed got
into an element without a closing tag that was bare. -/
theorem Woven.complaint? (woven : opening.Woven places opening') {lead : Text}
    (found : rule.complaint? opening' = some lead)
    (spared : rule.asksInside opening = true → opening.isClosed = false →
      opening.inside.isBare = true → opening'.inside.isBare = true) :
    rule.complaint? opening = some lead := by
  rcases woven.mayClose with same | ⟨may, solid, alone, bare, fed⟩
  · rw [← ClosingTags.complaint?_of_bare woven.bare woven.isClosed same, found]
  · -- Without a closing tag the element would be reported now, and with one it is left as it is.
    exfalso
    have name := OpenTag.name_of_bare woven.bare
    have closes := OpenTag.isSelfClosing_of_bare woven.bare
    simp only [ClosingTags.complaint?, may, name, closes, alone, woven.isClosed, Bool.and_true,
      Bool.or_false] at found
    cases itself : opening.tag.isSelfClosing with
    | true => simp [itself] at found
    | false =>
      cases closed : opening.isClosed with
      | true => simp [itself, closed] at found
      | false =>
        have asks : rule.asksInside opening = true := by
          simp [ClosingTags.asksInside, itself, solid, alone]
        rw [spared asks closed bare] at fed
        contradiction

end Opening

namespace Outline

variable {places : Nat → Bool} {offset : Nat} {after : Bool} {outline woven : Outline}

/-- Every opening tag in the woven outline is one of the outline, read again. -/
theorem Weaves.exists_opening (weaves : outline.Weaves places offset after woven)
    {pre pre' : List Piece} (here : offset = (Piece.renderAll pre).byteLength)
    (ahead : Ahead places after pre pre') {isForeign : Bool} {opening' : Opening}
    (member : opening' ∈ woven.openings isForeign pre') :
    ∃ opening ∈ outline.openings isForeign pre, opening.Woven places opening' := by
  -- What comes before the two outlines grows along, and `Ahead` holds of it all the way.
  induction weaves generalizing pre pre' isForeign with
  | nil => simp [openings] at member
  | feed put own _ ih =>
    subst here
    exact ih rfl (ahead.feed put own) member
  | text own _ ih =>
    subst here
    exact ih (Piece.byteLength_concat _ _).symm (ahead.text own) member
  | @single offset after piece piece' next next' done other bare rest ih =>
    subst here
    have full := ahead.full done
    have later (member : opening' ∈ next'.openings isForeign (pre' ++ [piece'])) :=
      ih (Piece.byteLength_concat _ _).symm (full.piece (Piece.render_of_bare bare)) member
    cases piece' with
    | opening tag' =>
      cases piece with
      | opening tag =>
        rcases List.mem_cons.1 member with rfl | further
        · exact ⟨_, List.mem_cons_self, Piece.opening.inj bare, rfl, rfl, full, Or.inl rfl⟩
        · obtain ⟨opening, among, woven⟩ := later further
          exact ⟨opening, List.mem_cons_of_mem _ among, woven⟩
      | _ => simp [Piece.bare] at bare
    | _ =>
      cases piece with
      | opening tag => simp [Piece.bare] at bare
      | _ => exact later member
  | @element offset after tag tag' inside inside' close next next' done bare _ within rest ihInside
      ihNext =>
    subst here
    have start := (Piece.byteLength_opening pre tag).symm
    have stop := (byteLength_element pre tag inside (some close)).symm
    have opened := ahead.opening done bare
    rcases List.mem_cons.1 member with rfl | further
    · exact ⟨_, List.mem_cons_self, bare, rfl, rfl, ahead.full done, Or.inr within⟩
    · rcases List.mem_append.1 further with deeper | later
      · rw [OpenTag.name_of_bare bare] at deeper
        obtain ⟨opening, among, woven⟩ := ihInside start opened deeper
        exact ⟨opening, List.mem_cons_of_mem _ (List.mem_append_left _ among), woven⟩
      · rw [start] at within
        obtain ⟨opening, among, woven⟩ := ihNext stop (opened.closing close within) later
        exact ⟨opening, List.mem_cons_of_mem _ (List.mem_append_right _ among), woven⟩
  | @unclosed offset after tag tag' inside inside' done bare within ih =>
    subst here
    have start := (Piece.byteLength_opening pre tag).symm
    rcases List.mem_cons.1 member with rfl | further
    · exact ⟨_, List.mem_cons_self, bare, rfl, rfl, ahead.full done, Or.inr within⟩
    · rcases List.mem_append.1 further with deeper | later
      · rw [OpenTag.name_of_bare bare] at deeper
        obtain ⟨opening, among, woven⟩ := ih start (ahead.opening done bare) deeper
        exact ⟨opening, List.mem_cons_of_mem _ (List.mem_append_left _ among), woven⟩
      · simp [openings] at later

end Outline

end TagLint
