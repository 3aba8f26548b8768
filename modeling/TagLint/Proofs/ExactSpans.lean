import TagLint.Proofs.ByteSearch
import TagLint.Proofs.CheckedParse
import TagLint.Proofs.TagSpans

/-!
Parsing never fails, and the spans of a document select what they are spans of.

A document is what reading its source byte by byte comes to, where every slice, every span and every
loop is checked. Parsing cuts the source into texts, and a span is only the place of such a text
together with its length. So every span of a document starts no later than it stops and has both
ends between characters of the source, whatever the template delimiters are.
-/
namespace TagLint

open Written (Piece OpenTag)

/-! ### Selecting a part of a source -/

namespace Text

theorem StandsAt.select? {source t : Text} {place : Nat} (stands : source.StandsAt place t) :
    source.select? ⟨place, place + t.byteLength⟩ = some t := by
  obtain ⟨before, after, rfl, rfl⟩ := stands
  exact select?_append before t after

theorem StandsAt.stop {source t : Text} {place : Nat} (stands : source.StandsAt place t) :
    source.IsBoundary (place + t.byteLength) := by
  obtain ⟨before, after, rfl, rfl⟩ := stands
  exact ⟨before ++ t, after, rfl, byteLength_append before t⟩

theorem cut?_spec {n : Nat} {t : Text} {sides : Text × Text} (cut : cut? n t = some sides) :
    t = sides.1 ++ sides.2 ∧ sides.1.byteLength = n := by
  fun_induction cut? n t generalizing sides with
  | case1 t =>
    obtain rfl := Option.some.inj cut
    exact ⟨rfl, rfl⟩
  | case2 => contradiction
  | case3 n c t fits ih =>
    obtain ⟨inner, further, rfl⟩ := Option.map_eq_some_iff.1 cut
    obtain ⟨same, size⟩ := ih further
    refine ⟨congrArg (c :: ·) same, ?_⟩
    rw [byteLength_cons, size]
    omega
  | case4 => contradiction

/-- What selects a text starts no later than it stops, with both ends between characters. -/
theorem select?_spec {source t : Text} {span : Span} (selected : source.select? span = some t) :
    source.StandsAt span.start t ∧ span.stop = span.start + t.byteLength := by
  unfold select? slice? at selected
  split at selected
  next ordered =>
    obtain ⟨sides, first, selected⟩ := Option.bind_eq_some_iff.1 selected
    obtain ⟨inner, second, rfl⟩ := Option.map_eq_some_iff.1 selected
    obtain ⟨rfl, start⟩ := cut?_spec first
    obtain ⟨rest, size⟩ := cut?_spec second
    refine ⟨⟨sides.1, inner.2, ?_, start⟩, by omega⟩
    rw [List.append_assoc, ← rest]
  · contradiction

theorem isBoundary_of_select? {source : Text} {span : Span}
    (selected : (source.select? span).isSome = true) :
    source.IsBoundary span.start ∧ source.IsBoundary span.stop ∧ span.start ≤ span.stop := by
  obtain ⟨t, selected⟩ := Option.isSome_iff_exists.1 selected
  obtain ⟨stands, stop⟩ := select?_spec selected
  refine ⟨stands.isBoundary, ?_, stop ▸ Nat.le_add_right _ _⟩
  obtain ⟨before, after, rfl, here⟩ := stands
  exact ⟨before ++ t, after, rfl, by rw [byteLength_append, here, stop]⟩

/-- Between two boundaries a source has a text. -/
theorem IsBoundary.isSome_select? {source : Text} {start stop : Nat}
    (starts : source.IsBoundary start) (stops : source.IsBoundary stop) (ordered : start ≤ stop) :
    (source.select? ⟨start, stop⟩).isSome = true := by
  obtain ⟨before, rest, rfl, rfl⟩ := starts
  obtain ⟨middle, after, rfl, rfl⟩ := stops.exists_between ordered
  have stands : (before ++ (middle ++ after)).StandsAt before.byteLength middle :=
    ⟨before, after, by simp, rfl⟩
  rw [byteLength_append, stands.select?]
  rfl

end Text

/-! ### What is exact -/

/-- Whether the parts, if there are any, make up the text, and none of them is empty. -/
def Fragment.IsDivided (fragment : Fragment) : Prop :=
  fragment.parts = [] ∨
    Part.join fragment.parts = fragment.text ∧ ∀ part ∈ fragment.parts, part.text ≠ []

theorem Part.text_ne_nil_of_mem_divide {pairs : List Delimiters} {following t : Text} :
    ∀ part ∈ divide pairs following t, part.text ≠ [] := by
  fun_induction divide pairs following t with
  | case1 => simp
  | case2 c t region rest found ih =>
    intro part member
    rcases List.mem_cons.1 member with rfl | later
    · exact Template.region?_ne_nil (List.cons_ne_nil c t) found
    · exact ih part later
  | case3 c t _ ih =>
    intro part member
    unfold consPlain at member
    split at member
    next text parts shown =>
      rcases List.mem_cons.1 member with rfl | later
      · exact List.cons_ne_nil c text
      · exact ih part (shown ▸ List.mem_cons_of_mem _ later)
    · rcases List.mem_cons.1 member with rfl | later
      · exact List.cons_ne_nil c []
      · exact ih part later

theorem Fragment.isDivided_ofText (pairs : List Delimiters) (t following : Text) :
    (ofText pairs t following).IsDivided := by
  unfold IsDivided ofText
  simp only
  split
  · exact Or.inr ⟨Part.join_divide pairs following t, Part.text_ne_nil_of_mem_divide⟩
  · exact Or.inl rfl

/-- Whether the content is what stands at its place, and its template spans, if there are any, cut
it into texts. -/
structure Content.IsExact (source : Text) (content : Content) : Prop where
  text : source.select? content.span = some content.text
  templates : content.templates = [] ∨
    Covers content.span.start content.span.stop (content.templates.map TemplateSpan.span)
  parts : ∀ part ∈ content.templates, (source.select? part.span).isSome = true

/-- Whether the attribute has a text and is where its key and its value are. -/
structure Attribute.IsExact (source : Text) (part : Attribute) : Prop where
  text : (source.select? part.span).isSome = true
  contents : ∀ content ∈ part.key.toList ++ part.value.toList,
    content.IsExact source ∧ part.span.start ≤ content.span.start ∧
      content.span.stop ≤ part.span.stop

structure Tag.IsExact (source : Text) (tag : Tag) : Prop where
  tokens : ∀ token ∈ tag.tokens, source.select? token.span = some token.text
  attributes : ∀ part ∈ tag.attributes, part.IsExact source

/-- What a node holds besides its tags. -/
def Kind.contents : Kind → List Content
  | .document | .element _ => []
  | .script _ content | .style _ content => content.toList
  | .text content | .comment content | .doctype content => [content]

/-- Whether all spans of the node select the texts that they are spans of. -/
structure Node.IsExact (source : Text) (node : Node) : Prop where
  text : (source.select? node.span).isSome = true
  tags : ∀ tag ∈ node.kind.tags, tag.IsExact source
  contents : ∀ content ∈ node.kind.contents, content.IsExact source

/-! ### Pieces where they stand -/

section Located

variable {source : Text} {index : LineIndex} {place : Nat}

theorem LineIndex.templateSpans_exact (index : LineIndex) {parts : List Part}
    (stands : source.StandsAt place (Part.join parts)) (full : ∀ part ∈ parts, part.text ≠ []) :
    Covers place (place + (Part.join parts).byteLength)
        ((index.templateSpans place parts).map TemplateSpan.span) ∧
      ∀ part ∈ index.templateSpans place parts, (source.select? part.span).isSome = true := by
  induction parts generalizing place with
  | nil => simp [templateSpans, Covers, Part.join]
  | cons part parts ih =>
    have shown : Part.join (part :: parts) = part.text ++ Part.join parts := rfl
    rw [shown] at stands ⊢
    obtain ⟨covers, exact_⟩ := ih stands.right fun other member =>
      full other (List.mem_cons_of_mem part member)
    have long := Text.byteLength_pos (full part List.mem_cons_self)
    rw [Text.byteLength_append, ← Nat.add_assoc]
    refine ⟨⟨rfl, Nat.lt_add_of_pos_right long, covers⟩, ?_⟩
    intro other member
    rcases List.mem_cons.1 member with rfl | later
    · rw [stands.left.select?]
      rfl
    · exact exact_ other later

theorem LineIndex.contentAt_exact (index : LineIndex) {fragment : Fragment}
    (stands : source.StandsAt place fragment.text) (divided : fragment.IsDivided) :
    (index.contentAt place fragment).IsExact source := by
  refine ⟨stands.select?, ?_, ?_⟩
  · rcases divided with empty | ⟨joined, full⟩
    · exact Or.inl (by simp [contentAt, empty, templateSpans])
    · rw [← joined] at stands
      refine Or.inr ?_
      simp only [contentAt, ← joined]
      exact (index.templateSpans_exact stands full).1
  · rcases divided with empty | ⟨joined, full⟩
    · simp [contentAt, empty, templateSpans]
    · rw [← joined] at stands
      exact (index.templateSpans_exact stands full).2

/-- The fragments of an attribute. -/
def Written.Attribute.fragments (written : Written.Attribute) : List Fragment :=
  written.key.toList ++ (written.assignment.map Written.Assignment.value).toList

theorem LineIndex.attributeAt_exact (index : LineIndex) {written : Written.Attribute}
    (stands : source.StandsAt place written.render)
    (divided : ∀ fragment ∈ written.fragments, fragment.IsDivided) :
    (index.attributeAt place written).IsExact source := by
  refine ⟨by rw [attributeAt, stands.select?]; rfl, fun content member => ?_⟩
  obtain ⟨key, assignment⟩ := written
  rcases List.mem_append.1 member with first | second
  · obtain ⟨fragment, rfl, rfl⟩ := Option.map_eq_some_iff.1 (Option.mem_toList.1 first)
    refine ⟨index.contentAt_exact stands.left
      (divided fragment (List.mem_append_left _ (by simp))), Nat.le_refl _, ?_⟩
    simp only [contentAt, attributeAt, Written.Attribute.render, Written.Attribute.keyText,
      Option.map_some, Option.getD_some, Text.byteLength_append]
    omega
  · obtain ⟨assignment, rfl, rfl⟩ := Option.map_eq_some_iff.1 (Option.mem_toList.1 second)
    -- The value comes after the key, the sign and the quote.
    have shown : (Written.Attribute.mk key (some assignment)).render =
        ((Written.Attribute.mk key (some assignment)).keyText ++ assignment.beforeSign ++ ['='] ++
          assignment.afterSign ++ assignment.quoteText) ++ (assignment.value.text ++
            if assignment.isClosed then assignment.quoteText else []) := by
      simp [Written.Attribute.render, Written.Assignment.render]
    have stop := congrArg Text.byteLength shown
    rw [shown] at stands
    have value := stands.right.left
    have sign : Text.byteLength ['='] = 1 := by decide
    simp only [Text.byteLength_append, sign, ← Nat.add_assoc] at value stop
    refine ⟨index.contentAt_exact value
      (divided assignment.value (List.mem_append_right _ (by simp))), ?_, ?_⟩
    · simp only [contentAt, attributeAt]
      omega
    · simp only [contentAt, attributeAt]
      omega

theorem LineIndex.attributesAt_exact (index : LineIndex)
    {entries : List (Text × Written.Attribute)}
    (stands : source.StandsAt place (OpenTag.renderAttributes entries))
    (divided : ∀ entry ∈ entries, ∀ fragment ∈ entry.2.fragments, fragment.IsDivided) :
    ∀ part ∈ (index.attributesAt place entries).1, part.IsExact source := by
  induction entries generalizing place with
  | nil => simp [attributesAt]
  | cons entry others ih =>
    have shown : OpenTag.renderAttributes (entry :: others) =
        entry.1 ++ (entry.2.render ++ OpenTag.renderAttributes others) := by
      simp [OpenTag.renderAttributes]
    rw [shown] at stands
    intro part member
    rcases List.mem_cons.1 member with rfl | later
    · exact index.attributeAt_exact stands.right.left (divided entry List.mem_cons_self)
    · exact ih stands.right.right
        (fun other among => divided other (List.mem_cons_of_mem entry among)) part later

/-- The fragments of an opening tag. -/
def Written.OpenTag.fragments (tag : OpenTag) : List Fragment :=
  tag.attributes.flatMap fun entry => entry.2.fragments

theorem LineIndex.tagAt_exact (index : LineIndex) {written : OpenTag} {close : Option Token}
    (stands : source.StandsAt place written.render)
    (divided : ∀ fragment ∈ written.fragments, fragment.IsDivided)
    (closes : ∀ token ∈ close, source.select? token.span = some token.text) :
    (index.tagAt place written close).IsExact source := by
  have shown : written.render = '<' :: written.name ++
      (OpenTag.renderAttributes written.attributes ++ (written.gap ++ written.ending.render)) := by
    rw [OpenTag.render_eq, OpenTag.head]
    simp
  rw [shown] at stands
  constructor
  · intro token member
    simp only [Tag.tokens, List.mem_cons, Option.mem_toList] at member
    rcases member with rfl | rfl | closed
    · exact stands.left.select?
    · have ending := stands.right.right.right.select?
      simp only [tagAt, tokenAt, attributesAt_stop]
      exact ending
    · exact closes token closed
  · exact index.attributesAt_exact stands.right.left fun entry among fragment member =>
      divided fragment (List.mem_flatMap.2 ⟨entry, among, member⟩)

/-- The fragments of a piece. -/
def Written.Piece.fragments : Piece → List Fragment
  | .text content => [content]
  | .comment body _ => [body]
  | .doctype body _ => [body]
  | .opening tag => tag.fragments
  | .raw tag body => tag.fragments ++ (body.map Written.RawBody.content).toList
  | .closing _ _ _ => []

/-- What a piece is in a document by itself is exact. -/
theorem Written.Piece.kindAt?_exact {piece : Piece} (stands : source.StandsAt place piece.render)
    (divided : ∀ fragment ∈ piece.fragments, fragment.IsDivided) {kind : Kind}
    (found : piece.kindAt? index place = some kind) :
    (∀ tag ∈ kind.tags, tag.IsExact source) ∧
      ∀ content ∈ kind.contents, content.IsExact source := by
  cases piece with
  | text content =>
    obtain rfl := Option.some.inj found
    refine ⟨by simp [Kind.tags], ?_⟩
    simp only [Kind.contents, List.mem_singleton, forall_eq]
    exact index.contentAt_exact stands (divided content (by simp [fragments]))
  | comment body isClosed =>
    -- The content of a comment or a doctype starts after what leads it in.
    obtain rfl := Option.some.inj found
    refine ⟨by simp [Kind.tags], ?_⟩
    simp only [Kind.contents, List.mem_singleton, forall_eq]
    have lead : Text.byteLength "<!--".toList = 4 := by decide
    exact index.contentAt_exact (lead ▸ stands.left.right) (divided body (by simp [fragments]))
  | doctype body isClosed =>
    obtain rfl := Option.some.inj found
    refine ⟨by simp [Kind.tags], ?_⟩
    simp only [Kind.contents, List.mem_singleton, forall_eq]
    have lead : Text.byteLength "<!".toList = 2 := by decide
    exact index.contentAt_exact (lead ▸ stands.left.right) (divided body (by simp [fragments]))
  | opening tag =>
    obtain rfl := Option.some.inj found
    refine ⟨?_, by simp [Kind.contents]⟩
    simp only [Kind.tags, List.mem_singleton, forall_eq]
    exact index.tagAt_exact stands divided (by simp)
  | closing => contradiction
  | raw tag body =>
    -- Whether it is a script or a style, it has the same tags and the same content.
    have opening := fun fragment member => divided fragment (List.mem_append_left _ member)
    obtain rfl := Option.some.inj found
    cases body with
    | none =>
      have exact_ : (index.tagAt place tag none).IsExact source :=
        index.tagAt_exact stands.left opening (by simp)
      split <;> simpa [Kind.tags, Kind.contents] using exact_
    | some body =>
      have inside : source.StandsAt (place + tag.render.byteLength)
          (body.content.text ++ body.close.getD []) := stands.right
      let close := body.close.map (index.tokenAt
        (place + tag.render.byteLength + body.content.text.byteLength))
      have closes : ∀ token ∈ close, source.select? token.span = some token.text := by
        intro token closed
        obtain ⟨text, shown, rfl⟩ := Option.map_eq_some_iff.1 closed
        have ends := inside.right
        rw [shown] at ends
        exact ends.select?
      have exact_ : (index.tagAt place tag close).IsExact source :=
        index.tagAt_exact stands.left opening closes
      have content := index.contentAt_exact inside.left
        (divided body.content (List.mem_append_right _ (by simp)))
      split <;> simpa [Kind.tags, Kind.contents] using ⟨exact_, content⟩

end Located

/-! ### What is read is divided -/

section Scan

variable (pairs : List Delimiters)

theorem Written.Attribute.isDivided_scan (t : Text) :
    ∀ fragment ∈ (Written.Attribute.scan pairs t).1.fragments, fragment.IsDivided := by
  have keyed : ∀ fragment ∈ (scanKey pairs t).1, fragment.IsDivided := by
    unfold scanKey
    split
    · simp
    · simp [Fragment.isDivided_ofText]
  have valued (r : Text) : (Assignment.scanValue pairs r).2.1.IsDivided := by
    unfold Assignment.scanValue
    split
    · exact Fragment.isDivided_ofText pairs [] []
    · split <;> exact Fragment.isDivided_ofText pairs _ _
  intro fragment member
  unfold scan fragments at member
  simp only at member
  split at member
  · rcases List.mem_append.1 member with key | value
    · exact keyed fragment (Option.mem_toList.1 key)
    · simp only [Option.map_some, Option.toList_some, List.mem_singleton] at value
      rw [value]
      exact valued _
  · simp only [Option.map_none, Option.toList_none, List.append_nil, Option.mem_toList] at member
    exact keyed fragment member

theorem Written.OpenTag.isDivided_scanAttributes (t : Text) :
    ∀ entry ∈ (scanAttributes pairs t).1, ∀ fragment ∈ entry.2.fragments, fragment.IsDivided := by
  fun_induction scanAttributes pairs t with
  | case1 => simp
  | case2 t _ first others ih =>
    intro entry member
    rcases List.mem_cons.1 member with rfl | later
    · exact Attribute.isDivided_scan pairs _
    · exact ih entry later

/-- The fragments of every piece that is read are divided. -/
theorem Written.Piece.isDivided_scan (t : Text) :
    ∀ fragment ∈ (scan pairs t).1.fragments, fragment.IsDivided := by
  have opening (r : Text) : ∀ fragment ∈ (OpenTag.scan pairs r).1.fragments,
      fragment.IsDivided := by
    intro fragment member
    obtain ⟨entry, among, held⟩ := List.mem_flatMap.1 member
    exact OpenTag.isDivided_scanAttributes pairs _ entry among fragment held
  have body (name r : Text) : (RawBody.scan pairs name r).1.content.IsDivided := by
    unfold RawBody.scan
    split <;> exact Fragment.isDivided_ofText pairs _ _
  unfold scan
  split
  · simp [fragments, Fragment.isDivided_ofText]
  · simp [fragments, Fragment.isDivided_ofText]
  · simp [fragments]
  · simp only
    split
    · split
      · simpa [fragments] using opening t.tail
      · intro fragment member
        rcases List.mem_append.1 member with part | content
        · exact opening t.tail fragment part
        · simp only [Option.map_some, Option.toList_some, List.mem_singleton] at content
          rw [content]
          exact body _ _
    · exact opening t.tail
  · simp [fragments, Fragment.isDivided_ofText]

theorem Written.Piece.isDivided_scanAll (t : Text) :
    ∀ piece ∈ scanAll pairs t, ∀ fragment ∈ piece.fragments, fragment.IsDivided := by
  fun_induction scanAll pairs t with
  | case1 => simp
  | case2 c t read ih =>
    intro piece member
    rcases List.mem_cons.1 member with rfl | later
    · exact isDivided_scan pairs (c :: t)
    · exact ih piece later

end Scan

theorem Forest.isBoundary_stopFrom {source : Text} {forest : Forest} {start : Nat}
    (here : source.IsBoundary start) (exact_ : ∀ tree ∈ forest.subtrees, tree.node.IsExact source) :
    source.IsBoundary (forest.stopFrom start) := by
  induction forest generalizing start with
  | nil => exact here
  | cons node inside next _ ih =>
    have own := exact_ ⟨node, inside⟩ List.mem_cons_self
    exact ih (Text.isBoundary_of_select? own.text).2.1 fun tree member =>
      exact_ tree (Forest.mem_subtrees_cons.2 (Or.inr (Or.inr member)))

/-! ### Documents -/

section Element

variable {source : Text} {index : LineIndex} {inside : Outline} {close : Option ClosingTag}

/-- A closing tag that is there stands where the text of the closing tag stands. -/
theorem Outline.standsAt_close {place : Nat}
    (stands : source.StandsAt place (Piece.renderAll (close.map ClosingTag.piece).toList)) :
    ∀ own ∈ close, source.StandsAt place own.piece.render := by
  rintro own ⟨⟩
  simpa [Piece.renderAll] using stands

/-- An element stops between characters: after its closing tag, or where its last child stops. -/
theorem Outline.stop_element {id place : Nat} (full : inside.IsFull)
    (starts : source.IsBoundary place)
    (within : ∀ tree ∈ (inside.forest index id (id + 1) place).subtrees, tree.node.IsExact source)
    (closing : ∀ own ∈ close, source.StandsAt (place + inside.width) own.piece.render) :
    let stop := (close.map fun own => place + inside.width + own.piece.width).getD
      ((inside.forest index id (id + 1) place).stopFrom place)
    source.IsBoundary stop ∧ place ≤ stop := by
  cases close with
  | none =>
    exact ⟨Forest.isBoundary_stopFrom starts within,
      (inside.laid_forest index id (id + 1) place full).stopFrom_bounds.1⟩
  | some own =>
    refine ⟨(closing own rfl).stop, ?_⟩
    simp only [Option.map_some, Option.getD_some]
    omega

end Element

/-- The nodes of an outline are exact where it stands in a source. -/
theorem Outline.exact_forest {source : Text} {outline : Outline} (index : LineIndex)
    (parent id : Nat) {offset : Nat} (full : outline.IsFull)
    (stands : source.StandsAt offset (Piece.renderAll outline.pieces))
    (divided : ∀ piece ∈ outline.pieces, ∀ fragment ∈ piece.fragments, fragment.IsDivided) :
    ∀ tree ∈ (outline.forest index parent id offset).subtrees, tree.node.IsExact source := by
  induction outline generalizing parent id offset with
  | nil => simp [forest, Forest.subtrees]
  | single piece next ih =>
    obtain ⟨_, fullNext⟩ := full_single full
    have here : source.StandsAt offset (piece.render ++ Piece.renderAll next.pieces) := stands
    have further := fun parent id => ih parent id fullNext here.right fun other member =>
      divided other (List.mem_cons_of_mem piece member)
    intro tree member
    -- A closing tag that closes nothing leaves no node behind.
    cases found : piece.kindAt? index offset with
    | none =>
      simp only [forest, found] at member
      exact further _ _ tree member
    | some kind =>
      simp only [forest, found] at member
      rcases Forest.mem_subtrees_cons.1 member with rfl | inside | later
      · obtain ⟨tags, contents⟩ := Piece.kindAt?_exact here.left
          (divided piece List.mem_cons_self) found
        exact ⟨by rw [Piece.width, here.left.select?]; rfl, tags, contents⟩
      · simp [Forest.subtrees] at inside
      · exact further _ _ tree later
  | element tag inside close next ihInside ihNext =>
    obtain ⟨_, fullInside, _, fullNext⟩ := full_element full
    have shown : Piece.renderAll (element tag inside close next).pieces =
        tag.render ++ (Piece.renderAll inside.pieces ++
          (Piece.renderAll (close.map ClosingTag.piece).toList ++
            Piece.renderAll next.pieces)) := by
      simp [Piece.renderAll, Piece.render]
    rw [shown] at stands
    have within := ihInside id (id + 1) fullInside stands.right.left fun piece member =>
      divided piece (by simp [member])
    have following := stands.right.right.right
    rw [byteLength_close] at following
    have later := ihNext parent (id + inside.count + 1) fullNext following fun piece member =>
      divided piece (by simp [member])
    have closing := standsAt_close stands.right.right.left
    obtain ⟨node, laid, _, kind, start, _, stop⟩ :=
      forest_element index parent id offset tag inside close next
        (laid_forest _ _ _ _ _ fullInside)
    obtain ⟨stops, ordered⟩ := stop_element fullInside stands.right.isBoundary within closing
    rw [← stop] at stops ordered
    intro tree member
    rw [laid] at member
    rcases Forest.mem_subtrees_cons.1 member with rfl | below | after
    · refine ⟨?_, ?_, by simp [kind, Kind.contents]⟩
      · have starts : source.IsBoundary node.span.start := start ▸ stands.isBoundary
        have forward : node.span.start ≤ node.span.stop := by omega
        exact starts.isSome_select? stops forward
      · simp only [kind, Kind.tags, List.mem_singleton, forall_eq]
        refine index.tagAt_exact stands.left (divided (.opening tag) List.mem_cons_self) ?_
        intro token closed
        obtain ⟨own, rfl, rfl⟩ := Option.map_eq_some_iff.1 closed
        exact (closing own rfl).select?
    · exact within tree below
    · exact later tree after

namespace Document

/-- Whether a document is what reading its source byte by byte comes to, without an access outside
of the source or inside a character, and whether all its spans select the texts they are spans
of. -/
structure IsExact (pairs : List Delimiters) (source : Text) (doc : Document) : Prop where
  /-- No slice, span or loop fails. -/
  read : parse? pairs source = some doc
  nodes : ∀ node ∈ doc.nodes, node.IsExact source
  strays : ∀ stray ∈ doc.strays, (source.select? stray.span).isSome = true

theorem isExact_of_mem_nodes {pairs : List Delimiters} {source : Text} {node : Node}
    (member : node ∈ (parse pairs source).nodes) : node.IsExact source := by
  obtain ⟨tree, within, rfl⟩ := List.mem_map.1 member
  rcases List.mem_cons.1 within with rfl | below
  · -- The root spans the source.
    have whole : source.StandsAt 0 source := ⟨[], [], by simp, rfl⟩
    have selected := whole.select?
    rw [Nat.zero_add] at selected
    exact ⟨by simp [parse, selected], by simp [parse, Kind.tags], by simp [parse, Kind.contents]⟩
  · obtain ⟨outline, covers, _, parsed⟩ := exists_outline pairs source
    have full : outline.IsFull := Outline.full_of_reads (covers ▸ Piece.reads_scanAll pairs source)
    have shown : Piece.renderAll outline.pieces = source := by
      rw [covers, Piece.renderAll_scanAll]
    rw [parsed] at below
    have stands : source.StandsAt 0 (Piece.renderAll outline.pieces) :=
      ⟨[], [], by simp [shown], rfl⟩
    exact Outline.exact_forest _ 0 1 full stands
      (covers ▸ Piece.isDivided_scanAll pairs source) tree below

/-- Parsing reads every source to its end, with any delimiters, and cuts it into texts. -/
theorem isExact_parse (pairs : List Delimiters) (source : Text) :
    (parse pairs source).IsExact pairs source where
  read := parse?_eq pairs source
  nodes _ := isExact_of_mem_nodes
  strays stray member := by
    obtain ⟨tail, isClosed, selected, _⟩ := isWritten_of_mem_strays member
    rw [selected]
    rfl

end Document

end TagLint
