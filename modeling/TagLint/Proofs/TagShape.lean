import TagLint.Proofs.ExactSpans
import TagLint.Proofs.WrittenTags

/-!
The shape of opening tags in a document.

A tag of a document is an opening tag of the source at its place (`Document.exists_written`), so
what its spans divide the source into is what the scanner has read: a bracket and the name,
attributes with nothing but separators around them, and what ends the tag.
-/
namespace TagLint

open Written (Piece OpenTag IsSeparator)

/-- Whether the attribute is its key and, after an equals sign, its value. -/
structure Attribute.IsShaped (source : Text) (part : Attribute) : Prop where
  nonempty : part.span.start < part.span.stop
  /-- The key is missing just where the attribute starts with the sign; else it comes first, and is
  not empty. -/
  keyless : part.key = none ↔ source.StandsAt part.span.start ['=']
  key : ∀ key ∈ part.key, key.text ≠ [] ∧ key.span.start = part.span.start
  /-- An attribute without a value is its key. -/
  bare : part.value = none → ∃ key ∈ part.key, part.span = key.span
  /-- The sign and the quote before the value may have spaces between and before them; the quote, if
  there is one, stands again after the value, unless the source ends there. -/
  value : ∀ value ∈ part.value, ∃ before after opening closing : Text,
    source.select? part.span = some ((part.key.map Content.text).getD [] ++ before ++ ['='] ++
      after ++ opening ++ value.text ++ closing) ∧
    value.span.start = part.span.start + Text.byteLength
      ((part.key.map Content.text).getD [] ++ before ++ ['='] ++ after ++ opening) ∧
    (∀ c ∈ before ++ after, isMarkupSpace c = true) ∧
    (opening = [] ∧ closing = [] ∧ (∀ c ∈ value.text.head?, c ≠ '"' ∧ c ≠ '\'') ∨
      ∃ quote, (quote = '"' ∨ quote = '\'') ∧ opening = [quote] ∧
        (closing = [quote] ∨ closing = [] ∧ part.span.stop = source.byteLength))

/-- Whether the opening tag is a bracket and a name, then attributes between separators, then what
ends it. -/
structure Tag.IsShaped (source : Text) (tag : Tag) : Prop where
  openStart : tag.openStart.text = '<' :: tag.name
  /-- The name starts with a letter, and goes on to a space, a slash or a bracket. -/
  letter : Text.startsWithLetter tag.name = true
  name : ∀ c ∈ tag.name, isMarkupSpace c = false ∧ c ≠ '/' ∧ c ≠ '>'
  /-- The tag ends with a bracket, or where the source does. -/
  openEnd : tag.openEnd.text = ['/', '>'] ∨ tag.openEnd.text = ['>'] ∨
    tag.openEnd.text = [] ∧ tag.openEnd.span = ⟨source.byteLength, source.byteLength⟩
  selfClosing : tag.isSelfClosing = true ↔ tag.openEnd.text = ['/', '>']
  ordered : tag.attributes.Pairwise fun a b => a.span.stop ≤ b.span.start
  within : ∀ part ∈ tag.attributes,
    tag.openStart.span.stop ≤ part.span.start ∧ part.span.stop ≤ tag.openEnd.span.start
  /-- Every byte between the name and the end that is in no attribute is a separator. -/
  apart : ∀ place, tag.openStart.span.stop ≤ place → place < tag.openEnd.span.start →
    (∀ part ∈ tag.attributes, place < part.span.start ∨ part.span.stop ≤ place) →
    ∃ c, source.StandsAt place [c] ∧ IsSeparator c
  attributes : ∀ part ∈ tag.attributes, part.IsShaped source
  exact : tag.IsExact source

theorem Written.IsSeparator.utf8Size {c : Char} (separator : IsSeparator c) : c.utf8Size = 1 := by
  rcases separator with space | rfl
  · simp only [isMarkupSpace, Bool.or_eq_true, beq_iff_eq] at space
    rcases space with (((rfl | rfl) | rfl) | rfl) | rfl <;> decide
  · decide

section Located

variable {source : Text} {index : LineIndex} {place : Nat}

/-- At every byte of separators one of them stands. -/
theorem Text.StandsAt.exists_separator {gap : Text} {start : Nat}
    (stands : source.StandsAt start gap) (separators : ∀ c ∈ gap, IsSeparator c)
    (lower : start ≤ place) (upper : place < start + gap.byteLength) :
    ∃ c, source.StandsAt place [c] ∧ IsSeparator c := by
  -- A separator is one byte, so going on by one character is going on by one place.
  induction gap generalizing start with
  | nil => simp only [Text.byteLength_nil] at upper; omega
  | cons c gap ih =>
    have own := separators c List.mem_cons_self
    have first : source.StandsAt start ([c] ++ gap) := stands
    rcases Nat.eq_or_lt_of_le lower with rfl | later
    · exact ⟨c, first.left, own⟩
    · have onward : source.StandsAt (start + 1) gap := by
        simpa [own.utf8Size] using first.right
      rw [Text.byteLength_cons, own.utf8Size] at upper
      exact ih onward (fun d member => separators d (List.mem_cons_of_mem c member)) later
        (by omega)

/-- At one place stands one character. -/
theorem Text.StandsAt.head_eq {c d : Char} (first : source.StandsAt place [c])
    (second : source.StandsAt place [d]) : c = d := by
  obtain ⟨before, after, split, here⟩ := first
  obtain ⟨before', after', rfl, here'⟩ := second
  simp only [List.append_assoc, List.singleton_append] at split
  obtain ⟨middle, same, onward⟩ := Text.exists_middle split (by omega)
  have empty : middle = [] := by
    have size := congrArg Text.byteLength same
    rw [Text.byteLength_append] at size
    by_contra full
    have := Text.byteLength_pos full
    omega
  rw [empty, List.nil_append, List.cons.injEq] at onward
  exact onward.1.symm

theorem Written.Attribute.IsFormed.render_ne_nil {written : Written.Attribute} {rest : Text}
    (formed : written.IsFormed rest) : written.render ≠ [] := by
  intro empty
  cases key : written.key with
  | none =>
    have sign := formed.keyless.1 key
    rw [empty] at sign
    contradiction
  | some own =>
    have full := formed.key own key
    simp [Written.Attribute.render, Written.Attribute.keyText, key, full] at empty

/-- An attribute that is written in this form has the shape of one. -/
theorem LineIndex.isShaped_attributeAt (index : LineIndex) {written : Written.Attribute}
    {rest : Text} (formed : written.IsFormed rest)
    (stands : source.StandsAt place (written.render ++ rest))
    (ends : place + (written.render ++ rest).byteLength = source.byteLength) :
    (index.attributeAt place written).IsShaped source := by
  have selected := stands.left.select?
  have full := formed.render_ne_nil
  have key : (index.attributeAt place written).key = written.key.map (index.contentAt place) := rfl
  have keyText : ((index.attributeAt place written).key.map Content.text).getD [] =
      written.keyText := by
    cases shown : written.key <;> simp [key, contentAt, Written.Attribute.keyText, shown]
  refine {
    nonempty := Nat.lt_add_of_pos_right (Text.byteLength_pos full)
    keyless := ?keyless
    key := ?key
    bare := ?bare
    value := ?value }
  case keyless =>
    obtain ⟨c, r, shown⟩ := List.exists_cons_of_ne_nil full
    have first : source.StandsAt place [c] := by
      rw [shown] at stands
      exact Text.StandsAt.left (t := r ++ rest) stands
    rw [key, Option.map_eq_none_iff, formed.keyless, shown, List.head?_cons, Option.some.injEq]
    exact ⟨fun same => same ▸ first, fun second => first.head_eq second⟩
  case key =>
    intro content own
    obtain ⟨fragment, written, rfl⟩ := Option.map_eq_some_iff.1 own
    exact ⟨formed.key fragment written, rfl⟩
  case bare =>
    intro missing
    have alone : written.assignment = none := Option.map_eq_none_iff.1 missing
    have shown : written.render = written.keyText := by simp [Written.Attribute.render, alone]
    cases own : written.key with
    | none => simp [shown, Written.Attribute.keyText, own] at full
    | some fragment =>
      refine ⟨index.contentAt place fragment, by simp [key, own], ?_⟩
      simp [attributeAt, contentAt, shown, Written.Attribute.keyText, own]
  case value =>
    intro value own
    obtain ⟨a, assigned, rfl⟩ := Option.map_eq_some_iff.1 own
    have form := formed.assignment a assigned
    have shown : written.render = written.keyText ++ a.beforeSign ++ ['='] ++ a.afterSign ++
        a.quoteText ++ a.value.text ++ if a.isClosed then a.quoteText else [] := by
      simp [Written.Attribute.render, Written.Assignment.render, assigned]
    have sign : '='.utf8Size = 1 := by decide
    rw [keyText]
    refine ⟨a.beforeSign, a.afterSign, a.quoteText, if a.isClosed then a.quoteText else [], ?_, ?_,
      ?_, ?_⟩
    · exact selected.trans (congrArg some shown)
    · simp only [contentAt, attributeAt, Text.byteLength_append, Text.byteLength_cons,
        Text.byteLength_nil, sign]
      omega
    · intro c member
      exact (List.mem_append.1 member).elim (form.beforeSign c) (form.afterSign c)
    · cases quote : a.quote with
      | none => exact Or.inl ⟨by simp [Written.Assignment.quoteText, quote],
          by simp [Written.Assignment.quoteText, quote], form.bare quote⟩
      | some c =>
        refine Or.inr ⟨c, form.quote c quote, by simp [Written.Assignment.quoteText, quote], ?_⟩
        cases closed : a.isClosed with
        | true => exact Or.inl (by simp [Written.Assignment.quoteText, quote])
        | false =>
          -- Nothing comes after the attribute, so it ends where the source does.
          refine Or.inr ⟨rfl, ?_⟩
          rw [form.closes (by simp [quote]) closed, List.append_nil] at ends
          exact ends

/-- Attributes that are written in their form follow each other in their shape, with nothing but
separators before each of them. -/
theorem LineIndex.isShaped_attributesAt (index : LineIndex)
    {entries : List (Text × Written.Attribute)} {rest : Text}
    (formed : OpenTag.FormAttributes rest entries)
    (stands : source.StandsAt place (OpenTag.renderAttributes entries ++ rest))
    (ends : place + (OpenTag.renderAttributes entries ++ rest).byteLength = source.byteLength) :
    let parts := (index.attributesAt place entries).1
    (∀ part ∈ parts, part.IsShaped source) ∧
      (parts.Pairwise fun a b => a.span.stop ≤ b.span.start) ∧
      ∀ here, place ≤ here → here < place + (OpenTag.renderAttributes entries).byteLength →
        (∀ part ∈ parts, here < part.span.start ∨ part.span.stop ≤ here) →
        ∃ c, source.StandsAt here [c] ∧ IsSeparator c := by
  -- The induction is on the attributes; for each of them the text after it goes on to the end of
  -- the source, which is what an attribute without its last quote needs.
  induction entries generalizing place with
  | nil =>
    refine ⟨by simp [attributesAt], by simp [attributesAt], fun here lower upper => ?_⟩
    rw [OpenTag.renderAttributes, List.flatMap_nil, Text.byteLength_nil] at upper
    omega
  | cons entry others ih =>
    obtain ⟨gap, written⟩ := entry
    obtain ⟨separators, own, further⟩ := formed
    have shown : OpenTag.renderAttributes ((gap, written) :: others) ++ rest =
        gap ++ (written.render ++ (OpenTag.renderAttributes others ++ rest)) := by
      simp [OpenTag.renderAttributes]
    have size : (OpenTag.renderAttributes ((gap, written) :: others)).byteLength =
        gap.byteLength + (written.render.byteLength +
          (OpenTag.renderAttributes others).byteLength) := by
      simp [OpenTag.renderAttributes]
    rw [shown] at stands ends
    rw [Text.byteLength_append, ← Nat.add_assoc] at ends
    have first := index.isShaped_attributeAt own stands.right ends
    rw [Text.byteLength_append, ← Nat.add_assoc] at ends
    obtain ⟨shapes, follow, separated⟩ := ih further stands.right.right ends
    refine ⟨?_, ?_, ?_⟩
    · intro part member
      rcases List.mem_cons.1 member with rfl | later
      · exact first
      · exact shapes part later
    · exact List.Pairwise.cons (fun part member => (mem_attributesAt member).1) follow
    · intro here lower upper outside
      -- The byte is before the first attribute, or after it.
      rcases Nat.lt_or_ge here (place + gap.byteLength) with before | after
      · exact stands.left.exists_separator separators lower before
      · have past : place + gap.byteLength + written.render.byteLength ≤ here := by
          rcases outside _ List.mem_cons_self with early | late
          · exact absurd early (Nat.not_lt.2 after)
          · exact late
        exact separated here past (by omega)
          fun part member => outside part (List.mem_cons_of_mem _ member)

/-- A tag that is written in its form has the shape of one. -/
theorem LineIndex.isShaped_tagAt (index : LineIndex) {written : OpenTag} {rest : Text}
    {close : Option Token} (formed : written.IsFormed rest)
    (stands : source.StandsAt place (written.render ++ rest))
    (ends : place + (written.render ++ rest).byteLength = source.byteLength)
    (exact_ : (index.tagAt place written close).IsExact source) :
    (index.tagAt place written close).IsShaped source := by
  have shown : written.render ++ rest = ('<' :: written.name) ++
      (OpenTag.renderAttributes written.attributes ++
        OpenTag.tailText written.gap written.ending rest) := by
    simp [OpenTag.render, OpenTag.renderAttributes, OpenTag.tailText]
  rw [shown] at stands ends
  rw [Text.byteLength_append, ← Nat.add_assoc] at ends
  obtain ⟨shapes, follow, separated⟩ :=
    index.isShaped_attributesAt formed.attributes stands.right ends
  have ending : (index.tagAt place written close).openEnd.text = written.ending.render := rfl
  have last := index.attributesAt_stop (place + Text.byteLength ('<' :: written.name))
    written.attributes
  rw [Text.byteLength_append, ← Nat.add_assoc] at ends
  refine {
    openStart := rfl
    letter := formed.letter
    name := ?name
    openEnd := ?openEnd
    selfClosing := ?selfClosing
    ordered := follow
    within := ?within
    apart := ?apart
    attributes := shapes
    exact := exact_ }
  case name =>
    intro c member
    have runs := formed.name c member
    simp only [Written.isNameEnd, Bool.or_eq_false_iff, beq_eq_false_iff_ne] at runs
    exact ⟨runs.1.1, runs.2, runs.1.2⟩
  case openEnd =>
    cases own : written.ending with
    | selfClosing => exact Or.inl (by rw [ending, own]; rfl)
    | plain => exact Or.inr (Or.inl (by rw [ending, own]; rfl))
    | unfinished =>
      -- Nothing comes after a tag without an end, so it stops where the source does.
      refine Or.inr (Or.inr ⟨by rw [ending, own]; rfl, ?_⟩)
      rw [formed.ending own, own, OpenTag.tailText] at ends
      simp only [tagAt, tokenAt, last, own, Written.Ending.render, Text.byteLength_nil,
        Nat.add_zero, Span.mk.injEq, and_self]
      rw [← ends]
      simp [OpenTag.renderAttributes, Written.Ending.render]
  case selfClosing =>
    have closes : (index.tagAt place written close).isSelfClosing = written.isSelfClosing := rfl
    rw [closes, ending, OpenTag.isSelfClosing]
    cases written.ending <;> decide
  case within =>
    intro part member
    have lies := mem_attributesAt member
    refine ⟨lies.1, Nat.le_trans lies.2 (Nat.le_add_right _ _)⟩
  case apart =>
    intro here lower upper outside
    -- The byte is among the attributes, or in the gap after the last of them.
    rcases Nat.lt_or_ge here (place + Text.byteLength ('<' :: written.name) +
      (OpenTag.renderAttributes written.attributes).byteLength) with before | after
    · exact separated here lower before outside
    · have gap := stands.right.right
      rw [OpenTag.tailText, List.append_assoc] at gap
      refine gap.left.exists_separator formed.gap after ?_
      simp only [tagAt, tokenAt] at upper last
      rw [last] at upper
      simpa [OpenTag.renderAttributes] using upper

end Located

namespace Document

variable {pairs : List Delimiters} {source : Text}

/-- A piece of a source stands where it is located, and is read there. -/
theorem exists_reads_of_mem_locate {place : Nat} {piece : Piece}
    (member : (place, piece) ∈ Piece.locate 0 (Piece.scanAll pairs source)) :
    ∃ others, Piece.Reads pairs (piece :: others) ∧
      source.StandsAt place (piece.render ++ Piece.renderAll others) ∧
      place + (piece.render ++ Piece.renderAll others).byteLength = source.byteLength := by
  obtain ⟨before, after, split, here⟩ := Piece.exists_of_mem_locate member
  have reads := Piece.reads_scanAll pairs source
  have whole := Piece.renderAll_scanAll pairs source
  rw [split] at reads whole
  rw [Piece.renderAll_append, Piece.renderAll_cons] at whole
  refine ⟨after, reads.of_append, ⟨Piece.renderAll before, [], by simp [whole], by omega⟩, ?_⟩
  rw [here, Nat.zero_add, ← whole, Text.byteLength_append (Piece.renderAll before)]

/-- Every tag of a document is an opening tag of the source. -/
theorem exists_written {tree : Tree} (member : tree ∈ (parse pairs source).subtrees) {tag : Tag}
    (own : tag ∈ tree.node.kind.tags) :
    ∃ (written : OpenTag) (rest : Text), written.IsFormed rest ∧
      tag = (LineIndex.ofText source).tagAt tree.node.span.start written tag.close ∧
      source.StandsAt tree.node.span.start (written.render ++ rest) ∧
      tree.node.span.start + (written.render ++ rest).byteLength = source.byteLength := by
  rcases List.mem_cons.1 member with rfl | below
  · simp [parse, Kind.tags] at own
  obtain ⟨_, comes, _⟩ := comesFrom_parse pairs source below
  -- A script and a style are read in the same way.
  have raw {content : Option Content}
      (kind : tree.node.kind = .script tag content ∨ tree.node.kind = .style tag content) :
      ∃ (written : OpenTag) (rest : Text), written.IsFormed rest ∧
        tag = (LineIndex.ofText source).tagAt tree.node.span.start written tag.close ∧
        source.StandsAt tree.node.span.start (written.render ++ rest) ∧
        tree.node.span.start + (written.render ++ rest).byteLength = source.byteLength := by
    obtain ⟨written, body, located, _, _, same⟩ := comes.exists_raw kind
    obtain ⟨others, reads, stands, ends⟩ := exists_reads_of_mem_locate located
    rw [Piece.render, List.append_assoc] at stands ends
    exact ⟨written, _, reads.raw_formed.1, by rw [same]; rfl, stands, ends⟩
  cases kind : tree.node.kind with
  | document | text | comment | doctype => simp [kind, Kind.tags] at own
  | element tag' =>
    obtain rfl : tag = tag' := by simpa [kind, Kind.tags] using own
    obtain ⟨written, located, same, _⟩ := comes.tag_eq kind
    obtain ⟨others, reads, stands, ends⟩ := exists_reads_of_mem_locate located
    exact ⟨written, _, reads.opening_formed, same, stands, ends⟩
  | script tag' content =>
    obtain rfl : tag = tag' := by simpa [kind, Kind.tags] using own
    exact raw (Or.inl kind)
  | style tag' content =>
    obtain rfl : tag = tag' := by simpa [kind, Kind.tags] using own
    exact raw (Or.inr kind)

/-- Whether all opening tags of a document have the shape of one. -/
def HasShapedTags (source : Text) (doc : Document) : Prop :=
  ∀ node ∈ doc.nodes, ∀ tag ∈ node.kind.tags, tag.IsShaped source

/-- Every opening tag of a document, raw elements included, has the shape of one. -/
theorem hasShapedTags_parse (pairs : List Delimiters) (source : Text) :
    (parse pairs source).HasShapedTags source := by
  intro node member tag own
  have exact_ := (isExact_of_mem_nodes member).tags tag own
  obtain ⟨tree, within, rfl⟩ := List.mem_map.1 member
  obtain ⟨written, rest, formed, same, stands, ends⟩ := exists_written within own
  rw [same] at exact_ ⊢
  exact LineIndex.isShaped_tagAt _ formed stands ends exact_

end Document

end TagLint
