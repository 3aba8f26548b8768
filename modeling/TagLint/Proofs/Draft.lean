import TagLint.Proofs.Nesting

/-!
Drafts: documents as they are meant, without offsets and without the freedom of writing.

A draft is printed in one way. A parsed forest is read back as a draft by forgetting ids, spans and
how its tags are spaced; `Draft.WellFormed` says which drafts can come back from their print.
-/
namespace TagLint

open Written (Piece OpenTag)

/-- How an element ends. -/
inductive DraftForm where
  | selfClosing
  | unclosed
  | closed
  deriving DecidableEq, Repr

/-- An element without its content; an attribute is a key, with a value if there is one. -/
structure DraftTag where
  name : Text
  attributes : List (Text × Option Text)
  form : DraftForm
  deriving DecidableEq, Repr

/-- A draft, as first node and what comes after it. -/
inductive Draft where
  | nil
  | text (content : Text) (next : Draft)
  | comment (content : Text) (next : Draft)
  | doctype (content : Text) (next : Draft)
  | raw (isScript : Bool) (tag : DraftTag) (content : Text) (next : Draft)
  | element (tag : DraftTag) (inside next : Draft)
  deriving DecidableEq, Repr

namespace DraftTag

/-- The value of an attribute, in quotes. -/
def printValue : Option Text → Text
  | none => []
  | some value => '=' :: '"' :: value ++ ['"']

/-- An attribute with the space before it. -/
def printAttribute (entry : Text × Option Text) : Text :=
  ' ' :: entry.1 ++ printValue entry.2

/-- The end of the opening tag. -/
def printEnd (tag : DraftTag) : Text :=
  if tag.form = .selfClosing then " />".toList else ['>']

def printOpen (tag : DraftTag) : Text :=
  '<' :: tag.name ++ tag.attributes.flatMap printAttribute ++ tag.printEnd

def printClose (tag : DraftTag) : Text :=
  if tag.form = .closed then "</".toList ++ tag.name ++ ['>'] else []

/-- Whether names, keys and values have none of the characters that would end them. -/
structure WellFormed (tag : DraftTag) : Prop where
  letter : Text.startsWithLetter tag.name = true
  name : ∀ c ∈ tag.name, Written.isNameEnd c = false
  keys : ∀ entry ∈ tag.attributes, entry.1 ≠ [] ∧
    ∀ c ∈ entry.1, isMarkupSpace c = false ∧ c ≠ '>' ∧ c ≠ '=' ∧ c ≠ '/'
  values : ∀ entry ∈ tag.attributes, ∀ value ∈ entry.2, '"' ∉ value

instance (tag : DraftTag) : Decidable tag.WellFormed :=
  decidable_of_iff
    (Text.startsWithLetter tag.name = true ∧
      (tag.name.all fun c => !Written.isNameEnd c) = true ∧
      (tag.attributes.all fun entry => !entry.1.isEmpty &&
        entry.1.all fun c => !isMarkupSpace c && c != '>' && c != '=' && c != '/') = true ∧
      (tag.attributes.all fun entry => entry.2.all fun value => !value.contains '"') = true)
    ⟨fun ⟨letter, name, keys, values⟩ =>
      ⟨letter, by simpa using name, by simpa [and_assoc] using keys,
        by simpa [Option.all_eq_true] using values⟩,
    fun formed =>
      ⟨formed.letter, by simpa using formed.name, by simpa [and_assoc] using formed.keys,
        by simpa [Option.all_eq_true] using formed.values⟩⟩

end DraftTag

namespace Draft

/-- The source that the draft stands for. -/
def print : Draft → Text
  | nil => []
  | text content next => content ++ next.print
  | comment content next => "<!--".toList ++ content ++ "-->".toList ++ next.print
  | doctype content next => "<!".toList ++ content ++ ['>'] ++ next.print
  | raw _ tag content next => tag.printOpen ++ content ++ tag.printClose ++ next.print
  | element tag inside next => tag.printOpen ++ inside.print ++ tag.printClose ++ next.print

def startsWithText : Draft → Bool
  | text _ _ => true
  | _ => false

/-- Whether the draft, inside the elements named `outer`, is what its print reads as. -/
def WellFormed (outer : List Text) : Draft → Prop
  | nil => True
  | text content next =>
    content ≠ [] ∧ '<' ∉ content ∧ next.startsWithText = false ∧ next.WellFormed outer
  | comment content next => ¬"-->".toList <:+: content ∧ next.WellFormed outer
  | doctype content next =>
    Text.startsWithName "doctype".toList content = true ∧ '>' ∉ content ∧ next.WellFormed outer
  | raw isScript tag content next =>
    tag.WellFormed ∧
      Text.sameName tag.name (if isScript then "script" else "style").toList = true ∧
      (tag.form = .selfClosing ∧ content = [] ∨
        tag.form = .closed ∧
          ∀ part, part <:+: content → Text.sameName part ('<' :: '/' :: tag.name) = false) ∧
      next.WellFormed outer
  | element tag inside next =>
    tag.WellFormed ∧
      (Text.sameName tag.name "script".toList = false ∧
        Text.sameName tag.name "style".toList = false) ∧
      (tag.form = .selfClosing ∧ inside = nil ∨
        tag.form = .unclosed ∧ isVoidIn outer tag.name = true ∧ inside = nil ∨
        tag.form = .closed ∧ isVoidIn outer tag.name = false ∧
          inside.WellFormed (tag.name :: outer)) ∧
      next.WellFormed outer

end Draft

def Tag.form (tag : Tag) : DraftForm :=
  if tag.isSelfClosing then .selfClosing else if tag.close.isSome then .closed else .unclosed

def Tag.draft (tag : Tag) : DraftTag where
  name := tag.name
  attributes := tag.attributes.map fun part =>
    ((part.key.map Content.text).getD [], part.value.map Content.text)
  form := tag.form

/-- The draft that a forest is of. -/
def Forest.draft : Forest → Draft
  | nil => .nil
  | cons node inside next =>
    match node.kind with
    | .document => next.draft
    | .text content => .text content.text next.draft
    | .comment content => .comment content.text next.draft
    | .doctype content => .doctype content.text next.draft
    | .script tag content => .raw true tag.draft ((content.map Content.text).getD []) next.draft
    | .style tag content => .raw false tag.draft ((content.map Content.text).getD []) next.draft
    | .element tag => .element tag.draft inside.draft next.draft

def DraftTag.writtenAttribute (entry : Text × Option Text) : Written.Attribute :=
  ⟨some ⟨entry.1, []⟩, entry.2.map fun value => ⟨[], [], some '"', ⟨value, []⟩, true⟩⟩

/-- The opening tag that a draft prints. -/
def DraftTag.written (tag : DraftTag) : OpenTag where
  name := tag.name
  attributes := tag.attributes.map fun entry => ([' '], writtenAttribute entry)
  gap := if tag.form = .selfClosing then [' '] else []
  ending := if tag.form = .selfClosing then .selfClosing else .plain

/-- The nested pieces that a draft prints. -/
def Draft.outline : Draft → Outline
  | nil => .nil
  | text content next => .single (.text ⟨content, []⟩) next.outline
  | comment content next => .single (.comment ⟨content, []⟩ true) next.outline
  | doctype content next => .single (.doctype ⟨content, []⟩ true) next.outline
  | raw _ tag content next =>
    .single (.raw tag.written
      (if tag.form = .closed then some ⟨⟨content, []⟩, some tag.printClose⟩ else none))
      next.outline
  | element tag inside next =>
    if tag.form = .closed then
      .element tag.written inside.outline (some ⟨tag.name, [], true⟩) next.outline
    else .single (.opening tag.written) next.outline

namespace DraftTag

theorem render_written (tag : DraftTag) : tag.written.render = tag.printOpen := by
  have attributes : tag.written.attributes.flatMap (fun entry => entry.1 ++ entry.2.render) =
      tag.attributes.flatMap printAttribute := by
    simp only [written, List.flatMap_map]
    congr 1
    funext ⟨key, value⟩
    cases value <;>
      simp [printAttribute, printValue, writtenAttribute, Written.Attribute.render,
        Written.Attribute.keyText, Written.Assignment.render, Written.Assignment.quoteText]
  have ends : tag.written.gap ++ tag.written.ending.render = tag.printEnd := by
    simp only [written, printEnd]
    split <;> rfl
  simp only [OpenTag.render, attributes, printOpen, List.append_assoc, ends]
  rfl

/-- An element is read back from the tags that were printed of it. -/
theorem draft_tagAt (index : LineIndex) (offset : Nat) (tag : DraftTag) (close : Option Token)
    (closes : close.isSome = true ↔ tag.form = .closed) :
    (index.tagAt offset tag.written close).draft = tag := by
  have attributes (start : Nat) :
      (index.attributesAt start tag.written.attributes).1.map (fun part =>
        ((part.key.map Content.text).getD [], part.value.map Content.text)) =
      tag.attributes := by
    simp only [written]
    induction tag.attributes generalizing start with
    | nil => rfl
    | cons entry others ih =>
      obtain ⟨key, value⟩ := entry
      simp only [List.map_cons, LineIndex.attributesAt, ih]
      cases value <;> rfl
  -- A form that is not written in the opening tag is told by the closing tag.
  have form : (index.tagAt offset tag.written close).form = tag.form := by
    cases shown : tag.form <;>
      simp_all [Tag.form, LineIndex.tagAt, OpenTag.isSelfClosing, written]
  simp only [Tag.draft, form]
  simp only [LineIndex.tagAt, attributes]
  rfl

end DraftTag

theorem Written.Piece.kindAt?_raw (index : LineIndex) (offset : Nat) (tag : OpenTag)
    (body : Option Written.RawBody) (isScript : Bool)
    (script : Text.sameName tag.name "script".toList = isScript) :
    (Piece.raw tag body).kindAt? index offset =
      (let inside := offset + tag.render.byteLength
      let content := body.map fun body => index.contentAt inside body.content
      let close := body.bind fun body =>
        body.close.map (index.tokenAt (inside + body.content.text.byteLength))
      some (if isScript then .script (index.tagAt offset tag close) content
        else .style (index.tagAt offset tag close) content)) := by
  rw [kindAt?, script]

namespace Draft

theorem renderAll_outline {draft : Draft} {outer : List Text} (formed : draft.WellFormed outer) :
    Piece.renderAll draft.outline.pieces = draft.print := by
  -- A form without a closing tag has nothing inside it to print.
  induction draft generalizing outer with
  | nil => rfl
  | text content next ih =>
    have others := ih formed.2.2.2
    simp_all [outline, Piece.renderAll, Piece.render, print]
  | comment content next ih =>
    have others := ih formed.2
    simp_all [outline, Piece.renderAll, Piece.render, print]
  | doctype content next ih =>
    have others := ih formed.2.2
    simp_all [outline, Piece.renderAll, Piece.render, Piece.bracket, print]
  | raw isScript tag content next ih =>
    obtain ⟨_, _, form, further⟩ := formed
    have others := ih further
    rcases form with ⟨form, rfl⟩ | ⟨form, _⟩ <;>
      simp_all [outline, Piece.renderAll, Piece.render, print, DraftTag.render_written,
        Written.RawBody.render, DraftTag.printClose]
  | element tag inside next ihInside ihNext =>
    obtain ⟨_, _, form, further⟩ := formed
    have others := ihNext further
    rcases form with ⟨form, rfl⟩ | ⟨form, _, rfl⟩ | ⟨form, _, content⟩
    · simp_all [outline, Piece.renderAll, Piece.render, print, DraftTag.render_written,
        DraftTag.printClose]
    · simp_all [outline, Piece.renderAll, Piece.render, print, DraftTag.render_written,
        DraftTag.printClose]
    · have within := ihInside content
      simp_all [outline, Piece.renderAll, Piece.render, Piece.bracket, print, ClosingTag.piece,
        DraftTag.render_written, DraftTag.printClose]

/-- A printed sibling list does not begin with a closing tag. -/
theorem head_not_closing (draft : Draft) (piece : Piece)
    (first : piece ∈ draft.outline.pieces.head?) : piece.isClosing = false := by
  cases draft with
  | nil => simp [outline] at first
  | element tag inside next =>
    simp only [outline] at first
    split at first <;> (simp at first; subst first; rfl)
  | _ =>
    simp only [outline, Outline.pieces_single, List.head?_cons, Option.mem_some_iff] at first
    subst first
    rfl

theorem unclosed_outline (draft : Draft) : draft.outline.unclosed = [] := by
  induction draft with
  | element tag inside next _ ih =>
    rw [outline]
    split <;> exact ih
  | nil => rfl
  | text _ _ ih | comment _ _ ih | doctype _ _ ih | raw _ _ _ _ ih => exact ih

theorem nested_outline {draft : Draft} {outer : List Text} (formed : draft.WellFormed outer) :
    draft.outline.Nested outer := by
  induction draft generalizing outer with
  | nil => trivial
  | text content next ih => exact ⟨trivial, ih formed.2.2.2⟩
  | comment content next ih => exact ⟨trivial, ih formed.2⟩
  | doctype content next ih => exact ⟨trivial, ih formed.2.2⟩
  | raw isScript tag content next ih => exact ⟨trivial, ih formed.2.2.2⟩
  | element tag inside next ihInside ihNext =>
    obtain ⟨_, _, form, further⟩ := formed
    have others := ihNext further
    -- No element is closed by mistake: what comes after a void element is no closing tag.
    have apart (next : Draft) : ∀ piece ∈ next.outline.pieces.head?,
        piece.closesVoid tag.written = false := by
      intro piece first
      have kind := head_not_closing next piece first
      cases piece <;> simp_all [Piece.closesVoid, Piece.isClosing]
    rcases form with ⟨form, rfl⟩ | ⟨form, void, rfl⟩ | ⟨form, plain, content⟩
    · simp only [outline, form, reduceCtorEq, if_false]
      refine ⟨⟨?_, fun _ => apart next⟩, others⟩
      simp [OpenTag.waitsIn, OpenTag.isSelfClosing, DraftTag.written, form]
    · simp only [outline, form, reduceCtorEq, if_false]
      refine ⟨⟨?_, fun _ => apart next⟩, others⟩
      simp [OpenTag.waitsIn, DraftTag.written, void]
    · simp only [outline, form, if_true]
      refine ⟨ihInside content, Or.inl ⟨?_, ?_, ?_⟩, others⟩
      · simp [OpenTag.waitsIn, OpenTag.isSelfClosing, DraftTag.written, plain, form]
      · simp [DraftTag.written, Text.sameName]
      · -- Everything inside is closed before the closing tag comes.
        simp [unclosed_outline]

theorem strays_outline (draft : Draft) (offset : Nat) : draft.outline.strays offset = [] := by
  induction draft generalizing offset with
  | nil => rfl
  | element tag inside next ihInside ihNext =>
    rw [outline]
    split <;> simp [Outline.strays, Piece.strayAt?, ihInside, ihNext]
  | text _ _ ih | comment _ _ ih | doctype _ _ ih | raw _ _ _ _ ih => exact ih _

/-- The forest that a draft prints is read back as the draft. -/
theorem draft_forest {draft : Draft} {outer : List Text} (formed : draft.WellFormed outer)
    (index : LineIndex) (parent id offset : Nat) :
    (draft.outline.forest index parent id offset).draft = draft := by
  induction draft generalizing outer parent id offset with
  | nil => rfl
  | text content next ih =>
    have others := ih formed.2.2.2 parent (id + 1) (offset + content.byteLength)
    exact congrArg (text content) others
  | comment content next ih =>
    have others (start : Nat) := ih formed.2 parent (id + 1) start
    exact congrArg (comment content) (others _)
  | doctype content next ih =>
    have others (start : Nat) := ih formed.2.2 parent (id + 1) start
    exact congrArg (doctype content) (others _)
  | raw isScript tag content next ih =>
    obtain ⟨_, named, form, further⟩ := formed
    have others (start : Nat) := ih further parent (id + 1) start
    -- A name cannot be that of a style and that of a script.
    have script : Text.sameName tag.name "script".toList = isScript := by
      cases isScript with
      | true => exact named
      | false =>
        simp only [Text.sameName, beq_iff_eq, Bool.false_eq_true, if_false] at named ⊢
        rw [named]
        decide
    have kind (body : Option Written.RawBody) := Piece.kindAt?_raw index offset tag.written body
      isScript script
    rcases form with ⟨form, rfl⟩ | ⟨form, _⟩
    · have own := tag.draft_tagAt index offset none (by simp [form])
      simp only [outline, form, reduceCtorEq, if_false, Outline.forest, kind, Option.map_none,
        Option.bind_none]
      cases isScript <;> simp [Forest.draft, own, others]
    · have own (token : Token) := tag.draft_tagAt index offset (some token) (by simp [form])
      simp only [outline, form, if_true, Outline.forest, kind, Option.map_some, Option.bind_some]
      cases isScript <;> simp [Forest.draft, own, others, LineIndex.contentAt]
  | element tag inside next ihInside ihNext =>
    obtain ⟨_, _, form, further⟩ := formed
    have others (number start : Nat) := ihNext further parent number start
    rcases form with ⟨form, rfl⟩ | ⟨form, _, rfl⟩ | ⟨form, _, content⟩
    · have own := tag.draft_tagAt index offset none (by simp [form])
      simp [outline, form, Outline.forest, Piece.kindAt?, Forest.draft, own, others]
    · have own := tag.draft_tagAt index offset none (by simp [form])
      simp [outline, form, Outline.forest, Piece.kindAt?, Forest.draft, own, others]
    · have own (token : Token) := tag.draft_tagAt index offset (some token) (by simp [form])
      have closed (token : Token) : { index.tagAt offset tag.written none with
          close := some token } = index.tagAt offset tag.written (some token) := rfl
      have within := ihInside content id (id + 1) (offset + tag.written.render.byteLength)
      simp [outline, form, Outline.forest, OpenElement.finish, Forest.draft, closed, own, others,
        within]

end Draft
end TagLint
