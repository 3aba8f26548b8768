import TagLint.Proofs.Outline

/-!
The tree of an outline, and that parsing builds it.

The builder reads pieces with a stack. On the pieces of a nested outline it does what a recursion
over the outline does: the content of an element is read on top of it, the elements that are left
open inside are finished, and the closing tag finds the element by its name.
-/
namespace TagLint

open Written (Piece OpenTag)

namespace Written.Piece

abbrev width (piece : Piece) : Nat :=
  piece.render.byteLength

/-- What the piece at `offset` is in a document by itself; a closing tag is nothing. -/
def kindAt? (index : LineIndex) (offset : Nat) : Piece → Option Kind
  | .text content => some (.text (index.contentAt offset content))
  | .comment body _ => some (.comment (index.contentAt (offset + 4) body))
  | .doctype body _ => some (.doctype (index.contentAt (offset + 2) body))
  | .raw written body =>
    let inside := offset + written.render.byteLength
    let content := body.map fun body => index.contentAt inside body.content
    let close := body.bind fun body =>
      body.close.map (index.tokenAt (inside + body.content.text.byteLength))
    let tag := index.tagAt offset written close
    some (if Text.sameName written.name "script".toList then .script tag content
      else .style tag content)
  | .opening written => some (.element (index.tagAt offset written none))
  | .closing _ _ _ => none

def isClosing : Piece → Bool
  | .closing _ _ _ => true
  | _ => false

/-- What the piece at `offset` is when it closes nothing and is a closing tag. -/
def strayAt? (offset : Nat) (piece : Piece) : Option Stray :=
  match piece with
  | .closing name _ _ => some ⟨name, ⟨offset, offset + piece.width⟩⟩
  | _ => none

theorem kindAt?_isNone (index : LineIndex) (offset : Nat) (piece : Piece) :
    (piece.kindAt? index offset).isNone = piece.isClosing := by
  cases piece <;> rfl

theorem strayAt?_isSome (offset : Nat) (piece : Piece) :
    (piece.strayAt? offset).isSome = piece.isClosing := by
  cases piece <;> rfl

end Written.Piece

namespace Outline

def width (outline : Outline) : Nat :=
  (Piece.renderAll outline.pieces).byteLength

def count : Outline → Nat
  | nil => 0
  | single piece next => (if piece.isClosing then 0 else 1) + next.count
  | element _ inside _ next => inside.count + 1 + next.count

/-- The forest of an outline that starts at `offset` inside the node `parent`; its first node gets
the id `id`. -/
def forest (index : LineIndex) (parent id offset : Nat) : Outline → Forest
  | nil => .nil
  | single piece next =>
    match piece.kindAt? index offset with
    | none => next.forest index parent id (offset + piece.width)
    | some kind =>
      let span : Span := ⟨offset, offset + piece.width⟩
      .cons ⟨id, some parent, span, index.extent span, kind⟩ .nil
        (next.forest index parent (id + 1) (offset + piece.width))
  | element tag inside close next =>
    let within := offset + tag.render.byteLength
    let content := inside.forest index id (id + 1) within
    let token := close.map fun close =>
      index.tokenAt (within + inside.width) close.piece.render
    let tree := OpenElement.finish
      ⟨id, parent, index.tagAt offset tag none, content.trees.reverse⟩ index token
    let after := within + inside.width + (close.map fun close => close.piece.width).getD 0
    .cons tree.node tree.inside (next.forest index parent (id + inside.count + 1) after)

/-- The closing tags in an outline that starts at `offset` which close nothing. -/
def strays (offset : Nat) : Outline → List Stray
  | nil => []
  | single piece next =>
    (piece.strayAt? offset).toList ++ next.strays (offset + piece.width)
  | element tag inside close next =>
    let within := offset + tag.render.byteLength
    inside.strays within ++
      next.strays (within + inside.width + (close.map fun close => close.piece.width).getD 0)

theorem byteLength_close (close : Option ClosingTag) :
    (Piece.renderAll (close.map ClosingTag.piece).toList).byteLength =
      (close.map fun close => close.piece.width).getD 0 := by
  cases close <;> simp [Piece.renderAll]

@[simp] theorem width_nil : nil.width = 0 := rfl

@[simp] theorem width_single (piece : Piece) (next : Outline) :
    (single piece next).width = piece.width + next.width := by
  simp [width, Piece.renderAll, Piece.width]

@[simp] theorem width_element (tag : OpenTag) (inside : Outline) (close : Option ClosingTag)
    (next : Outline) :
    (element tag inside close next).width = tag.render.byteLength + inside.width +
      (close.map fun close => close.piece.width).getD 0 + next.width := by
  cases close <;>
    simp [width, Piece.renderAll, Piece.width, Piece.render, ClosingTag.piece, Nat.add_assoc]

end Outline

/-! ### The builder over an outline -/

namespace Builder

def names (b : Builder) : List Text :=
  b.waiting.map fun element => element.tag.name

/-- Adds finished trees one after the other where the builder stands. -/
def placeAll (b : Builder) (trees : List Tree) : Builder :=
  trees.foldl place b

/-- Adds finished trees with `count` nodes in them, and strays. -/
def advance (b : Builder) (trees : List Tree) (count : Nat) (strays : List Stray) : Builder :=
  { b.placeAll trees with
    nextId := b.nextId + count
    strays := strays.reverse ++ b.strays }

/-- The builder after an outline that starts at `offset`, with everything in it finished. -/
def settle (b : Builder) (index : LineIndex) (offset : Nat) (outline : Outline) : Builder :=
  b.advance (outline.forest index b.parentId b.nextId offset).trees outline.count
    (outline.strays offset)

theorem placeAll_marks (b : Builder) (nextId : Nat) (strays : List Stray) (trees : List Tree) :
    ({ b with nextId := nextId, strays := strays } : Builder).placeAll trees =
      { b.placeAll trees with nextId := nextId, strays := strays } := by
  induction trees generalizing b with
  | nil => rfl
  | cons tree others ih =>
    have placed : ({ b with nextId := nextId, strays := strays } : Builder).place tree =
        { b.place tree with nextId := nextId, strays := strays } := by
      cases b with
      | mk _ waiting _ _ => cases waiting <;> rfl
    simp only [placeAll, List.foldl_cons] at ih ⊢
    rw [placed, ih]

theorem placeAll_waiting (b : Builder) (element : OpenElement) (outer : List OpenElement)
    (inside : b.waiting = element :: outer) (trees : List Tree) :
    b.placeAll trees =
      { b with
        waiting := { element with children := trees.reverse ++ element.children } :: outer } := by
  -- The element on top changes with each tree, so the induction is for every such element.
  induction trees generalizing b element with
  | nil => cases b; simp_all [placeAll]
  | cons tree others ih =>
    have placed : b.place tree =
        { b with waiting := { element with children := tree :: element.children } :: outer } := by
      simp [place, inside]
    have onward := ih (b.place tree) { element with children := tree :: element.children }
      (by rw [placed])
    simp only [placeAll, List.foldl_cons] at onward ⊢
    rw [onward, placed]
    simp

theorem placeAll_outside (b : Builder) (outside : b.waiting = []) (trees : List Tree) :
    b.placeAll trees = { b with finished := trees.reverse ++ b.finished } := by
  induction trees generalizing b with
  | nil => simp [placeAll]
  | cons tree others ih =>
    have placed : b.place tree = { b with finished := tree :: b.finished } := by
      simp [place, outside]
    have onward := ih (b.place tree) (by rw [placed, outside])
    simp only [placeAll, List.foldl_cons] at onward ⊢
    rw [onward, placed]
    simp

@[simp] theorem names_advance (b : Builder) (trees : List Tree) (count : Nat)
    (strays : List Stray) : (b.advance trees count strays).names = b.names := by
  cases waiting : b.waiting with
  | nil => simp [advance, names, placeAll_outside b waiting, waiting]
  | cons element outer => simp [advance, names, placeAll_waiting b element outer waiting, waiting]

@[simp] theorem parentId_advance (b : Builder) (trees : List Tree) (count : Nat)
    (strays : List Stray) : (b.advance trees count strays).parentId = b.parentId := by
  cases waiting : b.waiting with
  | nil => simp [advance, parentId, placeAll_outside b waiting, waiting]
  | cons element outer =>
    simp [advance, parentId, placeAll_waiting b element outer waiting, waiting]

@[simp] theorem nextId_advance (b : Builder) (trees : List Tree) (count : Nat)
    (strays : List Stray) : (b.advance trees count strays).nextId = b.nextId + count := rfl

/-- What is added in two steps can be added in one. -/
theorem advance_advance (b : Builder) (first second : List Tree) (m n : Nat)
    (some_strays more_strays : List Stray) :
    (b.advance first m some_strays).advance second n more_strays =
      b.advance (first ++ second) (m + n) (some_strays ++ more_strays) := by
  have placed : (b.placeAll first).placeAll second = b.placeAll (first ++ second) := by
    simp [placeAll]
  simp only [advance, placeAll_marks, placed, List.reverse_append, List.append_assoc,
    Nat.add_assoc]

@[simp] theorem names_settle (b : Builder) (index : LineIndex) (offset : Nat)
    (outline : Outline) : (b.settle index offset outline).names = b.names :=
  names_advance b _ _ _

theorem settle_single (b : Builder) (index : LineIndex) (offset : Nat) (piece : Piece)
    (next : Outline) :
    b.settle index offset (.single piece next) =
      (b.settle index offset (.single piece .nil)).settle index (offset + piece.width) next := by
  have node := Piece.kindAt?_isNone index offset piece
  simp only [settle, advance_advance, parentId_advance, nextId_advance]
  cases kind : piece.kindAt? index offset <;>
    simp_all [Outline.forest, Outline.count, Outline.strays, Forest.trees]

theorem settle_element (b : Builder) (index : LineIndex) (offset : Nat) (tag : OpenTag)
    (inside : Outline) (close : Option ClosingTag) (next : Outline) :
    b.settle index offset (.element tag inside close next) =
      (b.settle index offset (.element tag inside close .nil)).settle index
        (offset + (Outline.element tag inside close .nil).width) next := by
  simp [settle, advance_advance, Outline.forest, Outline.count, Outline.strays, Forest.trees,
    Nat.add_assoc]

theorem finishUnclosed_succ (b : Builder) (index : LineIndex) (count : Nat) :
    b.finishUnclosed index (count + 1) =
      (b.finishUnclosed index count).finishInnermost index none := by
  induction count generalizing b with
  | zero => rfl
  | succ count ih => exact ih (b.finishInnermost index none)

theorem isVoid_eq (b : Builder) (name : Text) : b.isVoid name = isVoidIn b.names name := by
  simp [isVoid, isVoidIn, isForeign, isForeignIn, names, List.any_map, Function.comp_def]

/-- The located pieces that building comes to one by one: all but the closing tags that are read
together with the void element before them. -/
def rounds (b : Builder) (index : LineIndex) : List (Nat × Piece) → List (Nat × Piece)
  | [] => []
  | [(offset, piece)] => [(offset, piece)]
  | (offset, piece) :: (stop, next) :: others =>
    match b.voidClose? piece next with
    | some (written, closing) =>
      let close := index.tokenAt stop closing
      let closed := b.addLeaf index ⟨offset, close.span.stop⟩
        (.element (index.tagAt offset written (some close)))
      (offset, piece) :: closed.rounds index others
    | none => (offset, piece) :: (b.add index offset piece).rounds index ((stop, next) :: others)

/-- Whether building from `b` over the pieces `located` comes to the pieces `met` and then stands
at `left` as `c`. -/
def Leads (index : LineIndex) (b : Builder) (located met : List (Nat × Piece)) (c : Builder)
    (left : List (Nat × Piece)) : Prop :=
  b.addAll index located = c.addAll index left ∧
    b.rounds index located = met ++ c.rounds index left

namespace Leads

variable {index : LineIndex} {b c d : Builder} {located middle left : List (Nat × Piece)}
  {met more : List (Nat × Piece)}

theorem refl (index : LineIndex) (b : Builder) (located : List (Nat × Piece)) :
    Leads index b located [] b located :=
  ⟨rfl, rfl⟩

theorem trans (first : Leads index b located met c middle)
    (second : Leads index c middle more d left) : Leads index b located (met ++ more) d left := by
  constructor
  · rw [first.1, second.1]
  · rw [first.2, second.2, List.append_assoc]

end Leads

/-- Pieces after the first one are read where it leaves off, unless it is a void element and they
begin with its closing tag. -/
theorem leads_cons (b : Builder) (index : LineIndex) (offset : Nat) (piece : Piece)
    (others : List Piece) (apart : ∀ next ∈ others.head?, b.voidClose? piece next = none) :
    Leads index b (Piece.locate offset (piece :: others)) [(offset, piece)]
      (b.add index offset piece) (Piece.locate (offset + piece.width) others) := by
  cases others with
  | nil => exact ⟨rfl, rfl⟩
  | cons next others =>
    constructor
    · simp only [Piece.locate, addAll, apart next rfl]
    · simp only [Piece.locate, rounds, apart next rfl]
      rfl

theorem addLeaf_eq (b : Builder) (index : LineIndex) (span : Span) (kind : Kind) :
    b.addLeaf index span kind =
      b.advance [⟨⟨b.nextId, some b.parentId, span, index.extent span, kind⟩, .nil⟩] 1 [] := by
  cases b with
  | mk _ waiting _ _ => cases waiting <;> rfl

theorem finishInnermost_eq (b : Builder) (index : LineIndex) (close : Option Token)
    (element : OpenElement) (outer : List OpenElement) (inside : b.waiting = element :: outer) :
    b.finishInnermost index close =
      ({ b with waiting := outer } : Builder).advance [element.finish index close] 0 [] := by
  cases b with
  | mk _ waiting _ _ => cases outer <;> simp_all [finishInnermost, advance, placeAll, place]

/-- A piece that stands alone is settled when it is added. -/
theorem add_single (b : Builder) (index : LineIndex) (offset : Nat) (piece : Piece)
    (next : Option Piece) (stands : piece.StandsAlone b.names next) :
    b.add index offset piece = b.settle index offset (.single piece .nil) := by
  match piece, stands with
  | .text _, _ | .comment _ _, _ | .doctype _ _, _ | .raw _ _, _ => exact addLeaf_eq ..
  | .closing name tail isClosed, stray =>
    -- The closing tag is no name of a waiting element, and is dropped.
    have nowhere : (b.waiting.findIdx? fun element => Text.sameName element.tag.name name) =
        none := by
      rw [List.findIdx?_eq_none_iff]
      intro element member
      exact stray element.tag.name (List.mem_map.2 ⟨element, member, rfl⟩)
    simp only [add, close, nowhere]
    rfl
  | .opening tag, ⟨waits, _⟩ =>
    have still : (tag.isSelfClosing || b.isVoid tag.name) = true := by
      rw [isVoid_eq, ← Bool.not_eq_false', ← OpenTag.waitsIn, waits]
    simp only [add, still, if_true]
    exact addLeaf_eq ..

theorem add_waiting (b : Builder) (index : LineIndex) (offset : Nat) (tag : OpenTag)
    (waits : tag.waitsIn b.names = true) :
    b.add index offset (.opening tag) = b.addOpen (index.tagAt offset tag none) := by
  have open_ : (tag.isSelfClosing || b.isVoid tag.name) = false := by
    rw [isVoid_eq]
    simpa [OpenTag.waitsIn] using waits
  simp only [add, open_]
  rfl

theorem settle_addOpen (b : Builder) (index : LineIndex) (offset : Nat) (tag : Tag)
    (inside : Outline) :
    (b.addOpen tag).settle index offset inside =
      { b with
        nextId := b.nextId + 1 + inside.count
        waiting := ⟨b.nextId, b.parentId, tag,
          (inside.forest index b.nextId (b.nextId + 1) offset).trees.reverse⟩ :: b.waiting
        strays := (inside.strays offset).reverse ++ b.strays } := by
  rw [settle, advance, placeAll_waiting (b.addOpen tag) _ b.waiting rfl]
  simp [addOpen, parentId]

theorem finishInnermost_settle (b : Builder) (index : LineIndex) (offset : Nat) (tag : OpenTag)
    (inside : Outline) (close : Option ClosingTag) :
    ((b.addOpen (index.tagAt offset tag none)).settle index (offset + tag.render.byteLength)
        inside).finishInnermost index (close.map fun close =>
          index.tokenAt (offset + tag.render.byteLength + inside.width) close.piece.render) =
      b.settle index offset (.element tag inside close .nil) := by
  have opened := settle_addOpen b index (offset + tag.render.byteLength)
    (index.tagAt offset tag none) inside
  rw [finishInnermost_eq _ index _ _ b.waiting (by rw [opened]), opened]
  have before : ({ b with
      nextId := b.nextId + 1 + inside.count
      strays := (inside.strays (offset + tag.render.byteLength)).reverse ++ b.strays } : Builder) =
      b.advance [] (inside.count + 1) (inside.strays (offset + tag.render.byteLength)) := by
    simp [advance, placeAll, Nat.add_assoc, Nat.add_comm 1]
  simp only at before ⊢
  rw [before, advance_advance]
  simp [settle, Outline.forest, Outline.count, Outline.strays, Forest.trees]

end Builder

/-! ### Which closing tag closes what -/

/-- Names of elements that can wait inside each other: none is that of a void element, unless one
of them is that of the root of a foreign subtree. -/
def CanWait (outer : List Text) : Prop :=
  isForeignIn outer = false → ∀ name ∈ outer, isVoidName name = false

theorem CanWait.cons {outer : List Text} {tag : OpenTag} (can : CanWait outer)
    (waits : tag.waitsIn outer = true) : CanWait (tag.name :: outer) := by
  intro plain name member
  simp only [isForeignIn, List.any_cons, Bool.or_eq_false_iff] at plain
  rcases List.mem_cons.1 member with rfl | further
  · simp only [OpenTag.waitsIn, isVoidIn, isForeignIn, plain.2] at waits
    simpa using (by simpa using waits : _ ∧ _).2
  · exact can plain.2 name further

theorem isVoidName_congr {s t : Text} (same : Text.sameName s t = true) :
    isVoidName s = isVoidName t := by
  have alike : Text.sameName s = Text.sameName t := by
    simp only [Text.sameName, beq_iff_eq] at same
    funext other
    simp [Text.sameName, same]
  simp [isVoidName, Text.isNamedIn, alike]

/-- Whether `pieces` go on, after an outline inside the elements named `outer`, with a closing tag
of one of those elements, if they go on at all. -/
def GoesOn (outer : List Text) (pieces : List Piece) : Prop :=
  ∀ piece ∈ pieces.head?, ∃ close : ClosingTag, piece = close.piece ∧
    ∃ name ∈ outer, Text.sameName name close.name = true

/-- No void element is closed by the closing tag of an element around it. -/
theorem voidClose?_eq_none (b : Builder) (can : CanWait b.names) (piece : Piece)
    (next : Piece) (on : ∃ close : ClosingTag, next = close.piece ∧
      ∃ name ∈ b.names, Text.sameName name close.name = true) :
    b.voidClose? piece next = none := by
  obtain ⟨close, rfl, name, member, same⟩ := on
  match piece with
  | .text _ | .comment _ _ | .doctype _ _ | .raw _ _ | .closing _ _ _ => rfl
  | .opening tag =>
    simp only [Builder.voidClose?, ClosingTag.piece, Builder.isVoid_eq]
    by_cases void : isVoidIn b.names tag.name = true
    · simp only [isVoidIn, Bool.and_eq_true, Bool.not_eq_true'] at void
      -- Were the names the same, a void element would wait outside of all foreign subtrees.
      have other : Text.sameName close.name tag.name = false := by
        rw [Bool.eq_false_iff]
        intro named
        have := can void.1 name member
        rw [isVoidName_congr same, isVoidName_congr named, void.2] at this
        simp at this
      simp [other]
    · simp [Bool.eq_false_iff.2 void]

theorem voidClose?_opening (b : Builder) (tag : OpenTag) (next : Piece)
    (apart : tag.isSelfClosing = false → next.closesVoid tag = false) :
    b.voidClose? (.opening tag) next = none := by
  match next, apart with
  | .text _, _ | .comment _ _, _ | .doctype _ _, _ | .raw _ _, _ | .opening _, _ => rfl
  | .closing name tail isClosed, apart =>
    simp only [Builder.voidClose?, Piece.closesVoid] at apart ⊢
    cases plain : tag.isSelfClosing <;> simp_all

theorem leads_waiting (index : LineIndex) (b : Builder) (tag : OpenTag)
    (waits : tag.waitsIn b.names = true) (offset : Nat) (others : List Piece) :
    Builder.Leads index b (Piece.locate offset (.opening tag :: others)) [(offset, .opening tag)]
      (b.addOpen (index.tagAt offset tag none))
      (Piece.locate (offset + tag.render.byteLength) others) := by
  rw [← Builder.add_waiting b index offset tag waits]
  refine Builder.leads_cons b index offset (.opening tag) others ?_
  intro next _
  match next with
  | .text _ | .comment _ _ | .doctype _ _ | .raw _ _ | .opening _ => rfl
  | .closing name tail isClosed =>
    simp only [Builder.voidClose?, Builder.isVoid_eq]
    cases void : isVoidIn b.names tag.name <;> simp_all [OpenTag.waitsIn]

/-- A void element is read together with the closing tag that is written right after it. -/
theorem leads_void (index : LineIndex) (b : Builder) (tag : OpenTag) (close : ClosingTag)
    (plain : tag.isSelfClosing = false) (void : isVoidIn b.names tag.name = true)
    (fits : close.piece.closesVoid tag = true) (offset : Nat) (others : List Piece) :
    Builder.Leads index b (Piece.locate offset (.opening tag :: close.piece :: others))
      [(offset, .opening tag)]
      (b.settle index offset (.element tag .nil (some close) .nil))
      (Piece.locate (offset + tag.render.byteLength + Outline.nil.width + close.piece.width)
        others) := by
  have found : b.voidClose? (.opening tag) close.piece = some (tag, close.piece.render) := by
    simp only [Piece.closesVoid, ClosingTag.piece, Bool.and_eq_true] at fits
    simp [Builder.voidClose?, ClosingTag.piece, Builder.isVoid_eq, void, plain, fits]
  constructor
  · simp only [Piece.locate, Builder.addAll, found, Builder.addLeaf_eq]
    rfl
  · simp only [Piece.locate, Builder.rounds, found, Builder.addLeaf_eq]
    rfl

/-- A closing tag finds the element of its name below those that do not have it. -/
theorem close_found (index : LineIndex) (b : Builder) (name : Text) (token : Token)
    (above : List Text) (found : Text) (below : List Text)
    (names : b.names = above ++ found :: below) (same : Text.sameName found name = true)
    (apart : ∀ other ∈ above, Text.sameName other name = false) :
    b.close index name token =
      (b.finishUnclosed index above.length).finishInnermost index (some token) := by
  -- The index of the element is the number of elements above it, which are finished first.
  have depth : (b.waiting.findIdx? fun element => Text.sameName element.tag.name name) =
      some above.length := by
    have mapped : b.names.findIdx? (fun other => Text.sameName other name) =
        b.waiting.findIdx? fun element => Text.sameName element.tag.name name := by
      rw [Builder.names, List.findIdx?_map]
      rfl
    rw [← mapped, names, List.findIdx?_append]
    have none_above : above.findIdx? (fun other => Text.sameName other name) = none := by
      rw [List.findIdx?_eq_none_iff]
      exact apart
    simp [none_above, List.findIdx?_cons, same]
  simp only [Builder.close, depth]

/-- An element that waits while its content is read is settled by its closing tag. -/
theorem leads_closed (index : LineIndex) (b c : Builder) (tag : OpenTag) (content : Outline)
    (close : ClosingTag) (waits : tag.waitsIn b.names = true)
    (same : Text.sameName tag.name close.name = true)
    (apart : ∀ other ∈ content.unclosed, Text.sameName other close.name = false) (offset : Nat)
    (others : List Piece) (met : List (Nat × Piece))
    (read : Builder.Leads index (b.addOpen (index.tagAt offset tag none))
      (Piece.locate (offset + tag.render.byteLength) (content.pieces ++ close.piece :: others)) met
      c (Piece.locate (offset + tag.render.byteLength + content.width) (close.piece :: others)))
    (names : c.names = content.unclosed ++ tag.name :: b.names)
    (finished : c.finishUnclosed index content.unclosed.length =
      (b.addOpen (index.tagAt offset tag none)).settle index
        (offset + tag.render.byteLength) content) :
    Builder.Leads index b
      (Piece.locate offset (.opening tag :: (content.pieces ++ close.piece :: others)))
      ((offset, .opening tag) :: (met ++
        [(offset + tag.render.byteLength + content.width, close.piece)]))
      (b.settle index offset (.element tag content (some close) .nil))
      (Piece.locate (offset + tag.render.byteLength + content.width + close.piece.width)
        others) := by
  let stop := offset + tag.render.byteLength + content.width
  -- Those that the content leaves open are finished first; the element is the next one down.
  have found := close_found index c close.name (index.tokenAt stop close.piece.render)
    content.unclosed tag.name b.names names same apart
  rw [finished] at found
  have settled : c.add index stop close.piece =
      b.settle index offset (.element tag content (some close) .nil) := by
    rw [← Builder.finishInnermost_settle]
    exact found
  have opened := leads_waiting index b tag waits offset (content.pieces ++ close.piece :: others)
  have closed := Builder.leads_cons c index stop close.piece others fun _ _ => rfl
  rw [settled] at closed
  exact opened.trans (read.trans closed)

namespace Outline

/-- The pieces of an outline that building comes to one by one, inside the elements named
`outer`. -/
def rounds (outer : List Text) (offset : Nat) : Outline → List (Nat × Piece)
  | nil => []
  | single piece next => (offset, piece) :: next.rounds outer (offset + piece.width)
  | element tag inside close next =>
    let within := offset + tag.render.byteLength
    let closing := if tag.waitsIn outer then
      close.toList.map fun close => (within + inside.width, close.piece) else []
    (offset, .opening tag) :: (inside.rounds (tag.name :: outer) within ++ closing ++
      next.rounds outer
        (within + inside.width + (close.map fun close => close.piece.width).getD 0))

end Outline

/-- The pieces of a nested outline are read as the outline says: the elements it leaves open wait
on top, and once they are finished everything in the outline is settled. -/
theorem leads_outline (index : LineIndex) {outer : List Text} {outline : Outline}
    (nested : outline.Nested outer) (can : CanWait outer) (b : Builder) (inside : b.names = outer)
    (offset : Nat) (more : List Piece) (on : GoesOn outer more) :
    ∃ c : Builder,
      Builder.Leads index b (Piece.locate offset (outline.pieces ++ more))
        (outline.rounds outer offset) c (Piece.locate (offset + outline.width) more) ∧
      c.names = outline.unclosed ++ outer ∧
      c.finishUnclosed index outline.unclosed.length = b.settle index offset outline := by
  -- The induction is for every builder inside `outer`, since content is read by another one.
  induction outline generalizing outer b offset more with
  | nil => exact ⟨b, Builder.Leads.refl .., inside, rfl⟩
  | single piece next ih =>
    obtain ⟨stands, nested⟩ := nested
    subst inside
    -- The piece takes nothing of what follows it, be that in the outline or after it.
    have apart : ∀ follower ∈ (next.pieces ++ more).head?, b.voidClose? piece follower = none := by
      intro follower first
      cases shown : next.pieces with
      | nil =>
        exact voidClose?_eq_none b can piece follower (on follower (by simpa [shown] using first))
      | cons p others =>
        match piece, stands with
        | .text _, _ | .comment _ _, _ | .doctype _ _, _ | .raw _ _, _ | .closing _ _ _, _ => rfl
        | .opening tag, ⟨_, alone⟩ =>
          exact voidClose?_opening b tag follower fun plain =>
            alone plain follower (by simpa [shown] using first)
    have first := Builder.leads_cons b index offset piece (next.pieces ++ more) apart
    rw [Builder.add_single b index offset piece _ stands] at first
    obtain ⟨c, read, names, finished⟩ :=
      ih nested can (b.settle index offset (.single piece .nil)) (by simp) (offset + piece.width)
        more on
    refine ⟨c, ?_, names, ?_⟩
    · rw [Outline.pieces_single, List.cons_append, Outline.width_single, ← Nat.add_assoc]
      exact first.trans read
    · rw [Outline.unclosed, finished, ← Builder.settle_single]
  | element tag content close next ihContent ihNext =>
    subst inside
    let within := offset + tag.render.byteLength
    let opened := b.addOpen (index.tagAt offset tag none)
    cases close with
    | none =>
      obtain ⟨waits, nested, rfl⟩ := nested
      -- What closes an element around `tag` closes one around its content.
      have further : GoesOn (tag.name :: b.names) more := by
        intro piece first
        obtain ⟨close, same, name, member, named⟩ := on piece first
        exact ⟨close, same, name, List.mem_cons_of_mem _ member, named⟩
      obtain ⟨c, read, names, finished⟩ :=
        ihContent nested (can.cons waits) opened rfl within more further
      refine ⟨c, ?_, by simp [names, Outline.unclosed], ?_⟩
      · have through := (leads_waiting index b tag waits offset (content.pieces ++ more)).trans read
        simpa [within, Outline.rounds, Nat.add_assoc] using through
      · rw [Outline.unclosed, List.length_append, List.length_singleton,
          Builder.finishUnclosed_succ, finished]
        exact Builder.finishInnermost_settle b index offset tag content none
    | some close =>
      obtain ⟨nestedContent, closes, nestedNext⟩ := nested
      let own := Outline.element tag content (some close) .nil
      -- Whichever way it is closed, the element is settled before what comes after it is read.
      have settled : Builder.Leads index b
          (Piece.locate offset ((Outline.element tag content (some close) next).pieces ++ more))
          (own.rounds b.names offset) (b.settle index offset own)
          (Piece.locate (within + content.width + close.piece.width) (next.pieces ++ more)) := by
        rcases closes with ⟨waits, same, apart⟩ | ⟨plain, void, rfl, fits⟩
        · have goesOn : GoesOn (tag.name :: b.names)
              (close.piece :: (next.pieces ++ more)) := by
            rintro _ ⟨⟩
            exact ⟨close, rfl, tag.name, List.mem_cons_self, same⟩
          obtain ⟨c, read, names, finished⟩ := ihContent nestedContent (can.cons waits) opened rfl
            within (close.piece :: (next.pieces ++ more)) goesOn
          have through := leads_closed index b c tag content close waits same apart offset _ _ read
            names finished
          simpa [own, within, Outline.rounds, waits] using through
        · have through := leads_void index b tag close plain void fits offset (next.pieces ++ more)
          have stands : tag.waitsIn b.names = false := by simp [OpenTag.waitsIn, void]
          simpa [own, within, Outline.rounds, stands] using through
      obtain ⟨c, read, names, finished⟩ := ihNext nestedNext can (b.settle index offset own)
        (by simp) (within + content.width + close.piece.width) more on
      refine ⟨c, ?_, names, ?_⟩
      · have through := settled.trans read
        simpa [own, within, Outline.rounds, Nat.add_assoc] using through
      · rw [Outline.unclosed, finished, Builder.settle_element b index offset tag content _ next]
        simp [own, within, Nat.add_assoc]

/-! ### The document of an outline -/

namespace Document

/-- The document of a source that has the given outline. -/
def ofOutline (source : Text) (outline : Outline) : Document :=
  let index := LineIndex.ofText source
  let span : Span := ⟨0, source.byteLength⟩
  { source := source
    root := ⟨⟨0, none, span, index.extent span, .document⟩, outline.forest index 0 1 0⟩
    strays := outline.strays 0 }

/-- The pieces that parsing comes to one by one: all but the closing tags that are read together
with the void element before them. -/
def rounds (pairs : List Delimiters) (source : Text) : List (Nat × Piece) :=
  Builder.empty.rounds (LineIndex.ofText source) (Piece.locate 0 (Piece.scanAll pairs source))

theorem leads_scanAll (pairs : List Delimiters) (source : Text) {outline : Outline}
    (covers : outline.pieces = Piece.scanAll pairs source) (nested : outline.Nested []) :
    ∃ c : Builder,
      Builder.Leads (LineIndex.ofText source) Builder.empty
        (Piece.locate 0 (Piece.scanAll pairs source)) (outline.rounds [] 0) c [] ∧
      c.names = outline.unclosed ∧
      c.finishUnclosed (LineIndex.ofText source) outline.unclosed.length =
        Builder.empty.settle (LineIndex.ofText source) 0 outline := by
  obtain ⟨c, read, names, finished⟩ := leads_outline (LineIndex.ofText source) nested
    (fun _ _ member => absurd member List.not_mem_nil) Builder.empty rfl 0 []
    (fun _ first => absurd first (by simp))
  rw [List.append_nil, covers] at read
  exact ⟨c, read, by simpa using names, finished⟩

theorem rounds_eq (pairs : List Delimiters) (source : Text) {outline : Outline}
    (covers : outline.pieces = Piece.scanAll pairs source) (nested : outline.Nested []) :
    rounds pairs source = outline.rounds [] 0 := by
  obtain ⟨c, read, _, _⟩ := leads_scanAll pairs source covers nested
  simpa [rounds, Builder.rounds] using read.2

/-- Parsing builds the document of any nested outline of the pieces. -/
theorem parse_eq_ofOutline (pairs : List Delimiters) (source : Text) {outline : Outline}
    (covers : outline.pieces = Piece.scanAll pairs source) (nested : outline.Nested []) :
    parse pairs source = ofOutline source outline := by
  obtain ⟨c, read, names, finished⟩ := leads_scanAll pairs source covers nested
  -- At the end of the source just the elements that the outline leaves open still wait.
  have waiting : c.waiting.length = outline.unclosed.length := by
    simpa [Builder.names] using congrArg List.length names
  have built : Builder.empty.addAll (LineIndex.ofText source)
      (Piece.locate 0 (Piece.scanAll pairs source)) = c := by
    rw [read.1]
    rfl
  have placed := Builder.placeAll_outside Builder.empty rfl
    (outline.forest (LineIndex.ofText source) 0 1 0).trees
  simp only [parse, built, waiting, finished, Builder.settle, Builder.advance, ofOutline]
  rw [show Builder.empty.parentId = 0 from rfl, show Builder.empty.nextId = 1 from rfl, placed]
  simp [Builder.empty]

/-- Every source has a nested outline of its pieces, and parsing builds its document. -/
theorem exists_outline (pairs : List Delimiters) (source : Text) :
    ∃ outline : Outline, outline.pieces = Piece.scanAll pairs source ∧ outline.Nested [] ∧
      parse pairs source = ofOutline source outline := by
  obtain ⟨outline, covers, nested⟩ := Outline.exists_nested (Piece.scanAll pairs source)
  exact ⟨outline, covers, nested, parse_eq_ofOutline pairs source covers nested⟩

end Document
end TagLint
