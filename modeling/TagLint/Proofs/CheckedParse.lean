import TagLint.Proofs.ScannedTags

/-!
Parsing with every access checked.

`Document.parse?` reads the bytes of a source. It fails where a slice is cut outside of the source
or inside a character, where a span would stop before it starts, and where a loop does not move
ahead. Each turn adds one piece, or two where a void element is closed right away, and leaves the
elements that wait the right way round and behind the place; so it never fails, and comes to the
document.
-/
namespace TagLint

open Written (Piece OpenTag RawBody Construct isNameEnd scanBracket splitBefore)

/-! ### A builder that checks its spans -/

/-- The finished element, if it does not end before it starts. -/
def OpenElement.finish? (element : OpenElement) (index : LineIndex) (close : Option Token) :
    Option Tree :=
  let tree := element.finish index close
  (Span.ofEnds? tree.node.span.start tree.node.span.stop).map fun _ => tree

namespace Builder

def finishInnermost? (b : Builder) (index : LineIndex) (close : Option Token) : Option Builder :=
  match b.waiting with
  | [] => some b
  | element :: outer => (element.finish? index close).map { b with waiting := outer }.place

def finishUnclosed? (b : Builder) (index : LineIndex) : Nat → Option Builder
  | 0 => some b
  | count + 1 => do (← b.finishInnermost? index none).finishUnclosed? index count

def close? (b : Builder) (index : LineIndex) (name : Text) (token : Token) : Option Builder :=
  match b.waiting.findIdx? fun element => Text.sameName element.tag.name name with
  | none => some { b with strays := ⟨name, token.span⟩ :: b.strays }
  | some depth => do (← b.finishUnclosed? index depth).finishInnermost? index (some token)

/-- Whether no tag that waits for its closing tag is the wrong way round or ends after the place. -/
def IsSound (b : Builder) (place : Nat) : Prop :=
  ∀ element ∈ b.waiting, element.tag.openStart.span.start ≤ element.tag.openEnd.span.stop ∧
    element.tag.openEnd.span.stop ≤ place

end Builder

namespace Scanner

variable (s : Scanner)

/-- Where the next `needle` starts and stops, or the end of the source. -/
def ending? (needle : Text) (start : Nat) : Option (Nat × Nat) := do
  match ← Bytes.search? (· == ·) s.bytes needle.bytes start with
  | some place => return (place, place + needle.bytes.length)
  | none => return (s.size, s.size)

def leaf? (b : Builder) (start stop : Nat) (kind : Kind) : Option (Builder × Nat) :=
  (Span.ofEnds? start stop).map fun span => (b.addLeaf s.index span kind, stop)

def text? (b : Builder) (start : Nat) : Option (Builder × Nat) := do
  let stop ← s.textEnd? start
  let content ← s.content? start stop
  s.leaf? b start stop (.text content)

def comment? (b : Builder) (start : Nat) : Option (Builder × Nat) := do
  let (bodyEnd, stop) ← s.ending? "-->".toList (start + 4)
  let content ← s.content? (start + 4) bodyEnd
  s.leaf? b start stop (.comment content)

def doctype? (b : Builder) (start : Nat) : Option (Builder × Nat) := do
  let (bodyEnd, stop) ← s.ending? ['>'] start
  let content ← s.content? (start + 2) bodyEnd
  s.leaf? b start stop (.doctype content)

def closing? (b : Builder) (start : Nat) : Option (Builder × Nat) := do
  let (name, nameStop) ← s.name? (start + 2)
  let (_, stop) ← s.ending? ['>'] nameStop
  let token ← s.token? start stop
  let b ← b.close? s.index name token
  return (b, stop)

/-- The content of the raw element `name`, its closing tag, and the place after them. -/
def rawBody? (name : Text) (start : Nat) : Option (Content × Option Token × Nat) := do
  match ← Bytes.search? Bytes.sameName s.bytes (Text.bytes ('<' :: '/' :: name)) start with
  | some place =>
    let (_, stop) ← s.ending? ['>'] place
    let content ← s.content? start place
    let close ← s.token? place stop
    return (content, some close, stop)
  | none =>
    let content ← s.content? start s.size
    return (content, none, s.size)

/-- What comes after the opening tag of a raw element, which is nothing if that closes itself. -/
def rawTail? (tag : Tag) (tagStop : Nat) : Option (Option Content × Option Token × Nat) :=
  if tag.isSelfClosing then some (none, none, tagStop)
  else (s.rawBody? tag.name tagStop).map fun body => (some body.1, body.2)

def raw? (b : Builder) (tag : Tag) (start tagStop : Nat) : Option (Builder × Nat) := do
  let (content, close, stop) ← s.rawTail? tag tagStop
  let tag := { tag with close := close }
  s.leaf? b start stop
    (if Text.sameName tag.name "script".toList then .script tag content else .style tag content)

/-- The closing tag of the void element `name`, if it is written at the place. -/
def voidClose? (name : Text) (start : Nat) : Option (Option Token) := do
  if s.isNamedAt name (start + 2) && (← s.standsAt? "</".toList start) then
    let stop := s.passing isMarkupSpace (start + 2 + name.bytes.length)
    if s.isAt (· == '>') stop then (s.token? start (stop + 1)).map some else return none
  else return none

/-- The closing tag that is written right after the opening tag of a void element. -/
def tagClose? (b : Builder) (tag : Tag) (tagStop : Nat) : Option (Option Token) :=
  if b.isVoid tag.name && !tag.isSelfClosing then s.voidClose? tag.name tagStop else some none

/-- Adds an element that is not raw. -/
def element? (b : Builder) (tag : Tag) (start tagStop : Nat) : Option (Builder × Nat) := do
  let close ← s.tagClose? b tag tagStop
  let stop := (close.map fun token => token.span.stop).getD tagStop
  let tag := { tag with close := close }
  if tag.isSelfClosing || b.isVoid tag.name then s.leaf? b start stop (.element tag)
  else (Span.ofEnds? start stop).map fun _ => (b.addOpen tag, stop)

def opening? (b : Builder) (start : Nat) : Option (Builder × Nat) := do
  let (tag, tagStop) ← s.openTag? start
  let _ ← Span.ofEnds? start tagStop
  if Text.sameName tag.name "script".toList || Text.sameName tag.name "style".toList then
    s.raw? b tag start tagStop
  else s.element? b tag start tagStop

/-- Adds the piece that begins at the place. -/
def piece? (b : Builder) (start : Nat) : Option (Builder × Nat) := do
  match ← s.construct? start with
  | some .comment => s.comment? b start
  | some .doctype => s.doctype? b start
  | some .closing => s.closing? b start
  | some .opening => s.opening? b start
  | none => s.text? b start

def turn? (state : Builder × Nat) : Option (Turn (Builder × Nat) Builder) :=
  if s.size ≤ state.2 then some (.leave state.1) else (s.piece? state.1 state.2).map .next

end Scanner

/-- The document that a source is, read from its bytes with every access checked. -/
def Document.parse? (pairs : List Delimiters) (source : Text) : Option Document := do
  let s : Scanner := ⟨pairs, source⟩
  let span ← Span.ofEnds? 0 s.size
  let read ← loop? Prod.snd s.size s.turn? (Builder.empty, 0)
  let built ← read.finishUnclosed? s.index read.waiting.length
  return {
    source := source
    root :=
      { node := ⟨0, none, span, s.index.extent span, .document⟩
        inside := Forest.ofTrees built.finished.reverse }
    strays := built.strays.reverse }

/-! ### What waits -/

namespace Builder

variable {b : Builder} {index : LineIndex} {place : Nat}

theorem waiting_place (b : Builder) (tree : Tree) :
    (b.place tree).waiting.map OpenElement.tag = b.waiting.map OpenElement.tag := by
  unfold Builder.place
  split <;> simp [*]

theorem waiting_finishInnermost (b : Builder) (index : LineIndex) (close : Option Token) :
    (b.finishInnermost index close).waiting.map OpenElement.tag =
      (b.waiting.map OpenElement.tag).tail := by
  unfold finishInnermost
  split
  next none_ => simp [none_]
  next element outer shown => simp [waiting_place, shown]

theorem isSound_iff : b.IsSound place ↔ ∀ tag ∈ b.waiting.map OpenElement.tag,
    tag.openStart.span.start ≤ tag.openEnd.span.stop ∧ tag.openEnd.span.stop ≤ place := by
  simp [IsSound]

theorem isSound_empty : empty.IsSound 0 := by
  simp [IsSound, empty]

namespace IsSound

theorem mono {further : Nat} (sound : b.IsSound place) (after : place ≤ further) :
    b.IsSound further := fun element member =>
  ⟨(sound element member).1, Nat.le_trans (sound element member).2 after⟩

/-- Finishing leaves only elements that waited before. -/
theorem finishInnermost (sound : b.IsSound place) (index : LineIndex) (close : Option Token) :
    (b.finishInnermost index close).IsSound place := by
  rw [isSound_iff] at sound ⊢
  rw [waiting_finishInnermost]
  exact fun tag member => sound tag (List.mem_of_mem_tail member)

theorem addLeaf (sound : b.IsSound place) (index : LineIndex) (span : Span) (kind : Kind) :
    (b.addLeaf index span kind).IsSound place := by
  rw [isSound_iff] at sound ⊢
  rwa [Builder.addLeaf, waiting_place]

theorem finishInnermost? (sound : b.IsSound place) (index : LineIndex) {close : Option Token}
    (after : ∀ token ∈ close, place ≤ token.span.stop) :
    b.finishInnermost? index close = some (b.finishInnermost index close) := by
  cases shown : b.waiting with
  | nil => simp [Builder.finishInnermost?, Builder.finishInnermost, shown]
  | cons element outer =>
    obtain ⟨ordered, bound⟩ := sound element (by simp [shown])
    -- An element stops no earlier than its own opening tag, with a closing tag or without.
    have forward : (element.finish index close).node.span.start ≤
        (element.finish index close).node.span.stop := by
      cases close with
      | none =>
        refine Nat.le_trans ordered ?_
        simp only [OpenElement.finish, OpenElement.unclosedStop]
        split
        · exact Nat.le_refl _
        · exact Nat.le_max_left _ _
      | some token => exact Nat.le_trans ordered (Nat.le_trans bound (after token rfl))
    simp [Builder.finishInnermost?, Builder.finishInnermost, shown, OpenElement.finish?,
      Span.ofEnds?, forward]

theorem finishUnclosed (sound : b.IsSound place) (index : LineIndex) (count : Nat) :
    (b.finishUnclosed index count).IsSound place := by
  induction count generalizing b with
  | zero => exact sound
  | succ count ih => exact ih (sound.finishInnermost index none)

theorem finishUnclosed? (sound : b.IsSound place) (index : LineIndex) (count : Nat) :
    b.finishUnclosed? index count = some (b.finishUnclosed index count) := by
  induction count generalizing b with
  | zero => rfl
  | succ count ih =>
    rw [Builder.finishUnclosed?, sound.finishInnermost? index (by simp)]
    exact ih (sound.finishInnermost index none)

theorem close? (sound : b.IsSound place) (index : LineIndex) (name : Text) {token : Token}
    (after : place ≤ token.span.stop) :
    b.close? index name token = some (b.close index name token) := by
  unfold Builder.close? Builder.close
  cases b.waiting.findIdx? fun element => Text.sameName element.tag.name name with
  | none => rfl
  | some depth =>
    have closes : (b.finishUnclosed index depth).finishInnermost? index (some token) = _ :=
      (sound.finishUnclosed index depth).finishInnermost? index (by simpa using after)
    simp [sound.finishUnclosed?, closes]

theorem close (sound : b.IsSound place) (index : LineIndex) (name : Text) (token : Token) :
    (b.close index name token).IsSound place := by
  unfold Builder.close
  split
  · exact sound
  · exact (sound.finishUnclosed index _).finishInnermost index _

theorem addOpen (sound : b.IsSound place) {tag : Tag}
    (ordered : tag.openStart.span.start ≤ tag.openEnd.span.stop)
    (bound : tag.openEnd.span.stop ≤ place) : (b.addOpen tag).IsSound place := by
  intro element member
  rcases List.mem_cons.1 member with rfl | before
  · exact ⟨ordered, bound⟩
  · exact sound element before

/-- What waits after a piece is sound at its end. -/
theorem add (sound : b.IsSound place) (index : LineIndex) (piece : Piece) :
    (b.add index place piece).IsSound (place + piece.render.byteLength) := by
  have sound := sound.mono (Nat.le_add_right place piece.render.byteLength)
  cases piece with
  | text | comment | doctype | raw => exact sound.addLeaf index _ _
  | closing name tail isClosed => exact sound.close index name _
  | opening written =>
    simp only [Builder.add]
    split
    · exact sound.addLeaf index _ _
    · exact sound.addOpen (by simp) (by simp [Piece.render])

end IsSound
end Builder

/-! ### The closing tag of a void element -/

/-- A text that begins with a closing tag of the element `name`, which has no more than white space
in it and ends with a bracket. -/
structure Text.BeginsClosing (name t own tail rest : Text) : Prop where
  text : t = "</".toList ++ (own ++ (tail ++ ['>'])) ++ rest
  named : Text.sameName own name = true
  blank : ∀ c ∈ tail, isMarkupSpace c = true

theorem Text.forall_of_sameName {p : Char → Bool} (smalls : ∀ c : Char, p c.toLower = p c)
    {a b : Text} (same : Text.sameName a b = true) (holds : ∀ c ∈ b, p c = false) :
    ∀ c ∈ a, p c = false := by
  intro c member
  have lowered : c.toLower ∈ b.lower := by
    rw [← beq_iff_eq.1 same]
    exact List.mem_map_of_mem member
  obtain ⟨d, among, shown⟩ := List.mem_map.1 lowered
  rw [← smalls, ← shown, smalls]
  exact holds d among

theorem Text.isAlpha_toLower (c : Char) : c.toLower.isAlpha = c.isAlpha := by
  rw [Bool.eq_iff_iff, isAlpha_iff, isAlpha_iff, toNat_toLower]
  split <;> omega

theorem Text.startsWithLetter_of_sameName {a b : Text} (same : sameName a b = true)
    (letter : startsWithLetter b = true) : startsWithLetter a = true := by
  have lowered := beq_iff_eq.1 same
  cases b with
  | nil => contradiction
  | cons d b =>
    cases a with
    | nil => simp [lower] at lowered
    | cons c a =>
      have first : c.toLower = d.toLower := (List.cons.inj lowered).1
      rw [startsWithLetter, ← isAlpha_toLower, first, isAlpha_toLower]
      exact letter

/-- A name that follows a bracket begins with the letter there. -/
theorem Text.startsWithLetter_takeWhile {t : Text} (letter : startsWithLetter t = true) :
    startsWithLetter (t.takeWhile fun c => !isNameEnd c) = true := by
  cases t with
  | nil => contradiction
  | cons c t =>
    have plain : isNameEnd c = false := Piece.isNameEnd_of_isAlpha letter
    simpa [plain, startsWithLetter] using letter

theorem Written.isNameEnd_toLower (c : Char) : isNameEnd c.toLower = isNameEnd c := by
  by_cases letter : c.isAlpha = true
  · rw [Piece.isNameEnd_of_isAlpha letter,
      Piece.isNameEnd_of_isAlpha ((Text.isAlpha_toLower c).trans letter)]
  · have same : c.toLower = c := by
      refine Char.toNat_inj.1 ((Text.toNat_toLower c).trans (if_neg fun capital => letter ?_))
      exact (Text.isAlpha_iff c).2 (Or.inl capital)
    rw [same]

theorem Written.Piece.scan_beginsClosing (pairs : List Delimiters) {name t own tail rest : Text}
    (begins : Text.BeginsClosing name t own tail rest) (letter : Text.startsWithLetter name = true)
    (runs : ∀ c ∈ name, isNameEnd c = false) :
    Piece.scan pairs t = (.closing own tail true, rest) := by
  obtain ⟨rfl, named, blank⟩ := begins
  have plain := Text.forall_of_sameName isNameEnd_toLower named runs
  have begins := Text.startsWithLetter_append
    (Text.startsWithLetter_of_sameName named letter) (tail ++ '>' :: rest)
  have spans : (own ++ (tail ++ '>' :: rest)).takeWhile (fun c => !isNameEnd c) = own ∧
      (own ++ (tail ++ '>' :: rest)).dropWhile (fun c => !isNameEnd c) = tail ++ '>' :: rest := by
    refine Text.span_append (fun c member => by simp [plain c member]) fun c first => ?_
    cases tail with
    | nil =>
      cases first
      decide
    | cons d tail =>
      cases first
      have space := blank c List.mem_cons_self
      simp [isNameEnd, space]
  have free : '>' ∉ tail := fun member => absurd (blank _ member) (by decide)
  have shown : "</".toList ++ (own ++ (tail ++ ['>'])) ++ rest =
      '<' :: '/' :: (own ++ (tail ++ '>' :: rest)) := by
    simp
  have ends : scanBracket (tail ++ '>' :: rest) = (tail, true, rest) := by
    simp [scanBracket, splitBefore_bracket free]
  simp only [shown, Piece.scan, (Construct.of?_letter begins).2, List.drop_succ_cons,
    List.drop_zero, spans, ends]

/-! ### Pieces -/

namespace Scanner

variable {s : Scanner} {b : Builder} {pos : Nat} {t : Text}

theorem leaf?_eq (b : Builder) {stop : Nat} {text : Text} (here : stop = pos + text.byteLength)
    (kind : Kind) : s.leaf? b pos stop kind =
      some (b.addLeaf s.index ⟨pos, pos + text.byteLength⟩ kind, pos + text.byteLength) := by
  simp [leaf?, Span.ofEnds?, here]

theorem Ahead.ending? (ahead : s.Ahead pos t) (needle : Text) (full : needle ≠ []) :
    s.ending? needle pos = some (pos + (splitBefore needle t).1.byteLength,
      pos + Text.byteLength ((splitBefore needle t).1 ++
        if !(splitBefore needle t).2.isEmpty then needle else [])) := by
  have size := ahead.size_eq
  obtain ⟨before, shown, rfl⟩ := ahead
  rw [Scanner.ending?, Scanner.bytes, shown, Text.search?_bytes, splitBefore]
  cases found : Text.find? needle t with
  | none => simp [size]
  | some sides =>
    have more : sides.2 ≠ [] := fun empty =>
      full (List.prefix_nil.1 (empty ▸ Text.find?_prefix found))
    simp [more, Text.length_bytes, Nat.add_assoc]

theorem Ahead.bracket? (ahead : s.Ahead pos t) : s.ending? ['>'] pos =
    some (pos + (scanBracket t).1.byteLength,
      pos + Text.byteLength ((scanBracket t).1 ++ Piece.bracket (scanBracket t).2.1)) :=
  ahead.ending? ['>'] (List.cons_ne_nil _ _)

theorem Ahead.text? (ahead : s.Ahead pos t) (plain : Construct.of? t = none) (b : Builder) :
    s.text? b pos = some (b.add s.index pos (Piece.scan s.pairs t).1,
      pos + (Piece.scan s.pairs t).1.render.byteLength) := by
  have whole := (Template.skim_append s.pairs (Written.endsContent s.pairs) t).symm ▸ ahead
  simp only [Scanner.text?, ahead.textEnd? plain, whole.content?, Option.bind_eq_bind,
    Option.bind_some, Piece.scan, plain]
  exact leaf?_eq b rfl _

theorem Ahead.comment? (ahead : s.Ahead pos t) (opens : Construct.of? t = some .comment)
    (b : Builder) :
    s.comment? b pos = some (b.add s.index pos (Piece.scan s.pairs t).1,
      pos + (Piece.scan s.pairs t).1.render.byteLength) := by
  obtain ⟨r, rfl⟩ := Construct.opens_of_of? opens
  have lead : Text.byteLength "<!--".toList = 4 := by decide
  have inside := ahead.skip
  rw [lead] at inside
  have whole := (Written.splitBefore_append "-->".toList r).symm ▸ inside
  have dropped : ("<!--".toList ++ r).drop 4 = r := rfl
  simp only [Scanner.comment?, inside.ending? "-->".toList (by simp), whole.content?,
    Option.bind_eq_bind, Option.bind_some, Piece.scan, opens, dropped]
  refine leaf?_eq b ?_ _
  simp only [Piece.render, Text.byteLength_append, lead, Fragment.text_ofText]
  omega

theorem Ahead.doctype? (ahead : s.Ahead pos t) (opens : Construct.of? t = some .doctype)
    (b : Builder) :
    s.doctype? b pos = some (b.add s.index pos (Piece.scan s.pairs t).1,
      pos + (Piece.scan s.pairs t).1.render.byteLength) := by
  obtain ⟨r, rfl⟩ := Written.doctype_lead (Construct.opens_of_of? opens)
  have lead : Text.byteLength "<!".toList = 2 := by decide
  have inside := Ahead.skip (u := "<!".toList) (t := r) ahead
  rw [lead] at inside
  have whole := (Written.splitBefore_append ['>'] r).symm ▸ inside
  -- The lead holds no bracket.
  have split : splitBefore ['>'] ('<' :: '!' :: r) =
      ("<!".toList ++ (splitBefore ['>'] r).1, (splitBefore ['>'] r).2) := by
    rw [Written.splitBefore_cons (by decide), Written.splitBefore_cons (by decide)]
    rfl
  have ends := ahead.ending? ['>'] (by simp)
  rw [split, List.append_assoc, Text.byteLength_append, Text.byteLength_append "<!".toList, lead,
    ← Nat.add_assoc, ← Nat.add_assoc] at ends
  simp only [Scanner.doctype?, ends, whole.content?, Option.bind_eq_bind, Option.bind_some,
    Piece.scan, opens, split]
  refine leaf?_eq b ?_ _
  have dropped : List.drop 2 ("<!".toList ++ (splitBefore ['>'] r).1) = (splitBefore ['>'] r).1 :=
    rfl
  simp only [Piece.render, Piece.bracket, Text.byteLength_append, lead, Fragment.text_ofText,
    dropped]
  omega

theorem Ahead.closing? (ahead : s.Ahead pos t) (opens : Construct.of? t = some .closing)
    (sound : b.IsSound pos) :
    s.closing? b pos = some (b.add s.index pos (Piece.scan s.pairs t).1,
      pos + (Piece.scan s.pairs t).1.render.byteLength) := by
  obtain ⟨r, rfl, _⟩ := Construct.opens_of_of? opens
  obtain ⟨name, following, named, left⟩ : ∃ name following : Text,
      r.takeWhile (fun c => !isNameEnd c) = name ∧
        r.dropWhile (fun c => !isNameEnd c) = following :=
    ⟨_, _, rfl, rfl⟩
  have joined : name ++ following = r := by
    rw [← named, ← left, List.takeWhile_append_dropWhile]
  have lead : Text.byteLength "</".toList = 2 := by decide
  have inside := Ahead.skip (u := "</".toList) (t := r) ahead
  rw [lead] at inside
  have after := Ahead.skip (joined.symm ▸ inside)
  have scanned : Piece.scan s.pairs ('<' :: '/' :: r) =
      (.closing name (scanBracket following).1 (scanBracket following).2.1,
        (scanBracket following).2.2) := by
    simp only [Piece.scan, opens, List.drop_succ_cons, List.drop_zero, named, left]
  have whole := (Piece.render_scan s.pairs ('<' :: '/' :: r)).symm ▸ ahead
  have token := whole.token?
  rw [scanned] at token ⊢
  have stop : pos + 2 + name.byteLength + Text.byteLength ((scanBracket following).1 ++
      Piece.bracket (scanBracket following).2.1) =
        pos + Text.byteLength (Piece.closing name (scanBracket following).1
          (scanBracket following).2.1).render := by
    simp only [Piece.render, Text.byteLength_append, lead]
    omega
  simp only [Scanner.closing?, inside.name?, named, after.bracket?, stop, token,
    Option.bind_eq_bind, Option.bind_some]
  rw [sound.close? s.index name (by simp [LineIndex.tokenAt])]
  rfl

/-! ### Raw elements and opening tags -/

theorem Ahead.rawBody? (ahead : s.Ahead pos t) (name : Text) :
    s.rawBody? name pos =
      let body := (RawBody.scan s.pairs name t).1
      some (s.index.contentAt pos body.content,
        body.close.map (s.index.tokenAt (pos + body.content.text.byteLength)),
        pos + body.render.byteLength) := by
  have search : Bytes.search? Bytes.sameName s.bytes (Text.bytes ('<' :: '/' :: name)) pos =
      some ((Text.breakAt? (Text.startsWithName ('<' :: '/' :: name)) t).map fun sides =>
        pos + sides.1.byteLength) := by
    obtain ⟨before, shown, rfl⟩ := ahead
    rw [Scanner.bytes, shown, Text.search?_name before (List.cons_ne_nil _ _)]
  rw [Scanner.rawBody?, search, RawBody.scan]
  cases found : Text.breakAt? (Text.startsWithName ('<' :: '/' :: name)) t with
  | none =>
    have content := Ahead.content? (u := []) (by rwa [List.append_nil])
    simp [ahead.size_eq, content, RawBody.render]
  | some sides =>
    obtain ⟨body, after⟩ := sides
    obtain rfl := Text.breakAt?_append found
    have tail := Written.scanBracket_append after
    have token := Ahead.token? (tail.symm ▸ ahead.skip)
    simp only [Text.byteLength_append, Nat.add_assoc] at token
    simp [ahead.content?, ahead.skip.bracket?, token, RawBody.render, Nat.add_assoc]

/-- Where a raw element comes, reading its body after its opening tag adds the element. -/
theorem Ahead.raw? (ahead : s.Ahead pos ('<' :: t)) (b : Builder)
    (raw : (OpenTag.scan s.pairs t).1.isRaw = true)
    (opens : Construct.of? ('<' :: t) = some .opening) :
    s.raw? b (s.index.tagAt pos (OpenTag.scan s.pairs t).1 none) pos
        (pos + (OpenTag.scan s.pairs t).1.render.byteLength) =
      some (b.add s.index pos (Piece.scan s.pairs ('<' :: t)).1,
        pos + (Piece.scan s.pairs ('<' :: t)).1.render.byteLength) := by
  obtain ⟨written, rest, scanned⟩ : ∃ written rest, OpenTag.scan s.pairs t = (written, rest) :=
    ⟨_, _, rfl⟩
  have joined := OpenTag.render_scan s.pairs t
  have inside := Ahead.skip (joined.symm ▸ ahead)
  simp only [Piece.scan, opens, List.tail_cons, scanned] at raw inside ⊢
  rw [if_pos raw]
  cases self : written.isSelfClosing with
  | true =>
    have tail : s.rawTail? (s.index.tagAt pos written none) (pos + written.render.byteLength) =
        some (none, none, pos + written.render.byteLength) := if_pos self
    simp only [Scanner.raw?, tail, Option.bind_eq_bind, Option.bind_some, if_true]
    refine leaf?_eq b ?_ _
    simp only [Piece.render, Option.map_none, Option.getD_none, List.append_nil]
  | false =>
    have tail : s.rawTail? (s.index.tagAt pos written none) (pos + written.render.byteLength) =
        (s.rawBody? written.name (pos + written.render.byteLength)).map fun body =>
          (some body.1, body.2) :=
      if_neg (ne_true_of_eq_false self)
    simp only [Scanner.raw?, tail, inside.rawBody?, Option.map_some, Option.bind_eq_bind,
      Option.bind_some, Bool.false_eq_true, if_false]
    refine leaf?_eq b ?_ _
    simp only [Piece.render, Option.map_some, Option.getD_some, Text.byteLength_append,
      Nat.add_assoc]

/-! ### Void elements -/

theorem Ahead.voidClose? {name own tail rest : Text} (ahead : s.Ahead pos t)
    (begins : Text.BeginsClosing name t own tail rest) :
    s.voidClose? name pos =
      some (some (s.index.tokenAt pos ("</".toList ++ (own ++ (tail ++ ['>']))))) := by
  obtain ⟨rfl, named, blank⟩ := begins
  have token := ahead.token?
  have lead : Text.byteLength "</".toList = 2 := by decide
  have bracket : Text.byteLength ['>'] = 1 := by decide
  -- The name may be written in other letter cases, which have as many bytes.
  have size : own.byteLength = name.bytes.length := by
    rw [← Text.byteLength_lower, beq_iff_eq.1 named, Text.byteLength_lower, Text.length_bytes]
  have count : own.length = name.length := by
    simpa [Text.lower] using congrArg List.length (beq_iff_eq.1 named)
  simp only [List.append_assoc, Text.byteLength_append, lead, bracket, size] at ahead token
  have atName := ahead.skip
  rw [lead] at atName
  have atTail := atName.skip
  have atBracket := atTail.skip
  have starts : s.isNamedAt name (pos + 2) = true := by
    rw [atName.isNamedAt, Text.startsWithName, ← count, List.take_left]
    exact named
  have passes : s.passing isMarkupSpace (pos + 2 + own.byteLength) =
      pos + 2 + own.byteLength + tail.byteLength := by
    rw [atTail.passing isAsciiClass_isMarkupSpace,
      (Text.span_append blank (by simp [show isMarkupSpace '>' = false by decide])).1]
  rw [size] at passes atBracket
  have stands : s.standsAt? "</".toList pos = some true := by
    rw [ahead.standsAt?, List.isPrefixOf_iff_prefix.2 (List.prefix_append _ _)]
  simp only [Scanner.voidClose?, starts, stands, passes, Option.bind_eq_bind, Option.bind_some,
    Bool.and_true, if_true]
  have closes : s.isAt (· == '>') (pos + 2 + name.bytes.length + tail.byteLength) = true :=
    (atBracket.isAt_head (isAsciiClass_beq (by decide))).trans (by simp)
  have stop : pos + 2 + name.bytes.length + tail.byteLength + 1 =
      pos + (2 + (name.bytes.length + (tail.byteLength + 1))) := by omega
  rw [closes, if_pos rfl, stop, token]
  rfl

theorem Ahead.voidClose?_none {name : Text} (ahead : s.Ahead pos t)
    (other : ∀ own tail rest, ¬Text.BeginsClosing name t own tail rest) :
    s.voidClose? name pos = some none := by
  unfold Scanner.voidClose?
  rw [ahead.standsAt?]
  simp only [Option.bind_eq_bind, Option.bind_some]
  split
  next both =>
    -- The name stands there, so the bracket has to be missing.
    rw [Bool.and_eq_true, List.isPrefixOf_iff_prefix] at both
    obtain ⟨named, r, rfl⟩ := both
    have lead : Text.byteLength "</".toList = 2 := by decide
    have inside := ahead.skip
    rw [lead] at inside
    rw [inside.isNamedAt] at named
    have lengths := congrArg List.length (beq_iff_eq.1 named)
    have size : name.bytes.length = Text.byteLength (r.take name.length) := by
      rw [Text.length_bytes, ← Text.byteLength_lower, ← beq_iff_eq.1 named, Text.byteLength_lower]
    have after := Ahead.skip (t := r.drop name.length) (by rwa [List.take_append_drop])
    have bracket := after.drop_passing isAsciiClass_isMarkupSpace
    rw [if_neg]
    · rfl
    rw [size, bracket.isAt_head (isAsciiClass_beq (by decide))]
    intro closes
    obtain ⟨rest, shown⟩ : ∃ rest, (r.drop name.length).dropWhile isMarkupSpace = '>' :: rest := by
      simpa [Option.any_eq_true, List.head?_eq_some_iff] using closes
    refine other _ ((r.drop name.length).takeWhile isMarkupSpace) rest
      ⟨?_, named, fun c => List.all_eq_true.1 List.all_takeWhile c⟩
    have split := List.takeWhile_append_dropWhile (p := isMarkupSpace) (l := r.drop name.length)
    rw [shown] at split
    simp [split]
  · rfl

/-! ### Runs -/

/-- Whether reading on from the place adds the first pieces of `t`: it comes to a builder and a
place from where the pieces that are left give the same. -/
def Adds (s : Scanner) (b : Builder) (pos : Nat) (t : Text) (result : Builder × Nat) : Prop :=
  ∃ taken rest, t = taken ++ rest ∧ taken ≠ [] ∧ result.2 = pos + taken.byteLength ∧
    result.1.IsSound result.2 ∧
    b.addAll s.index (Piece.locate pos (Piece.scanAll s.pairs t)) =
      result.1.addAll s.index (Piece.locate result.2 (Piece.scanAll s.pairs rest))

theorem scanAll_ne_nil (pairs : List Delimiters) (some_ : t ≠ []) :
    Piece.scanAll pairs t =
      (Piece.scan pairs t).1 :: Piece.scanAll pairs (Piece.scan pairs t).2 := by
  obtain ⟨c, t, rfl⟩ := List.exists_cons_of_ne_nil some_
  rw [Piece.scanAll]

theorem adds_scan (sound : b.IsSound pos) (some_ : t ≠ [])
    (apart : ∀ next ∈ (Piece.scanAll s.pairs (Piece.scan s.pairs t).2).head?,
      b.voidClose? (Piece.scan s.pairs t).1 next = none) :
    s.Adds b pos t (b.add s.index pos (Piece.scan s.pairs t).1,
      pos + (Piece.scan s.pairs t).1.render.byteLength) := by
  obtain ⟨c, t, rfl⟩ := List.exists_cons_of_ne_nil some_
  have joined := Piece.render_scan s.pairs (c :: t)
  have shorter := Piece.scan_rest_lt s.pairs c t
  refine ⟨_, _, joined.symm, ?_, rfl, sound.add s.index _, ?_⟩
  · intro empty
    rw [empty, List.nil_append] at joined
    exact Nat.lt_irrefl _ (joined ▸ shorter)
  · rw [Piece.scanAll]
    exact (Builder.leads_cons b s.index pos _ _ apart).1

theorem voidClose?_eq_none {piece : Piece} (other : ∀ tag, piece ≠ .opening tag) (next : Piece) :
    b.voidClose? piece next = none := by
  cases piece with
  | opening tag => exact absurd rfl (other tag)
  | _ => rfl

theorem element?_open (b : Builder) {written : OpenTag}
    (alone : s.tagClose? b (s.index.tagAt pos written none) (pos + written.render.byteLength) =
      some none) :
    s.element? b (s.index.tagAt pos written none) pos (pos + written.render.byteLength) =
      some (b.add s.index pos (.opening written), pos + written.render.byteLength) := by
  have forward : Span.ofEnds? pos (pos + written.render.byteLength) =
      some ⟨pos, pos + written.render.byteLength⟩ := if_pos (Nat.le_add_right _ _)
  have named : (s.index.tagAt pos written none).name = written.name := rfl
  have closes : (s.index.tagAt pos written none).isSelfClosing = written.isSelfClosing := rfl
  unfold element? Builder.add
  simp only [alone, named, closes, Option.bind_eq_bind, Option.bind_some, Option.map_none,
    Option.getD_none, leaf?, forward, Option.map_some]
  split <;> rfl

/-- What comes after a void element is its closing tag just where a piece of that kind is read. -/
theorem voidClose?_eq_none_of_not_begins {written : OpenTag} {rest : Text}
    (other : ∀ own tail after, ¬Text.BeginsClosing written.name rest own tail after) :
    ∀ next ∈ (Piece.scanAll s.pairs rest).head?, b.voidClose? (.opening written) next = none := by
  intro next first
  obtain ⟨c, r, rfl⟩ : ∃ c r, rest = c :: r := by
    cases rest with
    | nil => simp [Piece.scanAll] at first
    | cons c r => exact ⟨c, r, rfl⟩
  rw [Piece.scanAll, List.head?_cons, Option.mem_def, Option.some_inj] at first
  have joined := Piece.render_scan s.pairs (c :: r)
  rw [first] at joined
  cases next with
  | closing own tail isClosed =>
    rw [Builder.voidClose?, if_neg]
    intro fits
    simp only [Bool.and_eq_true, List.all_eq_true] at fits
    obtain ⟨⟨⟨_, named⟩, blank⟩, rfl⟩ := fits
    exact other own tail _ ⟨by simpa [Piece.render, Piece.bracket] using joined.symm, named, blank⟩
  | _ => rfl

/-- A void element takes the closing tag that is written right after it. -/
theorem element?_closed {written : OpenTag} {own tail rest after : Text}
    (ahead : s.Ahead pos (written.render ++ rest)) (sound : b.IsSound pos)
    (void : (b.isVoid written.name && !written.isSelfClosing) = true)
    (begins : Text.BeginsClosing written.name rest own tail after)
    (piece : Piece.scan s.pairs (written.render ++ rest) = (.opening written, rest))
    (letter : Text.startsWithLetter written.name = true)
    (runs : ∀ c ∈ written.name, isNameEnd c = false) :
    ∃ result, s.element? b (s.index.tagAt pos written none) pos
        (pos + written.render.byteLength) = some result ∧
      s.Adds b pos (written.render ++ rest) result := by
  obtain ⟨text, shown⟩ : ∃ text, "</".toList ++ (own ++ (tail ++ ['>'])) = text := ⟨_, rfl⟩
  have next := Piece.scan_beginsClosing s.pairs begins letter runs
  have close := ahead.skip.voidClose? begins
  have split := begins.text
  rw [shown] at close split
  let token := s.index.tokenAt (pos + written.render.byteLength) text
  have stop : token.span.stop = pos + (written.render ++ text).byteLength := by
    simp only [token, LineIndex.tokenAt, Text.byteLength_append, Nat.add_assoc]
  have closes : s.tagClose? b (s.index.tagAt pos written none) (pos + written.render.byteLength) =
      some (some token) := (if_pos void).trans close
  have isVoid : (written.isSelfClosing || b.isVoid written.name) = true := by
    rw [Bool.and_eq_true] at void
    rw [void.1, Bool.or_true]
  have built : s.element? b (s.index.tagAt pos written none) pos
      (pos + written.render.byteLength) = some
        (b.addLeaf s.index ⟨pos, token.span.stop⟩
            (.element (s.index.tagAt pos written (some token))),
          token.span.stop) := by
    have forward : Span.ofEnds? pos token.span.stop = some ⟨pos, token.span.stop⟩ :=
      if_pos (stop ▸ Nat.le_add_right _ _)
    simp only [element?, closes, Option.bind_eq_bind, Option.bind_some, Option.map_some,
      Option.getD_some, leaf?, forward]
    exact if_pos isVoid
  refine ⟨_, built, written.render ++ text, after, by rw [split, List.append_assoc], ?_, stop,
    ?_, ?_⟩
  · simp [OpenTag.render]
  · exact (sound.mono (by simp only; omega)).addLeaf s.index _ _
  · have rendered : (Piece.closing own tail true).render = text := by
      rw [← shown]
      simp [Piece.render, Piece.bracket]
    have fits : b.voidClose? (.opening written) (.closing own tail true) =
        some (written, text) := by
      rw [Bool.and_eq_true] at void
      simp [Builder.voidClose?, void, begins.named, List.all_eq_true.2 begins.blank, rendered]
    rw [scanAll_ne_nil s.pairs (by simp [OpenTag.render]), piece,
      scanAll_ne_nil s.pairs (by simp [split, ← shown]), next]
    simp only [Piece.locate, Builder.addAll, fits, rendered]
    rfl

theorem Ahead.opening? (ahead : s.Ahead pos t) (opens : Construct.of? t = some .opening)
    (sound : b.IsSound pos) : ∃ result, s.opening? b pos = some result ∧ s.Adds b pos t result := by
  obtain ⟨t, rfl, letter⟩ := Construct.opens_of_of? opens
  obtain ⟨written, rest, scanned⟩ : ∃ written rest, OpenTag.scan s.pairs t = (written, rest) :=
    ⟨_, _, rfl⟩
  have tag := ahead.openTag?
  have forward : Span.ofEnds? pos (pos + written.render.byteLength) =
      some ⟨pos, pos + written.render.byteLength⟩ := if_pos (Nat.le_add_right _ _)
  have raw := fun raw => ahead.raw? b raw opens
  rw [scanned] at tag raw
  simp only [Scanner.opening?, tag, forward, Option.bind_eq_bind, Option.bind_some]
  -- Only a void element takes more than one piece: its closing tag, if that comes next.
  cases isRaw : written.isRaw with
  | true =>
    refine ⟨_, (if_pos isRaw).trans (raw isRaw), adds_scan sound (List.cons_ne_nil _ _) ?_⟩
    intro next _
    refine voidClose?_eq_none (fun tag => ?_) next
    simp only [Piece.scan, opens, List.tail_cons, scanned, isRaw, if_true]
    split <;> simp
  | false =>
    have piece : Piece.scan s.pairs ('<' :: t) = (.opening written, rest) := by
      simp [Piece.scan, opens, scanned, isRaw]
    have joined := OpenTag.render_scan s.pairs t
    rw [scanned] at joined
    have inside := Ahead.skip (joined.symm ▸ ahead)
    have plain : ¬(Text.sameName (s.index.tagAt pos written none).name "script".toList ||
        Text.sameName (s.index.tagAt pos written none).name "style".toList) = true :=
      ne_true_of_eq_false isRaw
    rw [if_neg plain]
    cases void : b.isVoid written.name && !written.isSelfClosing with
    | false =>
      refine ⟨_, element?_open b (if_neg (ne_true_of_eq_false void)), ?_⟩
      have adds := adds_scan sound (List.cons_ne_nil '<' t) (s := s)
      rw [piece] at adds
      refine adds fun next _ => ?_
      cases next with
      | closing own tail isClosed => simp [Builder.voidClose?, void]
      | _ => rfl
    | true =>
      by_cases other : ∀ own tail after, ¬Text.BeginsClosing written.name rest own tail after
      · refine ⟨_, element?_open b ((if_pos void).trans (inside.voidClose?_none other)), ?_⟩
        have adds := adds_scan sound (List.cons_ne_nil '<' t) (s := s)
        rw [piece] at adds
        exact adds (voidClose?_eq_none_of_not_begins other)
      · simp only [Classical.not_forall, Classical.not_not] at other
        obtain ⟨own, tail, after, begins⟩ := other
        have name : written.name = t.takeWhile fun c => !isNameEnd c :=
          (congrArg (OpenTag.name ∘ Prod.fst) scanned).symm
        rw [← joined] at piece ahead ⊢
        refine element?_closed ahead sound void begins piece ?_ ?_
        · rw [name]
          exact Text.startsWithLetter_takeWhile letter
        · intro c member
          rw [name] at member
          simpa using List.all_eq_true.1 List.all_takeWhile c member

theorem Ahead.piece? (ahead : s.Ahead pos t) (some_ : t ≠ []) (sound : b.IsSound pos) :
    ∃ result, s.piece? b pos = some result ∧ s.Adds b pos t result := by
  -- Any other piece than an opening tag is added alone.
  have adds := adds_scan sound some_ (s := s)
  rw [Scanner.piece?, ahead.construct?, Option.bind_eq_bind, Option.bind_some]
  cases opens : Construct.of? t with
  | none =>
    refine ⟨_, ahead.text? opens b, adds fun next _ => voidClose?_eq_none (fun tag => ?_) next⟩
    simp [Piece.scan, opens]
  | some construct =>
    cases construct with
    | comment =>
      refine ⟨_, ahead.comment? opens b, adds fun next _ => voidClose?_eq_none (fun tag => ?_) next⟩
      simp [Piece.scan, opens]
    | doctype =>
      refine ⟨_, ahead.doctype? opens b, adds fun next _ => voidClose?_eq_none (fun tag => ?_) next⟩
      simp [Piece.scan, opens]
    | closing =>
      refine ⟨_, ahead.closing? opens sound,
        adds fun next _ => voidClose?_eq_none (fun tag => ?_) next⟩
      simp [Piece.scan, opens]
    | opening => exact ahead.opening? opens sound

/-- From any place between characters the pieces that are ahead are added. -/
theorem Ahead.run? (ahead : s.Ahead pos t) (sound : b.IsSound pos) :
    ∃ built, loop? Prod.snd s.size s.turn? (b, pos) = some built ∧
      built = b.addAll s.index (Piece.locate pos (Piece.scanAll s.pairs t)) ∧
      built.IsSound s.size := by
  -- By what is left to read: a turn adds one piece or two, and neither is empty.
  induction long : t.length using Nat.strong_induction_on generalizing t pos b with
  | _ n ih =>
  have size := ahead.size_eq
  by_cases some_ : t = []
  · subst some_
    have last : s.size ≤ pos := Nat.le_of_eq size
    have leaves : s.turn? (b, pos) = some (.leave b) := if_pos last
    exact ⟨b, loop?_leave leaves, by rw [Piece.scanAll]; rfl, by rwa [size]⟩
  · obtain ⟨⟨c, place⟩, found, taken, rest, rfl, full, rfl, further, adds⟩ :=
      ahead.piece? some_ sound
    have within : pos < s.size := ahead.lt_size_iff.2 some_
    have goes : s.turn? (b, pos) = some (.next (c, pos + taken.byteLength)) := by
      rw [turn?, if_neg (Nat.not_le.2 within), found]
      rfl
    have longer := Text.byteLength_pos full
    have shorter : rest.length < n := by
      have := List.length_pos_iff.2 full
      rw [← long, List.length_append]
      omega
    obtain ⟨built, run, same, sound'⟩ := ih rest.length shorter ahead.skip further rfl
    exact ⟨built, (loop?_next goes (by simp only; omega) within).trans run, same.trans adds.symm,
      sound'⟩

end Scanner

/-- Reading a source with every access checked does not fail, and comes to its document. -/
theorem Document.parse?_eq (pairs : List Delimiters) (source : Text) :
    parse? pairs source = some (parse pairs source) := by
  obtain ⟨built, run, rfl, sound⟩ := (Scanner.ahead_zero ⟨pairs, source⟩).run? Builder.isSound_empty
  have size : Scanner.size ⟨pairs, source⟩ = source.byteLength := Text.length_bytes source
  have whole : Span.ofEnds? 0 source.byteLength = some ⟨0, source.byteLength⟩ :=
    if_pos (Nat.zero_le _)
  rw [size] at run
  simp only [parse?, size, whole, run, sound.finishUnclosed?, Option.bind_eq_bind, Option.bind_some]
  rfl

end TagLint
