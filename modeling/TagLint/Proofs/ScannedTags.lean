import TagLint.Proofs.ScannerStops
import TagLint.Proofs.TagRereading
import TagLint.Proofs.TreeShape

/-!
Opening tags that are read byte by byte.

Values, keys and attributes are read as their characters are. A turn in an opening tag passes over
white space and finds the end of the tag, an attribute, or a slash that is one of the separators; so
the loop finds the attributes and the end of the tag, and gets ahead in every turn.
-/
namespace TagLint

namespace Written

variable {t : Text}

/-- The ends of an opening tag that a text can begin with. -/
theorem Ending.scan?_cases (t : Text) :
    (t = [] ∧ Ending.scan? t = some (.unfinished, [])) ∨
    (∃ rest, t = ">".toList ++ rest ∧ Ending.scan? t = some (.plain, rest)) ∨
    (∃ rest, t = "/>".toList ++ rest ∧ Ending.scan? t = some (.selfClosing, rest)) ∨
    (t ≠ [] ∧ ¬">".toList <+: t ∧ ¬"/>".toList <+: t ∧ Ending.scan? t = none) := by
  unfold Ending.scan?
  split
  · simp
  · simp
  · simp
  next first second third =>
    refine Or.inr (Or.inr (Or.inr ⟨first, ?_, ?_, rfl⟩))
    · rintro ⟨rest, rfl⟩
      exact second rest rfl
    · rintro ⟨rest, rfl⟩
      exact third rest rfl

theorem splitGap_spaces {w : Text} (blank : ∀ c ∈ w, isMarkupSpace c = true) (r : Text) :
    splitGap (w ++ r) = (w ++ (splitGap r).1, (splitGap r).2) := by
  induction w with
  | nil => rfl
  | cons c w ih =>
    have space := blank c List.mem_cons_self
    have plain : (c == '/') = false := by
      refine Bool.eq_false_iff.2 fun same => ?_
      rw [eq_of_beq same] at space
      exact absurd space (by decide)
    rw [List.cons_append, splitGap, plain, Bool.false_and, space,
      ih fun d member => blank d (List.mem_cons_of_mem c member)]
    rfl

/-- Where the end of the tag stands there are no separators. -/
theorem splitGap_end {sides : Ending × Text} (found : Ending.scan? t = some sides) :
    splitGap t = ([], t) := by
  rcases Ending.scan?_cases t with ⟨rfl, _⟩ | ⟨rest, rfl, _⟩ | ⟨rest, rfl, _⟩ |
      ⟨_, _, _, missing⟩
  · rfl
  · have plain : isMarkupSpace '>' = false := by decide
    simp [splitGap, plain]
  · simp [splitGap]
  · rw [missing] at found
    contradiction

theorem splitGap_slash {r : Text} (open_ : Ending.scan? ('/' :: r) = none) :
    splitGap ('/' :: r) = (['/'] ++ (splitGap r).1, (splitGap r).2) := by
  have plain : ('/' == '/' && r.head? == some '>') = false := by
    rw [BEq.rfl, Bool.true_and, Bool.eq_false_iff, Ne, beq_iff_eq]
    intro next
    obtain ⟨rest, rfl⟩ := List.head?_eq_some_iff.1 next
    contradiction
  rw [splitGap, plain]
  rfl

theorem splitGap_solid {c : Char} {r : Text} (solid : isMarkupSpace c = false) (other : c ≠ '/') :
    splitGap (c :: r) = ([], c :: r) := by
  simp [splitGap, solid, other]

end Written

open Written (OpenTag isNameEnd splitGap scanBracket splitBefore)

namespace Scanner

variable (s : Scanner)

/-- A value in quotes, and the place after the second quote. -/
def quoted? (quote : Char) (start : Nat) : Option (Content × Nat) := do
  let stop ← s.quotedEnd? quote (start + 1)
  let content ← s.content? (start + 1) stop
  return (content, if stop < s.size then stop + 1 else stop)

/-- The value of an attribute, and the place after it. -/
def value? (start : Nat) : Option (Content × Nat) :=
  if s.isAt (· == '"') start then s.quoted? '"' start
  else if s.isAt (· == '\'') start then s.quoted? '\'' start
  else do
    let stop ← s.valueEnd? start
    let content ← s.content? start stop
    return (content, stop)

/-- The key of an attribute, and the place after it. -/
def key? (start : Nat) : Option (Option Content × Nat) :=
  if s.isAt (· == '=') start then some (none, start)
  else do
    let stop ← s.keyEnd? start
    let content ← s.content? start stop
    return (some content, stop)

/-- An attribute, and the place after it. -/
def attribute? (start : Nat) : Option (Attribute × Nat) := do
  let (key, keyStop) ← s.key? start
  let sign := s.passing isMarkupSpace keyStop
  let (value, stop) ←
    if s.isAt (· == '=') sign then do
      let (value, stop) ← s.value? (s.passing isMarkupSpace (sign + 1))
      some (some value, stop)
    else some (none, keyStop)
  let span ← Span.ofEnds? start stop
  return (⟨key, value, span, s.index.extent span⟩, stop)

variable {s} {pos : Nat} {t u : Text}

theorem Ahead.quoted? {quote : Char} (ahead : s.Ahead pos (quote :: t))
    (ascii : quote.toNat < 128) {value rest : Text}
    (skims : Template.skim s.pairs (fun r => r.head? == some quote) t = (value, rest)) :
    s.quoted? quote pos = some (s.index.contentAt (pos + 1) (Fragment.ofText s.pairs value rest),
      pos + Text.byteLength ([quote] ++ value ++ if !rest.isEmpty then [quote] else [])) := by
  have size := Text.utf8Size_ascii ascii
  have inside := ahead.tail ascii
  have joined := Template.skim_append s.pairs (fun r => r.head? == some quote) t
  rw [skims] at joined
  have all : s.Ahead (pos + 1) (value ++ rest) := joined.symm ▸ inside
  have more := all.skip.lt_size_iff
  simp only [Scanner.quoted?, inside.quotedEnd? ascii, skims, Option.bind_eq_bind,
    Option.bind_some, all.content?, more]
  cases rest with
  | nil => simp [size, Nat.add_assoc]
  | cons d r => simp [size, Nat.add_assoc]

theorem Ahead.value? (ahead : s.Ahead pos t) {quote : Option Char} {value : Fragment}
    {isClosed : Bool} {rest : Text}
    (read : Written.Assignment.scanValue s.pairs t = (quote, value, isClosed, rest)) :
    s.value? pos = some (s.index.contentAt (pos + Text.byteLength quote.toList) value,
      pos + Text.byteLength
        (quote.toList ++ value.text ++ if isClosed then quote.toList else [])) := by
  -- Without a quote the value is what is skimmed, also where the source ends.
  have plain (value rest : Text) (joined : value ++ rest = t)
      (ends : s.valueEnd? pos = some (pos + value.byteLength)) :
      (do let stop ← s.valueEnd? pos
          let content ← s.content? pos stop
          return (content, stop)) =
        some (s.index.contentAt pos (Fragment.ofText s.pairs value rest),
          pos + value.byteLength) := by
    have all : s.Ahead pos (value ++ rest) := joined.symm ▸ ahead
    simp [ends, all.content?]
  have double : IsAsciiClass (· == '"') := isAsciiClass_beq (by decide)
  have single : IsAsciiClass (· == '\'') := isAsciiClass_beq (by decide)
  unfold Written.Assignment.scanValue at read
  split at read
  next =>
    cases read
    have ends := ahead.valueEnd?
    rw [Template.skim] at ends
    rw [Scanner.value?, ahead.isAt_nil, ahead.isAt_nil]
    simpa using plain [] [] rfl ends
  next c r =>
    rw [Scanner.value?, ahead.isAt_cons double, ahead.isAt_cons single]
    split at read
    next quoted =>
      cases read
      rw [Bool.or_eq_true, beq_iff_eq, beq_iff_eq] at quoted
      rcases quoted with rfl | rfl
      · rw [if_pos (by decide)]
        exact ahead.quoted? (by decide) rfl
      · rw [if_neg (by decide), if_pos (by decide)]
        exact ahead.quoted? (by decide) rfl
    next bare =>
      cases read
      rw [Bool.or_eq_true, not_or] at bare
      rw [if_neg bare.1, if_neg bare.2]
      simpa using plain _ _ (Template.skim_append s.pairs _ (c :: r)) ahead.valueEnd?

theorem Ahead.key? (ahead : s.Ahead pos t) {key : Option Fragment} {rest : Text}
    (read : Written.Attribute.scanKey s.pairs t = (key, rest)) :
    s.key? pos = some (key.map (s.index.contentAt pos),
      pos + Text.byteLength ((key.map Fragment.text).getD [])) := by
  have sign : IsAsciiClass (· == '=') := isAsciiClass_beq (by decide)
  have same : t.head?.any (· == '=') = (t.head? == some '=') := by cases t <;> rfl
  unfold Written.Attribute.scanKey at read
  rw [Scanner.key?, ahead.isAt_head sign, same]
  split at read
  next signs =>
    cases read
    rw [if_pos signs]
    rfl
  next keyed =>
    cases read
    have all := (Template.skim_append s.pairs (Written.endsKey s.pairs) t).symm ▸ ahead
    rw [if_neg keyed]
    simp [ahead.keyEnd?, all.content?]

theorem Ahead.attribute? (ahead : s.Ahead pos t) {written : Written.Attribute} {rest : Text}
    (read : Written.Attribute.scan s.pairs t = (written, rest)) :
    s.attribute? pos =
      some (s.index.attributeAt pos written, pos + written.render.byteLength) := by
  obtain ⟨key, after, keyed⟩ : ∃ key after,
      Written.Attribute.scanKey s.pairs t = (key, after) := ⟨_, _, rfl⟩
  have joined : (key.map Fragment.text).getD [] ++ after = t := by
    have joined := Written.Attribute.scanKey_append s.pairs t
    rwa [keyed] at joined
  have keyAhead := (joined.symm ▸ ahead).skip
  have blank := keyAhead.drop_passing isAsciiClass_isMarkupSpace
  have sign : IsAsciiClass (· == '=') := isAsciiClass_beq (by decide)
  simp only [Written.Attribute.scan, keyed] at read
  simp only [Scanner.attribute?, ahead.key? keyed, Option.bind_eq_bind, Option.bind_some]
  -- An equals sign behind the key, or behind white space after it, leads in a value.
  split at read
  next r same =>
    cases read
    rw [same] at blank
    have inside := blank.tail (by decide)
    obtain ⟨quote, value, isClosed, rest, valued⟩ : ∃ quote value isClosed rest,
        Written.Assignment.scanValue s.pairs (r.dropWhile isMarkupSpace) =
          (quote, value, isClosed, rest) := ⟨_, _, _, _, rfl⟩
    let own : Written.Attribute := ⟨key, some ⟨after.takeWhile isMarkupSpace,
      r.takeWhile isMarkupSpace, quote, value, isClosed⟩⟩
    have place := keyAhead.passing isAsciiClass_isMarkupSpace
    have whole : s.passing isMarkupSpace (s.passing isMarkupSpace
          (pos + Text.byteLength ((key.map Fragment.text).getD [])) + 1) +
        Text.byteLength (quote.toList ++ value.text ++ if isClosed then quote.toList else []) =
          pos + own.render.byteLength := by
      have one : '='.utf8Size = 1 := by decide
      rw [inside.passing isAsciiClass_isMarkupSpace, place]
      simp only [own, Written.Attribute.render, Written.Attribute.keyText,
        Written.Assignment.render, Written.Assignment.quoteText, Option.map_some, Option.getD_some,
        Text.byteLength_append, Text.byteLength_cons, one]
      omega
    rw [blank.isAt_cons sign, if_pos (by decide),
      (inside.drop_passing isAsciiClass_isMarkupSpace).value? valued]
    simp only [Option.bind_some, whole, Span.ofEnds?, Nat.le_add_right, if_true]
    rw [inside.passing isAsciiClass_isMarkupSpace, place]
    simp only [Written.Assignment.scan, valued]
    rfl
  next other =>
    -- The white space looked over for the sign is not part of the attribute.
    cases read
    have missing : (List.dropWhile isMarkupSpace rest).head?.any (· == '=') = false := by
      cases shown : List.dropWhile isMarkupSpace rest with
      | nil => rfl
      | cons c r =>
        refine Bool.eq_false_iff.2 fun same => other r ?_
        rw [shown, eq_of_beq same]
    rw [blank.isAt_head sign, missing]
    simp [Span.ofEnds?, LineIndex.attributeAt, Written.Attribute.render, Written.Attribute.keyText]

/-! ### Opening tags -/

/-- What comes after the name of an opening tag. -/
structure Heading where
  attributes : List Attribute
  isSelfClosing : Bool
  openEnd : Token
  /-- The place after the tag. -/
  stop : Nat

/-- Reads on in an opening tag: its end, an attribute, or a slash that does not close it. -/
def headingTurn? (s : Scanner) (state : List Attribute × Nat) :
    Option (Turn (List Attribute × Nat) Heading) :=
  let pos := s.passing isMarkupSpace state.2
  if s.size ≤ pos then do
    let openEnd ← s.token? pos pos
    return .leave ⟨state.1, false, openEnd, pos⟩
  else do
    if ← s.standsAt? "/>".toList pos then
      let openEnd ← s.token? pos (pos + 2)
      return .leave ⟨state.1, true, openEnd, pos + 2⟩
    else if ← s.standsAt? ">".toList pos then
      let openEnd ← s.token? pos (pos + 1)
      return .leave ⟨state.1, false, openEnd, pos + 1⟩
    else if ← s.standsAt? "/".toList pos then
      return .next (state.1, pos + 1)
    else
      let (part, stop) ← s.attribute? pos
      return .next (state.1 ++ [part], stop)

/-- Where the attributes and the end of an opening tag are, after attributes that are read
already. -/
def headingAt (s : Scanner) (read : List Attribute) (pos : Nat) (t : Text) : Heading :=
  let written := OpenTag.scanAttributes s.pairs t
  let placed := s.index.attributesAt pos written.1
  let stop := placed.2 + written.2.1.byteLength
  ⟨read ++ placed.1, written.2.2.1 == .selfClosing, s.index.tokenAt stop written.2.2.1.render,
    stop + written.2.2.1.render.byteLength⟩

section Heading

variable (read : List Attribute)

theorem headingAt_end {ending : Written.Ending} {rest : Text}
    (found : Written.Ending.scan? (splitGap t).2 = some (ending, rest)) :
    s.headingAt read pos t =
      ⟨read, ending == .selfClosing,
        s.index.tokenAt (pos + (splitGap t).1.byteLength) ending.render,
        pos + (splitGap t).1.byteLength + ending.render.byteLength⟩ := by
  simp [headingAt, OpenTag.scanAttributes_end found, LineIndex.attributesAt]

theorem headingAt_attribute (goesOn : Written.Ending.scan? (splitGap t).2 = none) :
    let first := Written.Attribute.scan s.pairs (splitGap t).2
    let place := pos + (splitGap t).1.byteLength
    s.headingAt read pos t = s.headingAt (read ++ [s.index.attributeAt place first.1])
      (place + first.1.render.byteLength) first.2 := by
  simp [headingAt, OpenTag.scanAttributes_attribute goesOn, LineIndex.attributesAt,
    LineIndex.attributeAt]

/-- Separators in front of the first attribute only move it. -/
theorem headingAt_separators {g r : Text}
    (separators : splitGap t = (g ++ (splitGap r).1, (splitGap r).2)) :
    s.headingAt read pos t = s.headingAt read (pos + g.byteLength) r := by
  -- Both gaps end where the tag ends or its next attribute begins.
  cases found : Written.Ending.scan? (splitGap r).2 with
  | some sides =>
    have found' : Written.Ending.scan? (splitGap t).2 = some sides := by rw [separators, found]
    rw [headingAt_end read found, headingAt_end read found', separators]
    simp [Nat.add_assoc]
  | none =>
    have found' : Written.Ending.scan? (splitGap t).2 = none := by rw [separators, found]
    rw [headingAt_attribute read found, headingAt_attribute read found', separators]
    simp [Nat.add_assoc]

omit read in
/-- What a turn comes to, by what stands behind the white space. -/
theorem Ahead.headingTurn? (read : List Attribute) {place : Nat} (ahead : s.Ahead place t)
    (here : s.passing isMarkupSpace pos = place) :
    s.headingTurn? (read, pos) = some (match Written.Ending.scan? t with
      | some (ending, _) => .leave ⟨read, ending == .selfClosing,
          s.index.tokenAt place ending.render, place + ending.render.byteLength⟩
      | none =>
        if t.head? = some '/' then .next (read, place + 1)
        else
          let written := (Written.Attribute.scan s.pairs t).1
          .next (read ++ [s.index.attributeAt place written],
            place + written.render.byteLength)) := by
  unfold Scanner.headingTurn?
  simp only [here, ahead.standsAt?, Option.bind_eq_bind, Option.bind_some]
  have last : s.size ≤ place ↔ t = [] := by
    rw [← Nat.not_lt, ahead.lt_size_iff, Decidable.not_not]
  rcases Written.Ending.scan?_cases t with ⟨rfl, found⟩ | ⟨rest, rfl, found⟩ | ⟨rest, rfl, found⟩ |
      ⟨some_, plain, slashed, found⟩ <;> rw [found]
  · have token := Ahead.token? (t := []) (u := []) (by exact ahead)
    rw [Text.byteLength_nil, Nat.add_zero] at token
    rw [if_pos (last.2 rfl), token]
    rfl
  · have token := Ahead.token? (t := ">".toList) (u := rest) (by exact ahead)
    have size : Text.byteLength ">".toList = 1 := by decide
    rw [size] at token
    rw [if_neg (by simp [last]), if_neg (by simp), if_pos (by simp), token]
    rfl
  · have token := Ahead.token? (t := "/>".toList) (u := rest) (by exact ahead)
    have size : Text.byteLength "/>".toList = 2 := by decide
    rw [size] at token
    rw [if_neg (by simp [last]), if_pos (by simp), token]
    rfl
  · have slash : "/".toList.isPrefixOf t = true ↔ t.head? = some '/' := by
      cases t with
      | nil => simp
      | cons c t => simp [eq_comm (a := c)]
    rw [if_neg (mt last.1 some_), if_neg (by simpa using slashed), if_neg (by simpa using plain)]
    simp only [slash]
    split
    · rfl
    · rw [ahead.attribute? rfl]
      rfl

theorem Ahead.heading? (ahead : s.Ahead pos t) :
    loop? Prod.snd s.size s.headingTurn? (read, pos) = some (s.headingAt read pos t) := by
  -- By what is left to read: each turn passes white space and then takes at least one character.
  induction long : t.length using Nat.strong_induction_on generalizing t pos read with
  | _ n ih =>
  obtain ⟨w, r, rfl, blank, solid⟩ : ∃ w r, t = w ++ r ∧ (∀ c ∈ w, isMarkupSpace c = true) ∧
      ∀ c ∈ r.head?, isMarkupSpace c = false := by
    refine ⟨t.takeWhile isMarkupSpace, t.dropWhile isMarkupSpace,
      List.takeWhile_append_dropWhile.symm, fun c => List.all_eq_true.1 List.all_takeWhile c,
      fun c head => ?_⟩
    have stops := List.head?_dropWhile_not isMarkupSpace t
    rwa [head] at stops
  have here : s.passing isMarkupSpace pos = pos + w.byteLength := by
    rw [ahead.passing isAsciiClass_isMarkupSpace, (Text.span_append blank solid).1]
  have at_ := ahead.skip
  have turn := at_.headingTurn? read here
  have start : pos ≤ pos + w.byteLength := Nat.le_add_right _ _
  rw [headingAt_separators read (Written.splitGap_spaces blank r)]
  generalize pos + w.byteLength = place at here at_ start turn ⊢
  cases found : Written.Ending.scan? r with
  | some sides =>
    rw [found] at turn
    have alone : splitGap r = ([], r) := Written.splitGap_end found
    rw [loop?_leave turn, headingAt_end read (by rw [alone]; exact found), alone]
    rfl
  | none =>
    have more : r ≠ [] := by
      rintro rfl
      simp [Written.Ending.scan?] at found
    have within : pos < s.size := Nat.lt_of_le_of_lt start (at_.lt_size_iff.2 more)
    by_cases slash : r.head? = some '/'
    · -- A slash that does not close the tag is a separator.
      simp only [found, slash, if_true] at turn
      obtain ⟨r, rfl⟩ := List.head?_eq_some_iff.1 slash
      rw [loop?_next turn (Nat.lt_succ_of_le start) within,
        headingAt_separators read (Written.splitGap_slash found)]
      refine ih r.length ?_ read (at_.tail (by decide)) rfl
      rw [← long, List.length_append, List.length_cons]
      omega
    · -- Anything else begins an attribute, which is not empty.
      obtain ⟨c, r, rfl⟩ := List.exists_cons_of_ne_nil more
      simp only [found, slash, if_false] at turn
      have gap : splitGap (c :: r) = ([], c :: r) :=
        Written.splitGap_solid (solid c rfl) (by simpa using slash)
      obtain ⟨written, rest, scanned⟩ : ∃ written rest,
        Written.Attribute.scan s.pairs (c :: r) = (written, rest) := ⟨_, _, rfl⟩
      have joined := Written.Attribute.render_scan s.pairs (c :: r)
      have shorter := Written.Attribute.scan_rest_lt s.pairs c r fun plain => ?_
      · rw [scanned] at turn joined shorter
        have taken : written.render ≠ [] := by
          rintro empty
          rw [← joined, empty] at shorter
          exact Nat.lt_irrefl _ shorter
        have size := Text.byteLength_pos taken
        rw [loop?_next turn (by simp only; omega) within,
          headingAt_attribute read (by rw [gap]; exact found), gap, scanned]
        refine ih rest.length ?_ _ (joined.symm ▸ at_).skip rfl
        rw [← long, List.length_append]
        simp only at shorter
        omega
      · obtain ⟨d, u, same, runs⟩ := Written.endsKey_splitGap s.pairs (t := c :: r)
          (by rw [gap]; exact found)
        rw [gap] at same
        obtain ⟨rfl, rfl⟩ := List.cons.inj same
        exact runs plain

end Heading

variable (s)

/-- The place after a name. -/
def nameEnd (start : Nat) : Nat :=
  s.passing (fun c => !isNameEnd c) start

/-- The text of a name, and the place after it. -/
def name? (start : Nat) : Option (Text × Nat) := do
  let stop := s.nameEnd start
  let name ← s.source.select? ⟨start, stop⟩
  return (name, stop)

/-- An opening tag, and the place after it. -/
def openTag? (start : Nat) : Option (Tag × Nat) := do
  let (name, stop) ← s.name? (start + 1)
  let openStart ← s.token? start stop
  let heading ← loop? Prod.snd s.size s.headingTurn? ([], stop)
  return (⟨name, heading.attributes, heading.isSelfClosing, openStart, heading.openEnd, none⟩,
    heading.stop)

variable {s}

theorem isAsciiClass_nameEnd : IsAsciiClass fun c => !isNameEnd c := by
  have ends : IsAsciiClass isNameEnd := isAsciiClass_of_ascii fun c holds => by
    simp only [isNameEnd, Bool.or_eq_true, beq_iff_eq] at holds
    rcases holds with (blank | rfl) | rfl
    · exact isMarkupSpace_ascii blank
    · decide
    · decide
  exact fun c d first second => congrArg Bool.not (ends c d first second)

theorem Ahead.name? (ahead : s.Ahead pos t) :
    s.name? pos = some (t.takeWhile (fun c => !isNameEnd c),
      pos + Text.byteLength (t.takeWhile fun c => !isNameEnd c)) := by
  have split := List.takeWhile_append_dropWhile (p := fun c => !isNameEnd c) (l := t)
  have selected := Ahead.select? (split.symm ▸ ahead)
  simp [Scanner.name?, nameEnd, ahead.passing isAsciiClass_nameEnd, selected]

theorem Ahead.openTag? (ahead : s.Ahead pos ('<' :: t)) :
    s.openTag? pos = some (s.index.tagAt pos (OpenTag.scan s.pairs t).1 none,
      pos + (OpenTag.scan s.pairs t).1.render.byteLength) := by
  have one : '<'.utf8Size = 1 := by decide
  have inside := ahead.tail (by decide)
  have split := List.takeWhile_append_dropWhile (p := fun c => !isNameEnd c) (l := t)
  obtain ⟨name, following, named, rest⟩ : ∃ name following : Text,
      t.takeWhile (fun c => !isNameEnd c) = name ∧
        t.dropWhile (fun c => !isNameEnd c) = following :=
    ⟨_, _, rfl, rfl⟩
  rw [named, rest] at split
  have start := Ahead.token? (t := '<' :: name) (u := following) (by rwa [List.cons_append, split])
  have after := Ahead.skip (split.symm ▸ inside)
  have heading := after.heading? []
  rw [Text.byteLength_cons, one, ← Nat.add_assoc] at start
  simp only [Scanner.openTag?, inside.name?, named, Option.bind_eq_bind, Option.bind_some, start,
    heading]
  -- The attributes are placed from where the token with the name stops.
  have place : (s.index.tokenAt pos ('<' :: name)).span.stop = pos + 1 + name.byteLength := by
    simp only [LineIndex.tokenAt, Text.byteLength_cons, one, Nat.add_assoc]
  rw [← LineIndex.tagAt_stop s.index pos _ none]
  simp only [OpenTag.scan, named, rest, LineIndex.tagAt, headingAt, List.nil_append, place]
  rfl

end Scanner
end TagLint
