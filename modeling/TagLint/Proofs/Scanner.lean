import TagLint.Proofs.CheckedBytes

/-!
A scanner over the bytes of a source.

A place of the scanner is an offset in bytes, which need not be between characters: it steps from
byte to byte, asks everywhere what is there, and jumps over template regions. `Scanner.Ahead` says
what characters come at a place between them. There the scanner finds what is read from the
characters; inside a character nothing begins, and so it passes over it.
-/
namespace TagLint

open Written

/-! ### Parts -/

namespace Part

theorem any_consPlain (c : Char) (parts : List Part) :
    (consPlain c parts).any isTemplate = parts.any isTemplate := by
  unfold consPlain
  split <;> simp

/-- Plain text as a part, if it is not empty. -/
def ofPlain (plain : Text) : List Part :=
  if plain.isEmpty then [] else [⟨false, plain⟩]

theorem foldr_consPlain {parts : List Part} (plain : Text)
    (other : ∀ part ∈ parts.head?, part.isTemplate = true) :
    plain.foldr consPlain parts = ofPlain plain ++ parts := by
  induction plain with
  | nil => rfl
  | cons c plain ih =>
    rw [List.foldr_cons, ih]
    cases plain with
    | nil =>
      cases parts with
      | nil => rfl
      | cons part parts =>
        obtain ⟨isTemplate, text⟩ := part
        obtain rfl : isTemplate = true := other _ rfl
        rfl
    | cons d plain => rfl

theorem join_append (parts others : List Part) :
    join (parts ++ others) = join parts ++ join others :=
  List.flatMap_append

theorem join_ofPlain (plain : Text) : join (ofPlain plain) = plain := by
  cases plain <;> simp [ofPlain, join]

end Part

theorem LineIndex.templateSpans_append (index : LineIndex) (start : Nat)
    (parts others : List Part) :
    index.templateSpans start (parts ++ others) = index.templateSpans start parts ++
      index.templateSpans (start + (Part.join parts).byteLength) others := by
  induction parts generalizing start with
  | nil => rfl
  | cons part parts ih => simp [templateSpans, Part.join, ih, Nat.add_assoc]

/-! ### A scanner -/

/-- What is read: a source, and the template delimiters that count in it. -/
structure Scanner where
  pairs : List Delimiters
  source : Text

namespace Scanner

variable (s : Scanner)

def bytes : Bytes :=
  s.source.bytes

def size : Nat :=
  s.bytes.length

def index : LineIndex :=
  LineIndex.ofText s.source

/-- Whether a byte of the class is at the place. -/
def isAt (p : Char → Bool) (pos : Nat) : Bool :=
  s.bytes[pos]?.any fun byte => p (Char.ofUInt8 byte)

/-- Whether there is a byte of the class at the place, which has to be before the end. -/
def byteIs? (p : Char → Bool) (pos : Nat) : Option Bool :=
  s.bytes[pos]?.map fun byte => p (Char.ofUInt8 byte)

/-- Whether a text stands at the place, which has to be within the source. -/
def standsAt? (needle : Text) (pos : Nat) : Option Bool :=
  (Bytes.sliceFrom? s.bytes pos).map fun rest => needle.bytes.isPrefixOf rest

/-- Whether a name stands at the place and does not go on past the end. -/
def isNamedAt (name : Text) (pos : Nat) : Bool :=
  pos + name.bytes.length ≤ s.size &&
    Bytes.sameName ((s.bytes.drop pos).take name.bytes.length) name.bytes

theorem lt_size_of_isAt {s : Scanner} {p : Char → Bool} {pos : Nat} (here : s.isAt p pos = true) :
    pos < s.size := by
  unfold isAt at here
  cases found : s.bytes[pos]? with
  | none => simp [found] at here
  | some byte => exact (List.getElem?_eq_some_iff.1 found).1

/-- The first place from `pos` on where no byte of the class is. -/
def passing (p : Char → Bool) (pos : Nat) : Nat :=
  if s.isAt p pos then passing p (pos + 1) else pos
termination_by s.size - pos
decreasing_by
  have := lt_size_of_isAt (by assumption)
  omega

/-- The text between two places, as it stands there. -/
def token? (start stop : Nat) : Option Token := do
  let span ← Span.ofEnds? start stop
  let text ← s.source.select? span
  return ⟨text, span, s.index.extent span⟩

/-- The first pair of delimiters of which the opening one is at the place. -/
def openerAt? (pos : Nat) : Option (Option Delimiters) :=
  s.pairs.findM? fun pair =>
    if pair.opening.isEmpty then some false else s.standsAt? pair.opening pos

/-- Where the template region ends that begins at the place, if one does; it goes no further than
`limit`. -/
def regionEnd? (pos limit : Nat) : Option (Option Nat) := do
  match ← s.openerAt? pos with
  | none => return none
  | some pair =>
    let bytes ← Bytes.sliceTo? s.bytes limit
    let closing ← Bytes.search? (· == ·) bytes pair.closing.bytes (pos + pair.opening.bytes.length)
    return some ((closing.map (· + pair.closing.bytes.length)).getD limit)

def templateSpan? (isTemplate : Bool) (start stop : Nat) : Option TemplateSpan := do
  let span ← Span.ofEnds? start stop
  return ⟨isTemplate, span, s.index.extent span⟩

/-- Parts up to a place, and where the next one starts if no region begins before. -/
structure Cutting where
  parts : List TemplateSpan
  start : Nat
  pos : Nat

/-- The plain text between two places as a part, if it is not empty. -/
def plainSpans? (start stop : Nat) : Option (List TemplateSpan) :=
  if start < stop then (s.templateSpan? false start stop).map fun span => [span] else some []

/-- Goes on to the next place, or past the region that begins there. At the end what is left belongs
to the parts, unless there are none. -/
def cut? (stop : Nat) (cutting : Cutting) : Option (Turn Cutting (List TemplateSpan)) :=
  if stop ≤ cutting.pos then
    if cutting.parts.isEmpty then some (.leave [])
    else (s.plainSpans? cutting.start stop).map fun plain => .leave (cutting.parts ++ plain)
  else do
    match ← s.regionEnd? cutting.pos stop with
    | none => return .next { cutting with pos := cutting.pos + 1 }
    | some regionEnd =>
      let plain ← s.plainSpans? cutting.start cutting.pos
      let region ← s.templateSpan? true cutting.pos regionEnd
      return .next ⟨cutting.parts ++ plain ++ [region], regionEnd, regionEnd⟩

/-- The template regions in the range and what is between them; without a region there are no
parts. -/
def templates? (start stop : Nat) : Option (List TemplateSpan) :=
  loop? Cutting.pos stop (s.cut? stop) ⟨[], start, start⟩

/-- The text between two places with the template regions in it. -/
def content? (start stop : Nat) : Option Content := do
  let span ← Span.ofEnds? start stop
  let text ← s.source.select? span
  let templates ← s.templates? start stop
  return ⟨text, span, s.index.extent span, templates⟩

/-! ### Places between characters -/

theorem findM?_eq_none {α : Type} {p : α → Option Bool} {items : List α}
    (test : ∀ item ∈ items, p item = some false) : items.findM? p = some none := by
  induction items with
  | nil => rfl
  | cons item items ih =>
    rw [List.findM?, test item List.mem_cons_self]
    exact ih fun other member => test other (List.mem_cons_of_mem item member)

/-- Whether the place is between characters and `t` comes there. -/
def Ahead (pos : Nat) (t : Text) : Prop :=
  ∃ before, s.source = before ++ t ∧ before.byteLength = pos

variable {s : Scanner} {pos n : Nat} {t u : Text} {c : Char} {p : Char → Bool}

theorem ahead_zero (s : Scanner) : s.Ahead 0 s.source :=
  ⟨[], rfl, rfl⟩

namespace Ahead

theorem skip (ahead : s.Ahead pos (u ++ t)) : s.Ahead (pos + u.byteLength) t := by
  obtain ⟨before, shown, rfl⟩ := ahead
  exact ⟨before ++ u, by rw [shown, List.append_assoc], Text.byteLength_append before u⟩

/-- An ASCII character has one byte. -/
theorem tail (ahead : s.Ahead pos (c :: t)) (ascii : c.toNat < 128) :
    s.Ahead (pos + 1) t := by
  have rest := ahead.skip (u := [c])
  rwa [Text.byteLength_cons, Text.utf8Size_ascii ascii] at rest

theorem select? (ahead : s.Ahead pos (t ++ u)) :
    s.source.select? ⟨pos, pos + t.byteLength⟩ = some t := by
  obtain ⟨before, shown, rfl⟩ := ahead
  rw [shown, ← List.append_assoc]
  exact Text.select?_append before t u

theorem bytes_eq (ahead : s.Ahead pos t) : ∃ before : Bytes, before.length = pos ∧
    s.bytes = before ++ t.bytes := by
  obtain ⟨before, shown, rfl⟩ := ahead
  exact ⟨before.bytes, Text.length_bytes before, by rw [bytes, shown, Text.bytes_append]⟩

theorem drop_bytes (ahead : s.Ahead pos t) : s.bytes.drop pos = t.bytes := by
  obtain ⟨before, rfl, shown⟩ := ahead.bytes_eq
  rw [shown, List.drop_left]

theorem size_eq (ahead : s.Ahead pos t) : s.size = pos + t.byteLength := by
  obtain ⟨before, rfl, shown⟩ := ahead.bytes_eq
  rw [size, shown, List.length_append, Text.length_bytes]

theorem sliceFrom? (ahead : s.Ahead pos t) : Bytes.sliceFrom? s.bytes pos = some t.bytes := by
  obtain ⟨before, rfl, shown⟩ := ahead.bytes_eq
  rw [shown, Bytes.sliceFrom?_append]

theorem standsAt? (ahead : s.Ahead pos t) (needle : Text) :
    s.standsAt? needle pos = some (needle.isPrefixOf t) := by
  have same : needle.bytes.isPrefixOf t.bytes = needle.isPrefixOf t := by
    rw [Bool.eq_iff_iff, List.isPrefixOf_iff_prefix, List.isPrefixOf_iff_prefix,
      Text.bytes_prefix_iff]
  rw [Scanner.standsAt?, ahead.sliceFrom?, Option.map_some, same]

theorem lt_size_iff (ahead : s.Ahead pos t) : pos < s.size ↔ t ≠ [] := by
  rw [ahead.size_eq]
  constructor
  · rintro less rfl
    simp at less
  · intro some_
    have := Text.byteLength_pos some_
    omega

theorem lt_size (ahead : s.Ahead pos (c :: t)) (last : n < pos + c.utf8Size) : n < s.size := by
  rw [ahead.size_eq, Text.byteLength_cons]
  omega

/-- Inside a character there are its bytes. -/
theorem byteIs? (ahead : s.Ahead pos (c :: t)) (ascii : IsAsciiClass p) (first : pos ≤ n)
    (last : n < pos + c.utf8Size) : s.byteIs? p n = some (p c) := by
  obtain ⟨before, rfl, shown⟩ := ahead.bytes_eq
  have within : n - before.length < (String.utf8EncodeChar c).length := by
    rw [String.length_utf8EncodeChar]
    omega
  have here : s.bytes[n]? = some (String.utf8EncodeChar c)[n - before.length] := by
    rw [shown, List.getElem?_append_right first, Text.bytes_cons, List.getElem?_append_left within,
      List.getElem?_eq_getElem within]
  rw [Scanner.byteIs?, here, Option.map_some,
    Text.class_of_mem_encode ascii (List.getElem_mem within)]

/-- What stands inside a character stands at its start. -/
theorem standsAt?_within (ahead : s.Ahead pos (c :: t)) {needle : Text} (full : needle ≠ [])
    (missing : ¬needle <+: c :: t) (first : pos ≤ n) (last : n < pos + c.utf8Size) :
    s.standsAt? needle n = some false := by
  have within : n ≤ s.bytes.length := Nat.le_of_lt (ahead.lt_size last)
  rw [Scanner.standsAt?, Bytes.sliceFrom?, if_pos within, Option.map_some, Option.some_inj,
    Bool.eq_false_iff, Ne, List.isPrefixOf_iff_prefix]
  intro stands
  -- No character begins inside of another one, so the needle would stand from the start.
  obtain ⟨before, shown, rfl⟩ := ahead
  have stands' : s.source.StandsAt n needle := (Text.standsAt_iff_bytes full n).2 stands
  exact missing ((shown ▸ stands').prefix_of_within first last)

theorem isAt_nil (ahead : s.Ahead pos []) (p : Char → Bool) : s.isAt p pos = false := by
  have size : s.bytes.length ≤ pos := Nat.le_of_eq ahead.size_eq
  rw [Scanner.isAt, List.getElem?_eq_none size]
  rfl

theorem isAt (ahead : s.Ahead pos (c :: t)) (ascii : IsAsciiClass p) (first : pos ≤ n)
    (last : n < pos + c.utf8Size) : s.isAt p n = p c := by
  obtain ⟨byte, here, same⟩ := Option.map_eq_some_iff.1 (ahead.byteIs? ascii first last)
  rw [Scanner.isAt, here]
  exact same

theorem passing (ahead : s.Ahead pos t) (ascii : IsAsciiClass p) :
    s.passing p pos = pos + Text.byteLength (t.takeWhile p) := by
  induction t generalizing pos with
  | nil =>
    rw [Scanner.passing, ahead.isAt_nil]
    rfl
  | cons c t ih =>
    have here := fun n first last => ahead.isAt (n := n) ascii first last
    cases holds : p c with
    | false =>
      have size := c.utf8Size_pos
      rw [Scanner.passing, here pos (Nat.le_refl _) (by omega), holds]
      simp [holds]
    | true =>
      -- All bytes of the character are in the class, and are passed one after the other.
      have past (k : Nat) (le : k ≤ c.utf8Size) :
          s.passing p pos = s.passing p (pos + k) := by
        induction k with
        | zero => rfl
        | succ k ih =>
          rw [ih (by omega), Scanner.passing, here _ (by omega) (by omega), holds]
          rfl
      have rest : s.Ahead (pos + c.utf8Size) t := by simpa using ahead.skip (u := [c])
      rw [past _ (Nat.le_refl _), ih rest, List.takeWhile_cons_of_pos holds, Text.byteLength_cons,
        Nat.add_assoc]

/-- Behind the characters of a class comes what is left of the text. -/
theorem drop_passing (ahead : s.Ahead pos t) (ascii : IsAsciiClass p) :
    s.Ahead (s.passing p pos) (t.dropWhile p) := by
  rw [ahead.passing ascii]
  exact Ahead.skip (by rwa [List.takeWhile_append_dropWhile])

theorem openerAt? (ahead : s.Ahead pos t) :
    s.openerAt? pos = some (Template.opener? s.pairs t []) := by
  have test : (fun pair : Delimiters =>
      if pair.opening.isEmpty then some false else s.standsAt? pair.opening pos) =
        fun pair => pure (!pair.opening.isEmpty && Template.startsAcross [] pair.opening t) := by
    funext pair
    have same : pair.opening.isPrefixOf t = Template.startsAcross [] pair.opening t := by
      rw [Bool.eq_iff_iff, List.isPrefixOf_iff_prefix, Template.startsAcross_iff, List.append_nil]
    rw [ahead.standsAt?, same]
    cases pair.opening.isEmpty <;> rfl
  rw [Scanner.openerAt?, test, List.findM?_pure]
  rfl

theorem regionEnd? (ahead : s.Ahead pos (t ++ u)) :
    s.regionEnd? pos (pos + t.byteLength) =
      some ((Template.region? s.pairs t u).map fun sides => pos + sides.1.byteLength) := by
  rw [Scanner.regionEnd?, ahead.openerAt?, ← Template.opener?_append, Template.region?]
  cases opens : Template.opener? s.pairs t u with
  | none => rfl
  | some pair =>
    obtain ⟨before, shown, rfl⟩ := ahead
    obtain ⟨_, full, starts⟩ := Template.opener?_spec opens
    have limit : Bytes.sliceTo? s.bytes (before.byteLength + t.byteLength) =
        some (before ++ t).bytes := by
      rw [Scanner.bytes, shown, ← List.append_assoc, Text.bytes_append (before ++ t),
        ← Text.byteLength_append, ← Text.length_bytes, Bytes.sliceTo?_append]
    simp only [Option.bind_eq_bind, Option.bind_some, limit, Option.map_some]
    split
    next fits =>
      -- What is searched for the closing delimiter begins behind the opening one.
      obtain ⟨inside, rfl⟩ : pair.opening <+: t :=
        List.prefix_of_prefix_length_le starts (List.prefix_append t u) fits
      have place : before.byteLength + pair.opening.bytes.length =
          (before ++ pair.opening).byteLength := by
        rw [Text.length_bytes, Text.byteLength_append]
      rw [List.drop_left, ← List.append_assoc, place, Text.search?_bytes]
      cases Text.find? pair.closing inside with
      | none => simp
      | some sides =>
        simp [Text.length_bytes, Nat.add_assoc]
    next long =>
      -- The opening delimiter goes on past the limit, and nothing is searched there.
      obtain ⟨rest, longer⟩ := List.prefix_of_prefix_length_le (List.prefix_append t u) starts
        (Nat.le_of_not_le long)
      have some_ : rest ≠ [] := by
        rintro rfl
        exact long (by simp [← longer])
      have past : (before ++ t).bytes.length < before.byteLength + pair.opening.bytes.length := by
        have size := Text.byteLength_pos some_
        rw [Text.length_bytes, Text.length_bytes, ← longer, Text.byteLength_append,
          Text.byteLength_append]
        omega
      simp [Bytes.search?, -Text.bytes_append, past]

/-- The opening delimiter goes on past the limit: the region ends there. -/
example : Scanner.regionEnd? ⟨[⟨"(-".toList, "-)".toList⟩], "<!--(-->".toList⟩ 4 5 =
    some (some 5) := by
  decide

/-- Inside a character at which no region begins none does. -/
theorem regionEnd?_within (ahead : s.Ahead pos (c :: t))
    (plain : Template.opener? s.pairs (c :: t) [] = none) (first : pos ≤ n)
    (last : n < pos + c.utf8Size) (limit : Nat) : s.regionEnd? n limit = some none := by
  have test (pair : Delimiters) (member : pair ∈ s.pairs) :
      (if pair.opening.isEmpty then some false else s.standsAt? pair.opening n) = some false := by
    split
    · rfl
    next full =>
      have full : pair.opening ≠ [] := by simpa using full
      exact ahead.standsAt?_within full (Template.opener?_eq_none_iff.1 plain pair member full)
        first last
  have missing : s.openerAt? n = some none := findM?_eq_none test
  rw [Scanner.regionEnd?, missing]
  rfl

theorem token? (ahead : s.Ahead pos (t ++ u)) :
    s.token? pos (pos + t.byteLength) = some (s.index.tokenAt pos t) := by
  simp [Scanner.token?, Span.ofEnds?, ahead.select?, LineIndex.tokenAt]

end Ahead

theorem templateSpan?_eq (isTemplate : Bool) {start stop : Nat} (ordered : start ≤ stop) :
    s.templateSpan? isTemplate start stop =
      some ⟨isTemplate, ⟨start, stop⟩, s.index.extent ⟨start, stop⟩⟩ := by
  simp [templateSpan?, Span.ofEnds?, ordered]

theorem plainSpans?_eq {start stop : Nat} {plain : Text} (here : stop = start + plain.byteLength) :
    s.plainSpans? start stop = some (s.index.templateSpans start (Part.ofPlain plain)) := by
  cases plain with
  | nil => simp [plainSpans?, here, Part.ofPlain, LineIndex.templateSpans]
  | cons c plain =>
    have more : start < stop := by
      have := Text.byteLength_pos (List.cons_ne_nil c plain)
      omega
    simp [plainSpans?, more, templateSpan?_eq, Nat.le_of_lt more, Part.ofPlain,
      LineIndex.templateSpans, -Text.byteLength_cons, ← here]

/-- Cutting a range finds its division into parts, after those that are cut already. -/
theorem loop?_cut {start pos stop : Nat} {plain t u : Text} (parts : List TemplateSpan)
    (ahead : s.Ahead start (plain ++ (t ++ u))) (here : pos = start + plain.byteLength)
    (end_ : stop = pos + t.byteLength) :
    loop? Cutting.pos stop (s.cut? stop) ⟨parts, start, pos⟩ =
      some (if parts.isEmpty && !(Part.divide s.pairs u t).any Part.isTemplate then []
        else parts ++
          s.index.templateSpans start (plain.foldr Part.consPlain (Part.divide s.pairs u t))) := by
  fun_induction Part.divide s.pairs u t generalizing start pos plain parts with
  | case1 =>
    obtain rfl : stop = pos := end_
    have ends : s.cut? stop ⟨parts, start, stop⟩ = some (.leave (if parts.isEmpty then [] else
        parts ++ s.index.templateSpans start (Part.ofPlain plain))) := by
      rw [cut?, if_pos (Nat.le_refl stop), plainSpans?_eq here]
      split <;> rfl
    rw [loop?_leave ends, Part.foldr_consPlain plain (by simp)]
    simp
  | case2 c t region rest found ih =>
    -- What is plain so far and the region are two parts, and cutting goes on behind them.
    have at_ : s.Ahead pos (c :: t ++ u) := here ▸ ahead.skip
    have joined := Template.region?_append found
    have taken := Text.byteLength_pos (Template.region?_ne_nil (List.cons_ne_nil c t) found)
    have size := congrArg Text.byteLength joined
    rw [Text.byteLength_append] at size
    have goes : s.cut? stop ⟨parts, start, pos⟩ = some (.next ⟨parts ++
        s.index.templateSpans start (Part.ofPlain plain ++ [⟨true, region⟩]),
        pos + region.byteLength, pos + region.byteLength⟩) := by
      have regionEnd := at_.regionEnd?
      rw [← end_, found] at regionEnd
      rw [cut?, if_neg (by simp only; omega), plainSpans?_eq here,
        LineIndex.templateSpans_append, Part.join_ofPlain, ← here]
      simp [regionEnd, templateSpan?_eq, LineIndex.templateSpans]
    have further : s.Ahead (pos + region.byteLength) ([] ++ (rest ++ u)) := by
      rw [← joined, List.append_assoc] at at_
      exact at_.skip
    rw [loop?_next goes (by simp only; omega) (by simp only; omega),
      ih _ further (Nat.add_zero _).symm (by omega), Part.foldr_consPlain plain (by simp)]
    have full : (parts ++ s.index.templateSpans start
        (Part.ofPlain plain ++ [⟨true, region⟩])).isEmpty = false := by
      simp [LineIndex.templateSpans_append, LineIndex.templateSpans]
    rw [← List.singleton_append (l := Part.divide s.pairs u rest), ← List.append_assoc,
      LineIndex.templateSpans_append _ _ (_ ++ [_]), full]
    rw [Part.join_append, Part.join_ofPlain, Text.byteLength_append, ← Nat.add_assoc, ← here]
    simp [Part.join]
  | case3 c t plain_ ih =>
    have at_ : s.Ahead pos (c :: t ++ u) := here ▸ ahead.skip
    have missing : Template.opener? s.pairs (c :: (t ++ u)) [] = none := by
      rw [Template.region?, Option.map_eq_none_iff] at plain_
      rw [← List.cons_append, ← Template.opener?_append, plain_]
    have within : pos + c.utf8Size ≤ stop := by
      rw [Text.byteLength_cons] at end_
      omega
    -- The loop steps over the bytes of the character.
    have steps : loop? Cutting.pos stop (s.cut? stop) ⟨parts, start, pos⟩ =
        loop? Cutting.pos stop (s.cut? stop) ⟨parts, start, pos + c.utf8Size⟩ := by
      refine loop?_steps (Cutting.mk parts start) (fun _ => rfl) (Nat.le_add_right pos _) within
        fun n first last => ?_
      rw [cut?, if_neg (by simp only; omega), at_.regionEnd?_within missing first last]
      rfl
    have further : s.Ahead start ((plain ++ [c]) ++ (t ++ u)) := by simpa using ahead
    rw [steps, ih parts further (by simp [here, Nat.add_assoc])
      (by rw [end_, Text.byteLength_cons, Nat.add_assoc]), Part.any_consPlain, List.foldr_append]
    rfl

theorem Ahead.content? (ahead : s.Ahead pos (t ++ u)) :
    s.content? pos (pos + t.byteLength) =
      some (s.index.contentAt pos (Fragment.ofText s.pairs t u)) := by
  have cuts : s.templates? pos (pos + t.byteLength) =
      some (s.index.templateSpans pos (Fragment.ofText s.pairs t u).parts) := by
    have start : s.Ahead pos ([] ++ (t ++ u)) := ahead
    rw [templates?, loop?_cut [] start (Nat.add_zero pos).symm rfl]
    simp only [Fragment.ofText, List.isEmpty_nil, Bool.true_and, List.foldr_nil, List.nil_append]
    cases (Part.divide s.pairs u t).any Part.isTemplate <;> rfl
  simp [Scanner.content?, Span.ofEnds?, ahead.select?, cuts, LineIndex.contentAt]

end Scanner
end TagLint
