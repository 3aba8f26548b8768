import TagLint.Proofs.Feeding

/-!
Reading a tag again when what comes after it, or its end, has changed.

No scanner inside of a tag looks past what it takes but for one or two characters and for opening
delimiters. `EndsAlike` says what has to stay of these; then each reads the same again, and only the
division of its texts into template regions may differ. A tag and the body of a raw element end with
a bracket, so they read the same whatever comes after it.
-/
namespace TagLint

def Fragment.bare (fragment : Fragment) : Fragment :=
  ⟨fragment.text, []⟩

namespace Written

def Assignment.bare (a : Assignment) : Assignment :=
  { a with value := a.value.bare }

def Attribute.bare (a : Attribute) : Attribute :=
  ⟨a.key.map Fragment.bare, a.assignment.map Assignment.bare⟩

def OpenTag.bare (tag : OpenTag) : OpenTag :=
  { tag with attributes := tag.attributes.map fun entry => (entry.1, entry.2.bare) }

def RawBody.bare (body : RawBody) : RawBody :=
  ⟨body.content.bare, body.close⟩

/-- The piece without the division of its texts into template regions. -/
def Piece.bare : Piece → Piece
  | .text content => .text content.bare
  | .comment body isClosed => .comment body.bare isClosed
  | .doctype body isClosed => .doctype body.bare isClosed
  | .opening tag => .opening tag.bare
  | .raw tag body => .raw tag.bare (body.map RawBody.bare)
  | .closing name tail isClosed => .closing name tail isClosed

theorem Attribute.render_bare (a : Attribute) : a.bare.render = a.render := by
  obtain ⟨key, assignment⟩ := a
  cases key <;> cases assignment <;> rfl

@[simp] theorem OpenTag.name_bare (tag : OpenTag) : tag.bare.name = tag.name := rfl

@[simp] theorem OpenTag.isRaw_bare (tag : OpenTag) : tag.bare.isRaw = tag.isRaw := rfl

@[simp] theorem OpenTag.isSelfClosing_bare (tag : OpenTag) :
    tag.bare.isSelfClosing = tag.isSelfClosing := rfl

theorem OpenTag.render_bare (tag : OpenTag) : tag.bare.render = tag.render := by
  have attributes : tag.bare.attributes.flatMap (fun entry => entry.1 ++ entry.2.render) =
      tag.attributes.flatMap fun entry => entry.1 ++ entry.2.render := by
    simp [OpenTag.bare, List.flatMap_map, Attribute.render_bare]
  simp only [render, attributes]
  rfl

@[simp] theorem Piece.isText_bare (piece : Piece) : piece.bare.isText = piece.isText := by
  cases piece <;> rfl

theorem Piece.render_bare (piece : Piece) : piece.bare.render = piece.render := by
  cases piece with
  | opening tag => exact tag.render_bare
  | raw tag body =>
    cases body <;> simp [Piece.bare, Piece.render, OpenTag.render_bare, RawBody.bare,
      RawBody.render, Fragment.bare]
  | _ => rfl

theorem OpenTag.name_of_bare {tag tag' : OpenTag} (same : tag'.bare = tag.bare) :
    tag'.name = tag.name := by
  simpa using congrArg OpenTag.name same

theorem OpenTag.isSelfClosing_of_bare {tag tag' : OpenTag} (same : tag'.bare = tag.bare) :
    tag'.isSelfClosing = tag.isSelfClosing := by
  simpa using congrArg OpenTag.isSelfClosing same

theorem OpenTag.render_of_bare {tag tag' : OpenTag} (same : tag'.bare = tag.bare) :
    tag'.render = tag.render := by
  rw [← OpenTag.render_bare, same, OpenTag.render_bare]

theorem Piece.render_of_bare {piece piece' : Piece} (same : piece'.bare = piece.bare) :
    piece'.render = piece.render := by
  rw [← Piece.render_bare, same, Piece.render_bare]

/-- The first character up to a bracket does not depend on what comes after the bracket. -/
theorem head?_bracket (r : Text) (x y : Text) :
    (r ++ '>' :: x).head? = (r ++ '>' :: y).head? := by
  cases r <;> rfl

theorem span_bracket {test : Char → Bool} {t s x : Text}
    (dropped : t.dropWhile test = s ++ '>' :: x) (y : Text) :
    (t.takeWhile test ++ (s ++ '>' :: y)).takeWhile test = t.takeWhile test ∧
      (t.takeWhile test ++ (s ++ '>' :: y)).dropWhile test = s ++ '>' :: y := by
  refine Text.span_append (List.all_eq_true.1 List.all_takeWhile) ?_
  intro c first
  have stops := List.head?_dropWhile_not test t
  rw [dropped, head?_bracket s x y, Option.mem_def.1 first] at stops
  simpa using stops

theorem startsWithLetter_bracket (r x y : Text) :
    Text.startsWithLetter (r ++ '>' :: x) = Text.startsWithLetter (r ++ '>' :: y) := by
  cases r <;> rfl

/-! ### What ends keys and values -/

section Stable

variable {pairs : List Delimiters} {s t : Text}

theorem Template.stops_of_skim {stops : Text → Bool} (last : stops [] = true) {u taken rest : Text}
    (read : Template.skim pairs stops u = (taken, rest)) : stops rest = true := by
  have stopped := Template.skim_stops pairs stops u
  rw [read] at stopped
  cases rest with
  | nil => exact last
  | cons c rest => exact stopped (by simp)

theorem skim_eq_append {stops : Text → Bool} {u rest : Text}
    (read : (Template.skim pairs stops u).2 = rest) :
    ∃ taken, u = taken ++ rest ∧ Template.skim pairs stops (taken ++ rest) = (taken, rest) := by
  have joined := Template.skim_append pairs stops u
  rw [read] at joined
  refine ⟨(Template.skim pairs stops u).1, joined.symm, ?_⟩
  rw [joined]
  exact Prod.ext rfl read

theorem opener?_nil_eq_none (pairs : List Delimiters) : Template.opener? pairs [] [] = none := by
  rw [Template.opener?_eq_none_iff]
  intro pair _ nonempty starts
  exact nonempty (List.prefix_nil.1 starts)

theorem endsValue_nil (pairs : List Delimiters) : endsValue pairs [] = true := by
  simp [endsValue, opener?_nil_eq_none]

theorem endsKey_nil (pairs : List Delimiters) : endsKey pairs [] = true := by
  simp [endsKey, opener?_nil_eq_none]

/-- Whether an attribute in `w` that was read before the first text is ended by the second as
well. -/
structure EndsAlike (pairs : List Delimiters) (w s t : Text) : Prop where
  quiet : Quiet pairs w s t
  value : endsValue pairs s = true → endsValue pairs t = true
  key : endsKey pairs s = true → endsKey pairs t = true
  sign : (∀ u, s.dropWhile isMarkupSpace ≠ '=' :: u) → ∀ u, t.dropWhile isMarkupSpace ≠ '=' :: u

theorem endsValue_cons (pairs : List Delimiters) (c : Char) (u : Text) :
    endsValue pairs (c :: u) =
      ((isMarkupSpace c || c == '>') && (Template.opener? pairs (c :: u) []).isNone) := rfl

/-- Texts that begin alike, up to a character that is neither a space nor a slash, end attributes
alike. -/
theorem EndsAlike.within {w u : Text} (alike : EndsAlike pairs w s t) (suffix : u <:+ w) :
    EndsAlike pairs u s t :=
  { alike with quiet := alike.quiet.within suffix }

theorem EndsAlike.append_left {w r : Text} (quiet : Quiet pairs (w ++ r) s t)
    (solid : ∃ c ∈ r, isMarkupSpace c = false ∧ c ≠ '/') :
    EndsAlike pairs w (r ++ s) (r ++ t) := by
  obtain ⟨c, member, other, slash⟩ := solid
  have unopened (plain : (Template.opener? pairs (r ++ s) []).isNone = true) :
      (Template.opener? pairs (r ++ t) []).isNone = true := by
    rw [Option.isNone_iff_eq_none] at plain ⊢
    exact Template.opener?_eq_none_of_quiet (quiet.within (List.suffix_append w r))
      (List.ne_nil_of_mem member) plain
  obtain ⟨d, r', rfl⟩ := List.exists_cons_of_ne_nil (List.ne_nil_of_mem member)
  refine ⟨quiet.append_left, ?_, ?_, ?_⟩
  · intro ends
    rw [List.cons_append, endsValue_cons, Bool.and_eq_true] at ends ⊢
    exact ⟨ends.1, unopened ends.2⟩
  · intro ends
    rw [List.cons_append, endsKey_cons, Bool.and_eq_true] at ends ⊢
    refine ⟨?_, unopened ends.2⟩
    -- A slash in front is not the solid character, so the one after it is the same too.
    cases r' with
    | nil =>
      obtain rfl := List.mem_singleton.1 member
      simpa [slash] using ends.1
    | cons e r' => exact ends.1
  · obtain ⟨e, left, shown⟩ : ∃ e left, (d :: r').dropWhile isMarkupSpace = e :: left := by
      refine List.exists_cons_of_ne_nil fun all => ?_
      have joined := List.takeWhile_append_dropWhile (p := isMarkupSpace) (l := d :: r')
      rw [all, List.append_nil] at joined
      have spaces := List.all_eq_true.1 (List.all_takeWhile (p := isMarkupSpace) (l := d :: r'))
      rw [joined] at spaces
      rw [spaces c member] at other
      contradiction
    have dropped (z : Text) : (d :: r' ++ z).dropWhile isMarkupSpace = e :: (left ++ z) := by
      rw [List.dropWhile_append, shown]
      rfl
    intro plain u same
    rw [dropped] at same
    obtain ⟨rfl, _⟩ := List.cons.inj same
    exact plain (left ++ s) (dropped s)

namespace Attribute

/-- Whether the attribute would go on past the end of the source: it lacks its closing quote, or
ends inside a template region. -/
def isOpen (pairs : List Delimiters) (entry : Attribute) : Bool :=
  match entry.assignment with
  | some a => if a.quote.isSome then !a.isClosed else Template.endsInside pairs a.value.text
  | none => Template.endsInside pairs entry.keyText

/-- Whether the attribute, written right before `next`, takes none of it: an empty value would, and
so would a key with a slash at its end. -/
def leaves (next : Text) (entry : Attribute) : Bool :=
  match entry.assignment with
  | some a => a.quote.isSome || !a.value.text.isEmpty
  | none => !(next.head? == some '>' && entry.keyText.getLast? == some '/')

end Attribute

/-- The key of an attribute is read again before what ends keys alike. -/
theorem scanKey_stable {k : Text} {key : Option Fragment} (quiet : Quiet pairs k s t)
    (inside : s = [] → Template.endsInside pairs k = false)
    (ends : endsKey pairs s = true → endsKey pairs t = true)
    (slash : k.getLast? = some '/' → t.head? = some '>' → s.head? = some '>')
    (sign : k = [] → (t.head? = some '=' ↔ s.head? = some '='))
    (read : Attribute.scanKey pairs (k ++ s) = (key, s)) :
    ∃ key', Attribute.scanKey pairs (k ++ t) = (key', t) ∧
      key'.map Fragment.bare = key.map Fragment.bare := by
  have head : ((k ++ t).head? == some '=') = ((k ++ s).head? == some '=') := by
    cases k with
    | nil => exact Bool.eq_iff_iff.2 (by simpa using sign rfl)
    | cons c k => rfl
  unfold Attribute.scanKey at read ⊢
  rw [head]
  split at read
  next assigns =>
    simp only [Prod.mk.injEq] at read
    obtain ⟨rfl, same⟩ := read
    have nothing : k = [] := List.append_left_eq_self.1 same
    rw [if_pos assigns, nothing]
    exact ⟨none, rfl, rfl⟩
  next names =>
    simp only [Prod.mk.injEq] at read
    obtain ⟨rfl, rest⟩ := read
    obtain ⟨taken, same, skimmed⟩ := skim_eq_append rest
    obtain rfl := List.append_cancel_right same
    have again : Template.skim pairs (endsKey pairs) (k ++ t) = (k, t) := by
      refine Template.skim_stable_stop quiet inside (fun c u suffix asked runs => ?_)
        (ends (Template.stops_of_skim (endsKey_nil pairs) skimmed)) skimmed
      simp only [List.cons_append, endsKey_cons] at asked runs ⊢
      rw [← Option.not_isSome] at runs ⊢
      rw [← asked]
      rw [Bool.and_eq_false_iff] at runs ⊢
      refine runs.imp_left fun plain => ?_
      rw [Bool.or_eq_false_iff] at plain ⊢
      refine ⟨plain.1, ?_⟩
      -- Only a slash at the end of the key is read together with what comes after the key.
      cases u with
      | cons d u => exact plain.2
      | nil =>
        rw [Bool.and_eq_false_iff]
        by_cases final : c = '/'
        · subst final
          refine Or.inr (Bool.eq_false_iff.2 fun bracket => ?_)
          have last : k.getLast? = some '/' := by
            obtain ⟨front, rfl⟩ := suffix
            simp
          have before := slash last (by simpa using bracket)
          simp [before] at plain
        · exact Or.inl (by simpa using final)
    rw [if_neg names, again, skimmed]
    exact ⟨_, rfl, rfl⟩

/-! ### Values and attributes -/

/-- A value that begins with no quote ends where a bare value does. -/
theorem scanValue_unquoted {u : Text} (plain : ∀ c ∈ u.head?, (c == '"' || c == '\'') = false) :
    Assignment.scanValue pairs u =
      (none, Fragment.ofText pairs (Template.skim pairs (endsValue pairs) u).1
        (Template.skim pairs (endsValue pairs) u).2, false,
        (Template.skim pairs (endsValue pairs) u).2) := by
  cases u with
  | nil => simp [Assignment.scanValue, Template.skim]
  | cons c u => simp [Assignment.scanValue, plain c (by simp)]

theorem scanValue_quoted {c : Char} (quoted : (c == '"' || c == '\'') = true) (u : Text) :
    Assignment.scanValue pairs (c :: u) =
      (some c, Fragment.ofText pairs (Template.skim pairs (fun v => v.head? == some c) u).1
        (Template.skim pairs (fun v => v.head? == some c) u).2,
        !(Template.skim pairs (fun v => v.head? == some c) u).2.isEmpty,
        (Template.skim pairs (fun v => v.head? == some c) u).2.tail) := by
  simp only [Assignment.scanValue, quoted, if_true]

/-- A quoted value is read again up to its closing quote, whatever comes after that. -/
theorem quotedValue_stable {w u : Text} {c : Char} (quiet : Quiet pairs w s t)
    (quoted : (c == '"' || c == '\'') = true) (whole : w ++ s = c :: u) {quote : Option Char}
    {value : Fragment} {isClosed : Bool} (closes : s = [] → quote.isSome = true → isClosed = true)
    (read : Assignment.scanValue pairs (c :: u) = (quote, value, isClosed, s)) :
    ∃ value', Assignment.scanValue pairs (w ++ t) = (quote, value', isClosed, t) ∧
      value'.bare = value.bare := by
  simp only [scanValue_quoted quoted, Prod.mk.injEq] at read
  obtain ⟨rfl, same, closed, rest⟩ := read
  -- What is left of the text begins with the closing quote.
  have ended : (Template.skim pairs (fun v => v.head? == some c) u).2 = c :: s := by
    have stops := Template.skim_stops pairs (fun v => v.head? == some c) u
    cases after : (Template.skim pairs (fun v => v.head? == some c) u).2 with
    | nil =>
      rw [after] at rest closed
      have := closes rest.symm rfl
      rw [this] at closed
      simp at closed
    | cons d others =>
      simp only [after, List.tail_cons] at rest stops
      have close : d = c := by simpa using stops (by simp)
      rw [close, rest]
  obtain ⟨taken, rfl, skimmed⟩ := skim_eq_append ended
  have shape : w = c :: (taken ++ [c]) := by
    have joined : w ++ s = c :: (taken ++ [c]) ++ s := by simpa using whole
    exact List.append_cancel_right joined
  have quietWithin : Quiet pairs (taken ++ [c]) s t :=
    quiet.within ⟨[c], by rw [shape]; rfl⟩
  have again : Template.skim pairs (fun v => v.head? == some c) (taken ++ c :: t) =
      (taken, c :: t) :=
    Template.skim_stable_stop quietWithin.append_left (by simp)
      (fun d v _ _ runs => by simpa using runs) (by simp) skimmed
  refine ⟨Fragment.ofText pairs taken (c :: t), ?_, ?_⟩
  · rw [shape, List.cons_append, List.append_assoc, List.singleton_append,
      scanValue_quoted quoted, again, ← closed, ended]
    rfl
  · rw [← same, skimmed]
    rfl

/-- A value without quotes is read again before what ends values alike, an empty one only where
what comes after begins as before. -/
theorem unquotedValue_stable {w : Text} (follows : EndsAlike pairs w s t) {quote : Option Char}
    {value : Fragment} {isClosed : Bool}
    (plain : ∀ c ∈ (w ++ s).head?, (c == '"' || c == '\'') = false)
    (inside : s = [] → quote = none → Template.endsInside pairs value.text = false)
    (empty : quote = none → value.text = [] → t.head? = s.head?)
    (read : Assignment.scanValue pairs (w ++ s) = (quote, value, isClosed, s)) :
    ∃ value', Assignment.scanValue pairs (w ++ t) = (quote, value', isClosed, t) ∧
      value'.bare = value.bare := by
  simp only [scanValue_unquoted plain, Prod.mk.injEq] at read
  obtain ⟨rfl, same, rfl, rest⟩ := read
  obtain ⟨taken, split, skimmed⟩ := skim_eq_append rest
  obtain rfl := List.append_cancel_right split
  rw [skimmed] at same
  have text : value.text = w := by rw [← same]; rfl
  have ends : endsValue pairs t = true :=
    follows.value (Template.stops_of_skim (endsValue_nil pairs) skimmed)
  have again : Template.skim pairs (endsValue pairs) (w ++ t) = (w, t) := by
    refine Template.skim_stable_stop follows.quiet (fun last => text ▸ inside last rfl)
      (fun d v _ asked runs => ?_) ends skimmed
    simp only [List.cons_append, endsValue_cons] at asked runs ⊢
    rw [← Option.not_isSome] at runs ⊢
    rw [← asked]
    exact runs
  -- The value begins with the same character, so it has no quote either.
  have head : (w ++ t).head? = (w ++ s).head? := by
    cases w with
    | cons c w => rfl
    | nil => exact empty rfl text
  rw [← head] at plain
  refine ⟨Fragment.ofText pairs w t, ?_, by rw [← same]; rfl⟩
  rw [scanValue_unquoted plain, again]

/-- A value is read again before what ends values alike. -/
theorem scanValue_stable {w : Text} (follows : EndsAlike pairs w s t) {quote : Option Char}
    {value : Fragment} {isClosed : Bool}
    (closes : s = [] → quote.isSome = true → isClosed = true)
    (inside : s = [] → quote = none → Template.endsInside pairs value.text = false)
    (empty : quote = none → value.text = [] → t.head? = s.head?)
    (read : Assignment.scanValue pairs (w ++ s) = (quote, value, isClosed, s)) :
    ∃ value', Assignment.scanValue pairs (w ++ t) = (quote, value', isClosed, t) ∧
      value'.bare = value.bare := by
  by_cases plain : ∀ c ∈ (w ++ s).head?, (c == '"' || c == '\'') = false
  · exact unquotedValue_stable follows plain inside empty read
  · simp only [Classical.not_forall] at plain
    obtain ⟨c, first, quoted⟩ := plain
    obtain ⟨u, whole⟩ := List.head?_eq_some_iff.1 first
    rw [whole] at read
    exact quotedValue_stable follows.quiet (eq_true_of_ne_false quoted) whole closes read

theorem assignment_stable {beforeSign v : Text} (follows : EndsAlike pairs v s t)
    {assigned : Assignment}
    (closes : s = [] → assigned.quote.isSome = true → assigned.isClosed = true)
    (inside : s = [] → assigned.quote = none →
      Template.endsInside pairs assigned.value.text = false)
    (empty : assigned.quote = none → assigned.value.text = [] → t.head? = s.head?)
    (read : Assignment.scan pairs beforeSign (v ++ s) = (assigned, s)) :
    ∃ assigned', Assignment.scan pairs beforeSign (v ++ t) = (assigned', t) ∧
      assigned'.bare = assigned.bare := by
  -- The white space before the value and the value itself end before the rest of the tag.
  have split := List.takeWhile_append_dropWhile (p := isMarkupSpace) (l := v ++ s)
  have kept := Assignment.scanValue_append pairs ((v ++ s).dropWhile isMarkupSpace)
  have stops := List.head?_dropWhile_not isMarkupSpace (v ++ s)
  obtain ⟨quote, value, isClosed, valueRead⟩ : ∃ quote value isClosed,
      Assignment.scanValue pairs ((v ++ s).dropWhile isMarkupSpace) =
        (quote, value, isClosed, s) := by
    simp only [Assignment.scan, Prod.mk.injEq] at read
    exact ⟨_, _, _, Prod.ext rfl (Prod.ext rfl (Prod.ext rfl read.2))⟩
  simp only [Assignment.scan, valueRead, Prod.mk.injEq, and_true] at read
  subst read
  rw [valueRead] at kept
  simp only at kept
  obtain ⟨w, written⟩ : ∃ w, quote.toList ++ value.text ++
      (if isClosed then quote.toList else []) = w := ⟨_, rfl⟩
  obtain ⟨lead, spaces⟩ : ∃ lead, (v ++ s).takeWhile isMarkupSpace = lead := ⟨_, rfl⟩
  rw [written] at kept
  rw [← kept] at valueRead split stops
  rw [spaces, ← List.append_assoc] at split
  obtain rfl := List.append_cancel_right split
  obtain ⟨value', again, bare⟩ := scanValue_stable
    (follows.within (List.suffix_append lead w)) closes inside empty valueRead
  have head : (w ++ t).head? = (w ++ s).head? := by
    cases w with
    | cons c w => rfl
    | nil =>
      simp only [List.append_eq_nil_iff, Option.toList_eq_nil_iff] at written
      exact empty written.1.1 written.1.2
  have spans : (lead ++ (w ++ t)).takeWhile isMarkupSpace = lead ∧
      (lead ++ (w ++ t)).dropWhile isMarkupSpace = w ++ t := by
    refine Text.span_append (fun c member => ?_) fun c first => ?_
    · rw [← spaces] at member
      exact List.all_eq_true.1 List.all_takeWhile c member
    · rw [head] at first
      rw [Option.mem_def.1 first] at stops
      simpa using stops
  refine ⟨⟨beforeSign, lead, quote, value', isClosed⟩, ?_, ?_⟩
  · rw [List.append_assoc]
    simp only [Assignment.scan, spans, again]
  · simp only [Assignment.bare, bare, spaces]

/-- An attribute is a key with what is assigned to it, or a key alone. -/
private theorem scan_cases {u rest : Text} {entry : Attribute}
    (read : Attribute.scan pairs u = (entry, rest)) :
    (∃ key lead v assigned, Attribute.scanKey pairs u = (key, lead ++ '=' :: v) ∧
      (∀ c ∈ lead, isMarkupSpace c = true) ∧
      Assignment.scan pairs lead v = (assigned, rest) ∧ entry = ⟨key, some assigned⟩) ∨
    ∃ key, Attribute.scanKey pairs u = (key, rest) ∧
      (∀ v, rest.dropWhile isMarkupSpace ≠ '=' :: v) ∧ entry = ⟨key, none⟩ := by
  obtain ⟨key, after, keyRead⟩ : ∃ key after, Attribute.scanKey pairs u = (key, after) :=
    ⟨_, _, rfl⟩
  simp only [Attribute.scan, keyRead] at read ⊢
  split at read
  next v assigns =>
    left
    simp only [Prod.mk.injEq] at read
    obtain ⟨rfl, rest⟩ := read
    have split := List.takeWhile_append_dropWhile (p := isMarkupSpace) (l := after)
    rw [assigns] at split
    refine ⟨key, after.takeWhile isMarkupSpace, v, _, ?_, ?_, Prod.ext rfl rest, rfl⟩
    · rw [split]
    · exact List.all_eq_true.1 List.all_takeWhile
  next other =>
    right
    simp only [Prod.mk.injEq] at read
    obtain ⟨rfl, rfl⟩ := read
    exact ⟨key, rfl, other, rfl⟩

private theorem scan_assigned {u lead v rest : Text} {key : Option Fragment}
    {assigned : Assignment} (keyRead : Attribute.scanKey pairs u = (key, lead ++ '=' :: v))
    (blank : ∀ c ∈ lead, isMarkupSpace c = true)
    (value : Assignment.scan pairs lead v = (assigned, rest)) :
    Attribute.scan pairs u = (⟨key, some assigned⟩, rest) := by
  have spans := Text.span_append (s := lead) (t := '=' :: v) blank
    (fun c first => by cases first; decide)
  simp only [Attribute.scan, keyRead, spans, value]

/-- An attribute is read again before a text that ends attributes alike, unless it takes some of
it. -/
theorem attribute_stable {entry : Attribute} (follows : EndsAlike pairs entry.render s t)
    (closed : s = [] → entry.isOpen pairs = false)
    (leaves : t.head? = s.head? ∨ entry.leaves t = true)
    (read : Attribute.scan pairs (entry.render ++ s) = (entry, s)) :
    ∃ entry', Attribute.scan pairs (entry.render ++ t) = (entry', t) ∧
      entry'.bare = entry.bare := by
  rcases scan_cases read with
    ⟨key, lead, u, assigned, keyRead, blank, value, rfl⟩ | ⟨key, keyRead, other, rfl⟩
  · have own : assigned.beforeSign = lead := by
      have given : (Assignment.scan pairs lead u).1.beforeSign = lead := rfl
      rwa [value] at given
    -- Up to its equals sign the assignment is what ends the key.
    obtain ⟨w, shape⟩ : ∃ w, assigned.render = lead ++ '=' :: w :=
      ⟨assigned.afterSign ++ assigned.quoteText ++ assigned.value.text ++
        (if assigned.isClosed then assigned.quoteText else []), by simp [Assignment.render, own]⟩
    have rendered := Assignment.render_scan pairs lead u
    rw [value, shape] at rendered
    obtain rfl : w ++ s = u := by simpa using rendered
    have text (z : Text) : (⟨key, some assigned⟩ : Attribute).render ++ z =
        (key.map Fragment.text).getD [] ++ (lead ++ '=' :: w ++ z) := by
      simp [Attribute.render, Attribute.keyText, shape]
    have goesOn (z : Text) : lead ++ '=' :: w ++ z = lead ++ '=' :: (w ++ z) := by simp
    rw [text, ← goesOn] at keyRead
    have own : (⟨key, some assigned⟩ : Attribute).render =
        (key.map Fragment.text).getD [] ++ (lead ++ '=' :: w) := by
      simpa using text []
    rw [own] at follows
    have alike : EndsAlike pairs ((key.map Fragment.text).getD []) (lead ++ '=' :: w ++ s)
        (lead ++ '=' :: w ++ t) :=
      EndsAlike.append_left follows.quiet ⟨'=', by simp, by decide, by decide⟩
    have head : (lead ++ '=' :: w ++ t).head? = (lead ++ '=' :: w ++ s).head? := by
      cases lead <;> rfl
    obtain ⟨key', keyAgain, keyBare⟩ := scanKey_stable alike.quiet (by simp) alike.key
      (fun _ bracket => head ▸ bracket) (fun _ => by rw [head]) keyRead
    obtain ⟨assigned', assignedAgain, assignedBare⟩ := assignment_stable
      (follows.within ⟨(key.map Fragment.text).getD [] ++ (lead ++ ['=']), by simp⟩)
      (fun last quoted => by simpa [Attribute.isOpen, quoted] using closed last)
      (fun last plain => by simpa [Attribute.isOpen, plain] using closed last)
      (fun plain none_written => by
        rcases leaves with head | leaves
        · exact head
        · simp [Attribute.leaves, plain, none_written] at leaves) value
    rw [goesOn] at keyAgain
    refine ⟨⟨key', some assigned'⟩, ?_, by simp [Attribute.bare, keyBare, assignedBare]⟩
    rw [text, goesOn]
    exact scan_assigned keyAgain blank assignedAgain
  · have text : (⟨key, none⟩ : Attribute).render = (key.map Fragment.text).getD [] := by
      simp [Attribute.render, Attribute.keyText]
    have own : (⟨key, none⟩ : Attribute).keyText = (key.map Fragment.text).getD [] := rfl
    rw [text] at keyRead follows ⊢
    obtain ⟨key', keyAgain, keyBare⟩ := scanKey_stable follows.quiet
      (fun last => by simpa [Attribute.isOpen, own] using closed last) follows.key
      (fun final bracket => by
        rcases leaves with head | leaves
        · exact head ▸ bracket
        · simp [Attribute.leaves, own, final, bracket] at leaves)
      (fun _ => by
        have none_before : s.head? ≠ some '=' := fun begins => by
          obtain ⟨u, rfl⟩ := List.head?_eq_some_iff.1 begins
          exact other u rfl
        have none_after : t.head? ≠ some '=' := fun begins => by
          obtain ⟨u, rfl⟩ := List.head?_eq_some_iff.1 begins
          exact follows.sign other u rfl
        simp [none_before, none_after]) keyRead
    refine ⟨⟨key', none⟩, ?_, by simp [Attribute.bare, keyBare]⟩
    simp only [Attribute.scan, keyAgain]
    split
    next u assigns => exact absurd assigns (follows.sign other u)
    · rfl

/-! ### What separates attributes -/

theorem splitGap_stable {g r : Text} (solid : ∃ c ∈ r, isMarkupSpace c = false ∧ c ≠ '/')
    (read : splitGap (g ++ (r ++ s)) = (g, r ++ s)) :
    splitGap (g ++ (r ++ t)) = (g, r ++ t) := by
  obtain ⟨c, member, other, slash⟩ := solid
  obtain ⟨d, r', rfl⟩ := List.exists_cons_of_ne_nil (List.ne_nil_of_mem member)
  induction g with
  | nil =>
    -- A slash is not the solid character, so the one after it stands in both texts.
    have head : (d == '/' && (r' ++ t).head? == some '>') =
        (d == '/' && (r' ++ s).head? == some '>') := by
      cases r' with
      | nil =>
        obtain rfl := List.mem_singleton.1 member
        have apart : (c == '/') = false := by simpa using slash
        rw [apart, Bool.false_and, Bool.false_and]
      | cons e r' => rfl
    simp only [List.nil_append, List.cons_append, splitGap, head] at read ⊢
    split
    · rfl
    next open_ =>
      rw [if_neg open_] at read
      split
      next separates => simp [separates] at read
      · rfl
  | cons e g ih =>
    have head : (g ++ (d :: r' ++ t)).head? = (g ++ (d :: r' ++ s)).head? := by
      cases g <;> rfl
    simp only [List.cons_append, splitGap] at head read ih ⊢
    rw [head]
    split at read
    · simp at read
    next open_ =>
      split at read
      next separates =>
        simp only [Prod.mk.injEq, List.cons.injEq, true_and] at read
        rw [if_neg open_, if_pos separates, ih (Prod.ext read.1 read.2)]
      · simp at read

theorem ending_stable {r : Text} (solid : ∃ c ∈ r, isMarkupSpace c = false ∧ c ≠ '/')
    (read : Ending.scan? (r ++ s) = none) : Ending.scan? (r ++ t) = none := by
  obtain ⟨c, member, _, slash⟩ := solid
  match r, member, read with
  | [d], member, read =>
    obtain rfl := List.mem_singleton.1 member
    simp only [List.singleton_append] at read ⊢
    unfold Ending.scan? at read ⊢
    split at read <;> simp_all
  | d :: e :: r, _, read =>
    simp only [List.cons_append] at read ⊢
    unfold Ending.scan? at read ⊢
    split at read <;> simp_all

/-- An attribute begins with a character that does not separate attributes. -/
theorem solid_of_scan? (pairs : List Delimiters) {u : Text}
    (goesOn : Ending.scan? (splitGap u).2 = none) :
    ∃ c ∈ (Attribute.scan pairs (splitGap u).2).1.render, isMarkupSpace c = false ∧ c ≠ '/' := by
  obtain ⟨c, r, shown, runs⟩ := endsKey_splitGap pairs goesOn
  have kept := Attribute.render_scan pairs (splitGap u).2
  have shorter := Attribute.scan_rest_lt pairs c r runs
  rw [shown] at kept goesOn ⊢
  -- The attribute is not empty, so its first character is the one after the gap.
  obtain ⟨d, others, written⟩ : ∃ d others,
      (Attribute.scan pairs (c :: r)).1.render = d :: others := by
    refine List.exists_cons_of_ne_nil fun empty => ?_
    rw [empty, List.nil_append] at kept
    rw [kept] at shorter
    exact Nat.lt_irrefl _ shorter
  rw [written] at kept ⊢
  obtain ⟨rfl, _⟩ := List.cons.inj kept
  refine ⟨d, List.mem_cons_self, ?_⟩
  clear kept shorter runs
  fun_induction splitGap u with
  | case1 => simp at shown
  | case2 c' u closes =>
    obtain ⟨rfl, rfl⟩ := List.cons.inj shown
    simp only [Bool.and_eq_true, beq_iff_eq] at closes
    obtain ⟨rfl, next⟩ := closes
    obtain ⟨tail, rfl⟩ := List.head?_eq_some_iff.1 next
    simp [Ending.scan?] at goesOn
  | case3 c' u _ _ sides ih => exact ih shown
  | case4 c' u _ separates =>
    obtain ⟨rfl, rfl⟩ := List.cons.inj shown
    simpa using separates

namespace OpenTag

theorem scanAttributes_end {u rest : Text} {ending : Ending}
    (found : Ending.scan? (splitGap u).2 = some (ending, rest)) :
    scanAttributes pairs u = ([], (splitGap u).1, ending, rest) := by
  rw [scanAttributes]
  split
  next found' =>
    rw [found] at found'
    cases found'
    rfl
  next found' =>
    rw [found] at found'
    contradiction

theorem scanAttributes_attribute {u : Text} (goesOn : Ending.scan? (splitGap u).2 = none) :
    scanAttributes pairs u =
      (((splitGap u).1, (Attribute.scan pairs (splitGap u).2).1) ::
        (scanAttributes pairs (Attribute.scan pairs (splitGap u).2).2).1,
        (scanAttributes pairs (Attribute.scan pairs (splitGap u).2).2).2) := by
  rw [scanAttributes]
  split
  next found =>
    rw [goesOn] at found
    contradiction
  · rfl

def renderAttributes (attributes : List (Text × Attribute)) : Text :=
  attributes.flatMap fun entry => entry.1 ++ entry.2.render

theorem renderAttributes_cons (entry : Text × Attribute) (others : List (Text × Attribute)) :
    renderAttributes (entry :: others) =
      entry.1 ++ (entry.2.render ++ renderAttributes others) := by
  simp [renderAttributes]

/-- Attributes that are read begin with a character that ends no attribute, after the gap. -/
theorem solid_of_scanAttributes {u : Text} {first : Text × Attribute}
    {others : List (Text × Attribute)}
    (read : (scanAttributes pairs u).1 = first :: others) :
    ∃ c ∈ renderAttributes (first :: others), isMarkupSpace c = false ∧ c ≠ '/' := by
  cases found : Ending.scan? (splitGap u).2 with
  | some stop =>
    rw [scanAttributes_end found] at read
    simp at read
  | none =>
    obtain ⟨c, member, solid⟩ := solid_of_scan? pairs found
    rw [scanAttributes_attribute found, List.cons.injEq] at read
    rw [renderAttributes_cons, ← read.1]
    exact ⟨c, by simp [member], solid⟩

/-- The end of an opening tag as written, with what comes after it. -/
def tailText (gap : Text) (ending : Ending) (rest : Text) : Text :=
  gap ++ ending.render ++ rest

end OpenTag

/-! ### Tags -/

open OpenTag in
/-- After an attribute comes another one, which begins alike, or else the end of the tag. -/
private theorem others_alike {v old tail : Text} {entry : Attribute}
    {others : List (Text × Attribute)} (read : (scanAttributes pairs v).1 = others)
    (follows : EndsAlike pairs (entry.render ++ renderAttributes others) old tail)
    (closed : others = [] → old = [] → entry.isOpen pairs = false)
    (leaves : others = [] → tail.head? = old.head? ∨ entry.leaves tail = true) :
    EndsAlike pairs entry.render (renderAttributes others ++ old)
        (renderAttributes others ++ tail) ∧
      (renderAttributes others ++ old = [] → entry.isOpen pairs = false) ∧
      ((renderAttributes others ++ tail).head? = (renderAttributes others ++ old).head? ∨
        entry.leaves (renderAttributes others ++ tail) = true) := by
  cases others with
  | nil =>
    rw [renderAttributes, List.flatMap_nil, List.append_nil] at follows
    exact ⟨follows, closed rfl, leaves rfl⟩
  | cons second others =>
    have among := solid_of_scanAttributes read
    obtain ⟨c, r, shown⟩ := List.exists_cons_of_ne_nil (List.ne_nil_of_mem among.choose_spec.1)
    refine ⟨EndsAlike.append_left follows.quiet among, fun last => ?_, Or.inl ?_⟩
    · rw [shown] at last
      simp at last
    · rw [shown]
      rfl

open OpenTag in
/-- Attributes are read again before another end of the tag that ends attributes alike. -/
theorem attributes_stable {u tail : Text} {attributes : List (Text × Attribute)}
    {gap gap' : Text} {ending ending' : Ending} {rest rest' : Text}
    (read : scanAttributes pairs u = (attributes, gap, ending, rest))
    (follows : EndsAlike pairs (renderAttributes attributes) (tailText gap ending rest) tail)
    (closed : ∀ entry ∈ attributes.getLast?, tailText gap ending rest = [] →
      entry.2.isOpen pairs = false)
    (leaves : ∀ entry ∈ attributes.getLast?,
      tail.head? = (tailText gap ending rest).head? ∨ entry.2.leaves tail = true)
    (ends : scanAttributes pairs tail = ([], gap', ending', rest')) :
    ∃ attributes', scanAttributes pairs (renderAttributes attributes ++ tail) =
        (attributes', gap', ending', rest') ∧
      attributes'.map (fun entry => (entry.1, entry.2.bare)) =
        attributes.map fun entry => (entry.1, entry.2.bare) := by
  -- From the last attribute to the first: what ends one is what is read of those after it.
  induction attributes generalizing u with
  | nil => exact ⟨[], ends, rfl⟩
  | cons first others ih =>
    cases found : Ending.scan? (splitGap u).2 with
    | some stop =>
      rw [scanAttributes_end found] at read
      simp at read
    | none =>
      obtain ⟨g, v, gapRead⟩ : ∃ g v, splitGap u = (g, v) := ⟨_, _, rfl⟩
      obtain ⟨entry, after, entryRead⟩ : ∃ entry after, Attribute.scan pairs v = (entry, after) :=
        ⟨_, _, rfl⟩
      have solid := solid_of_scan? pairs found
      have kept := Attribute.render_scan pairs v
      have gapText := splitGap_append u
      rw [scanAttributes_attribute found, Prod.mk.injEq, List.cons.injEq] at read
      simp only [gapRead, entryRead] at read solid kept gapText found
      obtain ⟨⟨rfl, othersRead⟩, endRead⟩ := read
      have onward : scanAttributes pairs after = (others, gap, ending, rest) :=
        Prod.ext othersRead endRead
      have joined := scanAttributes_append pairs after
      rw [onward] at joined
      have whole : renderAttributes others ++ tailText gap ending rest = after := by
        rw [← joined]
        simp [renderAttributes, tailText]
      subst whole
      subst kept
      subst gapText
      rw [renderAttributes_cons] at follows
      obtain ⟨alike, ended, taken⟩ := others_alike othersRead
        (follows.within (List.suffix_append g _))
        (fun last => closed (g, entry) (by simp [last]))
        (fun last => leaves (g, entry) (by simp [last]))
      have final {last : Text × Attribute} (member : last ∈ others.getLast?) :
          last ∈ ((g, entry) :: others).getLast? := by
        rw [List.getLast?_cons, Option.mem_def.1 member]
        rfl
      obtain ⟨others', scanned, bare⟩ := ih onward
        (follows.within ⟨g ++ entry.render, by simp⟩)
        (fun last member => closed last (final member))
        (fun last member => leaves last (final member))
      obtain ⟨entry', entryAgain, entryBare⟩ := attribute_stable alike ended taken entryRead
      have gapAgain := splitGap_stable (t := renderAttributes others ++ tail) solid gapRead
      have goesOn := ending_stable (t := renderAttributes others ++ tail) solid found
      refine ⟨(g, entry') :: others', ?_, by simp [entryBare, bare]⟩
      rw [renderAttributes_cons, List.append_assoc, List.append_assoc,
        scanAttributes_attribute (by rw [gapAgain]; exact goesOn), gapAgain, entryAgain, scanned]

open OpenTag in
/-- What ends the attributes ends them also where there are none. -/
theorem scanAttributes_tail {u : Text} {attributes : List (Text × Attribute)} {gap : Text}
    {ending : Ending} {rest : Text}
    (read : scanAttributes pairs u = (attributes, gap, ending, rest)) :
    splitGap (tailText gap ending rest) = (gap, ending.render ++ rest) ∧
      Ending.scan? (ending.render ++ rest) = some (ending, rest) ∧
      u = renderAttributes attributes ++ tailText gap ending rest := by
  -- Whether an end is found after the gap tells which case of the list it is.
  induction attributes generalizing u with
  | nil =>
    cases found : Ending.scan? (splitGap u).2 with
    | none =>
      rw [scanAttributes_attribute found] at read
      simp at read
    | some stop =>
      obtain ⟨ending', rest'⟩ := stop
      have gapText := splitGap_append u
      have written := Ending.render_scan? found
      rw [scanAttributes_end found] at read
      cases read
      have shown : tailText (splitGap u).1 ending rest = u := by
        rw [tailText, List.append_assoc, written, gapText]
      exact ⟨by rw [shown]; exact Prod.ext rfl written.symm, written ▸ found, by
        rw [shown]
        rfl⟩
  | cons first others ih =>
    cases found : Ending.scan? (splitGap u).2 with
    | some stop =>
      rw [scanAttributes_end found] at read
      simp at read
    | none =>
      have kept := Attribute.render_scan pairs (splitGap u).2
      have gapText := splitGap_append u
      rw [scanAttributes_attribute found, Prod.mk.injEq, List.cons.injEq] at read
      obtain ⟨⟨rfl, othersRead⟩, endRead⟩ := read
      obtain ⟨gapRead, ended, whole⟩ := ih (Prod.ext othersRead endRead)
      refine ⟨gapRead, ended, ?_⟩
      rw [renderAttributes_cons, List.append_assoc, List.append_assoc, ← whole, kept, gapText]

open OpenTag in
/-- An opening tag is read again with another end that ends attributes alike. -/
theorem openTag_ended {u rest rest' tail gap' : Text} {tag : OpenTag} {ending' : Ending}
    (read : OpenTag.scan pairs u = (tag, rest))
    (follows : EndsAlike pairs (renderAttributes tag.attributes)
      (tailText tag.gap tag.ending rest) tail)
    (closed : ∀ entry ∈ tag.attributes.getLast?, tailText tag.gap tag.ending rest = [] →
      entry.2.isOpen pairs = false)
    (leaves : ∀ entry ∈ tag.attributes.getLast?,
      tail.head? = (tailText tag.gap tag.ending rest).head? ∨ entry.2.leaves tail = true)
    (edge : tag.attributes = [] → ∀ c ∈ tail.head?, isNameEnd c = true)
    (ends : scanAttributes pairs tail = ([], gap', ending', rest')) :
    ∃ attributes', OpenTag.scan pairs (tag.name ++ (renderAttributes tag.attributes ++ tail)) =
        (⟨tag.name, attributes', gap', ending'⟩, rest') ∧
      attributes'.map (fun entry => (entry.1, entry.2.bare)) =
        tag.attributes.map fun entry => (entry.1, entry.2.bare) := by
  obtain ⟨attributes, gap, ending, scanned⟩ : ∃ attributes gap ending,
      scanAttributes pairs (u.dropWhile fun c => !isNameEnd c) =
        (attributes, gap, ending, rest) := by
    simp only [OpenTag.scan, Prod.mk.injEq] at read
    exact ⟨_, _, _, Prod.ext rfl (Prod.ext rfl (Prod.ext rfl read.2))⟩
  simp only [OpenTag.scan, scanned, Prod.mk.injEq, and_true] at read
  subst read
  obtain ⟨attributes', again, bare⟩ := attributes_stable scanned follows closed leaves ends
  -- The name ends where it did: the first attribute starts with what ended it before, and without
  -- attributes the new tail ends it.
  have whole := (scanAttributes_tail scanned).2.2
  have stops := List.head?_dropWhile_not (fun c => !isNameEnd c) u
  refine ⟨attributes', ?_, bare⟩
  obtain ⟨w, name⟩ : ∃ w, u.takeWhile (fun c => !isNameEnd c) = w := ⟨_, rfl⟩
  have spans : (w ++ (renderAttributes attributes ++ tail)).takeWhile (fun c => !isNameEnd c) = w ∧
      (w ++ (renderAttributes attributes ++ tail)).dropWhile (fun c => !isNameEnd c) =
        renderAttributes attributes ++ tail := by
    refine Text.span_append (fun c member => ?_) fun c first => ?_
    · rw [← name] at member
      exact List.all_eq_true.1 List.all_takeWhile c member
    · cases attributes with
      | nil => simpa using edge rfl c first
      | cons entry others =>
        obtain ⟨d, among, _⟩ := solid_of_scanAttributes (congrArg Prod.fst scanned)
        obtain ⟨e, r, shown⟩ := List.exists_cons_of_ne_nil (List.ne_nil_of_mem among)
        rw [whole, shown] at stops
        rw [shown, List.cons_append, List.head?_cons, Option.mem_some] at first
        rw [← first]
        simpa using stops
  rw [name]
  simp only [OpenTag.scan, spans, again]

open OpenTag in
/-- An opening tag that the text goes on after is read again. -/
theorem openTag_stable {x : Text} (quiet : Quiet pairs x s t) (left : s ≠ []) {tag : OpenTag}
    (read : OpenTag.scan pairs (x ++ s) = (tag, s)) :
    ∃ w tag', x = w ++ ['>'] ∧ OpenTag.scan pairs (w ++ '>' :: t) = (tag', t) ∧
      tag'.bare = tag.bare := by
  obtain ⟨u, shape⟩ : ∃ u, x ++ s = u := ⟨_, rfl⟩
  rw [shape] at read
  obtain ⟨attributes, gap, ending, scanned⟩ : ∃ attributes gap ending,
      scanAttributes pairs (u.dropWhile fun c => !isNameEnd c) = (attributes, gap, ending, s) := by
    simp only [OpenTag.scan, Prod.mk.injEq] at read
    exact ⟨_, _, _, Prod.ext rfl (Prod.ext rfl (Prod.ext rfl read.2))⟩
  obtain ⟨gapRead, ended, whole⟩ := scanAttributes_tail scanned
  have shown : tag = ⟨u.takeWhile (fun c => !isNameEnd c), attributes, gap, ending⟩ := by
    simp only [OpenTag.scan, scanned, Prod.mk.injEq, and_true] at read
    exact read.symm
  subst shown
  -- A tag that the text goes on after ends with a bracket.
  obtain ⟨slash, bracket⟩ : ∃ slash, ending.render = slash ++ ['>'] := by
    cases ending with
    | unfinished =>
      rw [Ending.render, List.nil_append] at ended
      unfold Ending.scan? at ended
      split at ended <;> simp_all
    | plain => exact ⟨[], rfl⟩
    | selfClosing => exact ⟨['/'], rfl⟩
  have solid : ∃ c ∈ ending.render, isMarkupSpace c = false ∧ c ≠ '/' :=
    ⟨'>', by simp [bracket], by decide, by decide⟩
  have gapAgain : splitGap (tailText gap ending t) = (gap, ending.render ++ t) := by
    rw [tailText, List.append_assoc] at gapRead ⊢
    exact splitGap_stable solid gapRead
  have endAgain : Ending.scan? (ending.render ++ t) = some (ending, t) := by
    cases ending with
    | unfinished => simp [Ending.render] at bracket
    | plain | selfClosing => rfl
  have solidTail : ∃ c ∈ gap ++ ending.render, isMarkupSpace c = false ∧ c ≠ '/' := by
    obtain ⟨c, member, other⟩ := solid
    exact ⟨c, List.mem_append_right _ member, other⟩
  have head : (tailText gap ending t).head? = (tailText gap ending s).head? := by
    obtain ⟨c, r, front⟩ := List.exists_cons_of_ne_nil (List.ne_nil_of_mem solidTail.choose_spec.1)
    rw [tailText, tailText, front]
    rfl
  have edge : attributes = [] → ∀ c ∈ (tailText gap ending t).head?, isNameEnd c = true := by
    rintro rfl c first
    have stops := List.head?_dropWhile_not (fun c => !isNameEnd c) u
    rw [whole, show renderAttributes [] ++ tailText gap ending s = tailText gap ending s from rfl,
      ← head, Option.mem_def.1 first] at stops
    simpa using stops
  obtain ⟨name, called⟩ : ∃ name, u.takeWhile (fun c => !isNameEnd c) = name := ⟨_, rfl⟩
  have split := List.takeWhile_append_dropWhile (p := fun c => !isNameEnd c) (l := u)
  rw [whole, called, ← shape] at split
  obtain rfl : x = name ++ (renderAttributes attributes ++ (gap ++ ending.render)) := by
    refine (List.append_left_inj s).1 ?_
    rw [← split]
    simp [tailText]
  have alike : EndsAlike pairs (renderAttributes attributes) (tailText gap ending s)
      (tailText gap ending t) :=
    .append_left (quiet.within (List.suffix_append name _)) solidTail
  obtain ⟨attributes', again, bare⟩ := openTag_ended read alike
    (fun _ _ last => by
      rw [tailText] at last
      simp [left] at last)
    (fun _ _ => Or.inl head) edge
    (by rw [scanAttributes_end (by rw [gapAgain]; exact endAgain), gapAgain])
  refine ⟨name ++ (renderAttributes attributes ++ (gap ++ slash)),
    ⟨name, attributes', gap, ending⟩, ?_, ?_, ?_⟩
  · simp [bracket]
  · simpa [tailText, bracket, called] using again
  · rw [called]
    exact congrArg (fun attributes => (⟨name, attributes, gap, ending⟩ : OpenTag)) bare

/-! ### What ends with a bracket -/

theorem bracket_stable {x t : Text} (left : x ≠ []) {before : Text} {isClosed : Bool}
    (read : scanBracket t = (before, isClosed, x)) :
    t = before ++ '>' :: x ∧ isClosed = true ∧ '>' ∉ before ∧
      ∀ z, scanBracket (before ++ '>' :: z) = (before, true, z) := by
  have free := Piece.bracket_not_mem_splitBefore t
  have joined := splitBefore_append ['>'] t
  simp only [scanBracket, Prod.mk.injEq] at read
  obtain ⟨rfl, rfl, rest⟩ := read
  have nonempty : (splitBefore ['>'] t).2 ≠ [] := by
    intro empty
    rw [empty] at rest
    exact left rest.symm
  obtain ⟨tail, shown⟩ := splitBefore_prefix ['>'] t nonempty
  rw [← shown, List.cons_append, List.nil_append, List.tail_cons] at rest
  subst rest
  rw [← shown] at joined
  refine ⟨joined.symm, by rw [← shown]; rfl, free, fun z => ?_⟩
  simp only [scanBracket, splitBefore_bracket free]
  rfl

theorem rawBody_stable {x y : Text} (left : x ≠ []) {name t : Text} {body : RawBody}
    (free : '>' ∉ name) (read : RawBody.scan pairs name t = (body, x)) :
    ∃ s body', t = s ++ x ∧ RawBody.scan pairs name (s ++ y) = (body', y) ∧
      body'.bare = body.bare := by
  unfold RawBody.scan at read
  split at read
  · exact absurd (Prod.mk.inj read).2 (Ne.symm left)
  next content after found =>
    simp only [Prod.mk.injEq] at read
    obtain ⟨rfl, rest⟩ := read
    obtain ⟨before, isClosed, tail⟩ : ∃ before isClosed, scanBracket after =
      (before, isClosed, x) := ⟨_, _, Prod.ext rfl (Prod.ext rfl rest)⟩
    obtain ⟨rfl, rfl, apart, again⟩ := bracket_stable left tail
    have joined := Text.breakAt?_append found
    have runs := Text.breakAt?_runs found
    have here := Text.breakAt?_found found
    -- The name of the closing tag ends before its bracket.
    have unbracketed : '>' ∉ '<' :: '/' :: name := by simp [free]
    have fits := Text.length_le_of_startsWithName unbracketed here
    have same (u z : Text) : Text.startsWithName ('<' :: '/' :: name) (u ++ (before ++ '>' :: z)) =
        Text.startsWithName ('<' :: '/' :: name) (u ++ before) := by
      have long : ('<' :: '/' :: name).length ≤ (u ++ before).length := by
        rw [List.length_append]
        omega
      rw [← List.append_assoc, Text.startsWithName, Text.startsWithName,
        List.take_append_of_le_length long]
    have broken : Text.breakAt? (Text.startsWithName ('<' :: '/' :: name))
        (content ++ (before ++ '>' :: y)) = some (content, before ++ '>' :: y) := by
      refine Text.breakAt?_eq (fun c r suffix => ?_) (by simp) ?_
      · rw [same, ← same (c :: r) x]
        exact runs c r suffix
      · have named := same [] y
        have namedBefore := same [] x
        rw [List.nil_append] at named namedBefore
        rw [named, ← namedBefore, here]
    refine ⟨content ++ (before ++ ['>']), ⟨Fragment.ofText pairs content (before ++ '>' :: y),
      some (before ++ Piece.bracket true)⟩, ?_, ?_, ?_⟩
    · rw [← joined]
      simp
    · have text : content ++ (before ++ ['>']) ++ y = content ++ (before ++ '>' :: y) := by simp
      rw [text]
      simp only [RawBody.scan, broken, again]
    · simp only [RawBody.bare, tail]
      rfl

end Stable

end Written

end TagLint
