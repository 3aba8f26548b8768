import TagLint.Proofs.Draft
import TagLint.Proofs.Reads

/-!
Printing a draft and parsing the print gives the draft back.

Each scanner is shown to read exactly what was printed of one construct, whatever comes after it;
the pieces of a print are then read one after the other, and the outline of the draft is theirs.
-/
namespace TagLint

open Written (Piece OpenTag Construct isNameEnd)

/-- Whether no template region can start in the text. -/
def Unmarked (pairs : List Delimiters) (t : Text) : Prop :=
  ∀ pair ∈ pairs, pair.opening ≠ [] → ¬pair.opening <:+: t

namespace Unmarked

variable {pairs : List Delimiters} {s t : Text}

theorem right (plain : Unmarked pairs (s ++ t)) : Unmarked pairs t :=
  fun pair member nonempty within =>
    plain pair member nonempty (within.trans (List.suffix_append s t).isInfix)

theorem tail {c : Char} (plain : Unmarked pairs (c :: t)) : Unmarked pairs t :=
  right (s := [c]) plain

theorem opener?_eq_none (plain : Unmarked pairs (s ++ t)) :
    Template.opener? pairs s t = none := by
  cases found : Template.opener? pairs s t with
  | none => rfl
  | some pair =>
    obtain ⟨member, nonempty, starts⟩ := Template.opener?_spec found
    exact absurd starts.isInfix (plain pair member nonempty)

theorem opener?_nil (plain : Unmarked pairs t) : Template.opener? pairs t [] = none :=
  opener?_eq_none (by simpa using plain)

theorem region?_eq_none (plain : Unmarked pairs (s ++ t)) :
    Template.region? pairs s t = none := by
  simp [Template.region?, plain.opener?_eq_none]

theorem ofText (plain : Unmarked pairs (s ++ t)) : Fragment.ofText pairs s t = ⟨s, []⟩ := by
  have undivided : ∀ part ∈ Part.divide pairs t s, part.isTemplate = false := by
    induction s with
    | nil => simp [Part.divide]
    | cons c s ih =>
      have further := ih plain.tail
      rw [Part.divide]
      split
      next region rest found => simp [plain.region?_eq_none] at found
      · unfold Part.consPlain
        split
        · simp_all
        · simp_all
  have none_template : (Part.divide pairs t s).any Part.isTemplate = false := by
    simpa using undivided
  simp [Fragment.ofText, none_template]

/-- Skimming text without regions goes up to the first place that stops it. -/
theorem skim {stops : Text → Bool} (plain : Unmarked pairs (s ++ t))
    (runs : ∀ c r, c :: r <:+ s → stops (c :: r ++ t) = false)
    (ends : t ≠ [] → stops t = true) : Template.skim pairs stops (s ++ t) = (s, t) := by
  induction s with
  | nil =>
    cases t with
    | nil => simp [Template.skim]
    | cons c t =>
      have here := ends (List.cons_ne_nil c t)
      simp [Template.skim, here]
  | cons c s ih =>
    have here := runs c s (List.suffix_refl _)
    have onward := ih plain.tail fun d r suffix => runs d r (suffix.trans (List.suffix_cons c s))
    have whole : Unmarked pairs (c :: (s ++ t) ++ []) := by simpa using plain
    rw [List.cons_append] at here ⊢
    rw [Template.skim_char here whole.region?_eq_none, onward]

end Unmarked

/-! ### Reading what is printed of a tag -/

namespace Written

theorem scanKey_print {pairs : List Delimiters} {key t : Text} (nonempty : key ≠ [])
    (runs : ∀ c ∈ key, isMarkupSpace c = false ∧ c ≠ '>' ∧ c ≠ '=' ∧ c ≠ '/')
    (plain : Unmarked pairs (key ++ t)) (ends : t ≠ [] → endsKey pairs t = true) :
    Attribute.scanKey pairs (key ++ t) = (some ⟨key, []⟩, t) := by
  have skimmed : Template.skim pairs (endsKey pairs) (key ++ t) = (key, t) := by
    refine plain.skim ?_ ends
    intro c r suffix
    obtain ⟨space, bracket, sign, slash⟩ := runs c (suffix.subset List.mem_cons_self)
    rw [List.cons_append, endsKey_cons]
    simp [space, bracket, sign, slash]
  cases key with
  | nil => contradiction
  | cons c r =>
    have sign := (runs c List.mem_cons_self).2.2.1
    have head : ((c :: r ++ t).head? == some '=') = false := by simp [sign]
    simp only [Attribute.scanKey, head, Bool.false_eq_true, if_false, skimmed, plain.ofText]

theorem scanValue_print {pairs : List Delimiters} {value t : Text} (runs : '"' ∉ value)
    (plain : Unmarked pairs (value ++ '"' :: t)) :
    Assignment.scanValue pairs ('"' :: (value ++ '"' :: t)) =
      (some '"', ⟨value, []⟩, true, t) := by
  have skimmed : Template.skim pairs (fun s => s.head? == some '"') (value ++ '"' :: t) =
      (value, '"' :: t) := by
    refine plain.skim ?_ fun _ => rfl
    intro c r suffix
    have other : c ≠ '"' := fun same => runs (same ▸ suffix.subset List.mem_cons_self)
    simpa using other
  simp [Assignment.scanValue, skimmed, plain.ofText]

/-- Whether `t` can come after an attribute: it ends a key and assigns nothing to it. -/
def Follows (t : Text) : Prop :=
  (∃ c r, t = c :: r ∧ (c = ' ' ∨ c = '>')) ∧
    (t.dropWhile isMarkupSpace).head? ≠ some '='

theorem scan_printAttribute {pairs : List Delimiters} {entry : Text × Option Text} {t : Text}
    (nonempty : entry.1 ≠ [])
    (key : ∀ c ∈ entry.1, isMarkupSpace c = false ∧ c ≠ '>' ∧ c ≠ '=' ∧ c ≠ '/')
    (value : ∀ value ∈ entry.2, '"' ∉ value) (follows : Follows t)
    (plain : Unmarked pairs (entry.1 ++ (DraftTag.printValue entry.2 ++ t))) :
    Attribute.scan pairs (entry.1 ++ (DraftTag.printValue entry.2 ++ t)) =
      (DraftTag.writtenAttribute entry, t) := by
  obtain ⟨name, assigned⟩ := entry
  cases assigned with
  | none =>
    simp only [DraftTag.printValue, List.nil_append] at plain ⊢
    -- What follows ends the key, and is no equals sign that a value could come after.
    have stops : endsKey pairs t = true := by
      obtain ⟨⟨c, r, rfl, ends⟩, _⟩ := follows
      have unmarked := plain.right.opener?_nil
      rcases ends with rfl | rfl <;> simp [endsKey_cons, isMarkupSpace, unmarked]
    have read := scanKey_print nonempty key plain fun _ => stops
    simp only [Attribute.scan, read]
    split
    next r same => exact absurd (by rw [same]; rfl) follows.2
    · rfl
  | some v =>
    have quoted : DraftTag.printValue (some v) ++ t = '=' :: '"' :: (v ++ '"' :: t) := by
      simp [DraftTag.printValue]
    simp only [quoted] at nonempty key plain ⊢
    have stops : endsKey pairs ('=' :: '"' :: (v ++ '"' :: t)) = true := by
      rw [endsKey_cons, plain.right.opener?_nil]
      rfl
    have read := scanKey_print nonempty key plain fun _ => stops
    have assigned := scanValue_print (value v rfl) plain.right.tail.tail
    have sign : isMarkupSpace '=' = false := by decide
    have quote : isMarkupSpace '"' = false := by decide
    simp only [Attribute.scan, read, List.dropWhile_cons, sign, Bool.false_eq_true, if_false,
      List.takeWhile_cons, Assignment.scan, quote, assigned]
    rfl

theorem splitGap_space {s : Text} (other : ∀ c ∈ s.head?, isMarkupSpace c = false ∧ c ≠ '/') :
    splitGap (' ' :: s) = ([' '], s) := by
  have inner : splitGap s = ([], s) := by
    cases s with
    | nil => rfl
    | cons c s =>
      obtain ⟨space, slash⟩ := other c rfl
      simp [splitGap, space, slash]
  simp [splitGap, inner, isMarkupSpace]

theorem scanAttributes_printEnd (pairs : List Delimiters) (tag : DraftTag) (t : Text) :
    OpenTag.scanAttributes pairs (tag.printEnd ++ t) =
      ([], tag.written.gap, tag.written.ending, t) := by
  have ended :
      splitGap (tag.printEnd ++ t) = (tag.written.gap, tag.written.ending.render ++ t) := by
    simp only [DraftTag.printEnd, DraftTag.written]
    split
    · simp [splitGap, isMarkupSpace, Ending.render]
    · rfl
  have finished : Ending.scan? (tag.written.ending.render ++ t) = some (tag.written.ending, t) := by
    simp only [DraftTag.written]
    split <;> rfl
  rw [OpenTag.scanAttributes]
  split
  next ending rest found =>
    rw [ended, finished] at found
    simp_all
  next found =>
    rw [ended, finished] at found
    simp at found

theorem follows_print {attributes : List (Text × Option Text)} (tag : DraftTag) (t : Text)
    (keys : ∀ entry ∈ attributes, entry.1 ≠ [] ∧
      ∀ c ∈ entry.1, isMarkupSpace c = false ∧ c ≠ '>' ∧ c ≠ '=' ∧ c ≠ '/') :
    Follows (attributes.flatMap DraftTag.printAttribute ++ (tag.printEnd ++ t)) := by
  cases attributes with
  | nil =>
    simp only [DraftTag.printEnd, List.flatMap_nil, List.nil_append]
    split
    · exact ⟨⟨' ', '/' :: '>' :: t, rfl, Or.inl rfl⟩, by simp [isMarkupSpace]⟩
    · exact ⟨⟨'>', t, rfl, Or.inr rfl⟩, by simp [isMarkupSpace]⟩
  | cons entry others =>
    obtain ⟨⟨c, r, same⟩, runs⟩ : (∃ c r, entry.1 = c :: r) ∧ _ :=
      ⟨List.exists_cons_of_ne_nil (keys entry List.mem_cons_self).1,
        (keys entry List.mem_cons_self).2⟩
    have first := runs c (same ▸ List.mem_cons_self)
    have space : isMarkupSpace ' ' = true := by decide
    refine ⟨⟨' ', _, rfl, Or.inl rfl⟩, ?_⟩
    simp only [List.flatMap_cons, DraftTag.printAttribute, same, List.cons_append]
    simp [space, first]

theorem scanAttributes_print {pairs : List Delimiters} {tag : DraftTag} {t : Text}
    {attributes : List (Text × Option Text)}
    (keys : ∀ entry ∈ attributes, entry.1 ≠ [] ∧
      ∀ c ∈ entry.1, isMarkupSpace c = false ∧ c ≠ '>' ∧ c ≠ '=' ∧ c ≠ '/')
    (values : ∀ entry ∈ attributes, ∀ value ∈ entry.2, '"' ∉ value)
    (plain : Unmarked pairs
      (attributes.flatMap DraftTag.printAttribute ++ (tag.printEnd ++ t))) :
    OpenTag.scanAttributes pairs
        (attributes.flatMap DraftTag.printAttribute ++ (tag.printEnd ++ t)) =
      (attributes.map fun entry => ([' '], DraftTag.writtenAttribute entry),
        tag.written.gap, tag.written.ending, t) := by
  induction attributes with
  | nil => exact scanAttributes_printEnd pairs tag t
  | cons entry others ih =>
    let rest := others.flatMap DraftTag.printAttribute ++ (tag.printEnd ++ t)
    have split_first : (entry :: others).flatMap DraftTag.printAttribute ++ (tag.printEnd ++ t) =
        ' ' :: (entry.1 ++ (DraftTag.printValue entry.2 ++ rest)) := by
      simp [DraftTag.printAttribute, rest]
    rw [split_first] at plain ⊢
    obtain ⟨nonempty, runs⟩ := keys entry List.mem_cons_self
    have onward := ih (fun other member => keys other (List.mem_cons_of_mem entry member))
      (fun other member => values other (List.mem_cons_of_mem entry member))
      plain.tail.right.right
    have read := scan_printAttribute nonempty runs (values entry List.mem_cons_self)
      (follows_print tag t fun other member => keys other (List.mem_cons_of_mem entry member))
      plain.tail
    obtain ⟨c, r, same⟩ := List.exists_cons_of_ne_nil nonempty
    obtain ⟨space, bracket, _, slash⟩ := runs c (same ▸ List.mem_cons_self)
    have gap : splitGap (' ' :: (entry.1 ++ (DraftTag.printValue entry.2 ++ rest))) =
        ([' '], entry.1 ++ (DraftTag.printValue entry.2 ++ rest)) := by
      apply splitGap_space
      simp [same, space, slash]
    -- A key does not look like the end of the tag.
    have going : Ending.scan? (entry.1 ++ (DraftTag.printValue entry.2 ++ rest)) = none := by
      rw [same, List.cons_append]
      unfold Ending.scan?
      split <;> simp_all
    rw [OpenTag.scanAttributes]
    split
    next ending left found =>
      rw [gap, going] at found
      simp at found
    · simp only [gap, read, onward, List.map_cons, rest]

theorem scan_printOpen {pairs : List Delimiters} {tag : DraftTag} {t : Text}
    (formed : tag.WellFormed) (plain : Unmarked pairs (tag.printOpen ++ t)) :
    OpenTag.scan pairs (tag.printOpen ++ t).tail = (tag.written, t) := by
  let rest := tag.attributes.flatMap DraftTag.printAttribute ++ (tag.printEnd ++ t)
  have shown : tag.printOpen ++ t = '<' :: (tag.name ++ rest) := by
    simp [DraftTag.printOpen, rest]
  rw [shown] at plain ⊢
  have follows := follows_print tag t formed.keys
  have stops : ∀ c ∈ rest.head?, (!isNameEnd c) = false := by
    intro c first
    obtain ⟨⟨d, r, same, ends⟩, _⟩ := follows
    rw [show rest = d :: r from same] at first
    cases first
    rcases ends with rfl | rfl <;> decide
  have spans : (tag.name ++ rest).takeWhile (fun c => !isNameEnd c) = tag.name ∧
      (tag.name ++ rest).dropWhile (fun c => !isNameEnd c) = rest :=
    Text.span_append (fun c member => by simp [formed.name c member]) stops
  have attributes := scanAttributes_print formed.keys formed.values plain.tail.right
  simp only [OpenTag.scan, List.tail_cons, spans, attributes, rest]
  rfl

/-! ### Reading what is printed of a construct -/

theorem splitBefore_commentEnd {s : Text} (clear : ¬"-->".toList <:+: s) (t : Text) :
    splitBefore "-->".toList (s ++ ("-->".toList ++ t)) = (s, "-->".toList ++ t) := by
  refine splitBefore_eq ?_ (by simp)
  intro c r suffix
  rw [Bool.eq_false_iff, Ne, List.isPrefixOf_iff_prefix]
  intro starts
  -- The end of a comment does not overlap itself, so it would lie inside the comment.
  match r, starts with
  | [], starts | [d], starts => simp [List.cons_prefix_cons] at starts
  | d :: e :: r, starts =>
    simp only [String.reduceToList, List.cons_append, List.cons_prefix_cons] at starts
    obtain ⟨rfl, rfl, rfl, _⟩ := starts
    exact clear ((List.prefix_append "-->".toList r).isInfix.trans suffix.isInfix)

/-- Whether `t` is empty or begins with a construct. -/
def Boundary (t : Text) : Prop :=
  t ≠ [] → (Construct.of? t).isSome = true

namespace Piece

variable {pairs : List Delimiters} {t : Text}

theorem scan_text {content : Text} (nonempty : content ≠ []) (runs : '<' ∉ content)
    (ends : Boundary t) (plain : Unmarked pairs (content ++ t)) :
    scan pairs (content ++ t) = (text ⟨content, []⟩, t) := by
  have other (c : Char) (r : Text) (suffix : c :: r <:+ content) :
      Construct.of? (c :: r ++ t) = none :=
    Construct.of?_plain (fun same => runs (same ▸ suffix.subset List.mem_cons_self)) (r ++ t)
  have first : Construct.of? (content ++ t) = none := by
    obtain ⟨c, r, rfl⟩ := List.exists_cons_of_ne_nil nonempty
    exact other c r (List.suffix_refl _)
  have skimmed : Template.skim pairs (endsContent pairs) (content ++ t) = (content, t) := by
    refine plain.skim (fun c r suffix => ?_) fun further => ?_
    · simp only [endsContent, other c r suffix, Option.isSome_none, Bool.false_and]
    · simp [endsContent, ends further, plain.right.opener?_nil]
  simp only [scan, first, skimmed, plain.ofText]

theorem scan_comment_of_clear {content : Text} (clear : ¬"-->".toList <:+: content) (t : Text) :
    scan pairs ("<!--".toList ++ (content ++ ("-->".toList ++ t))) =
      (comment (Fragment.ofText pairs content ("-->".toList ++ t)) true, t) := by
  have sides := splitBefore_commentEnd clear t
  have body : ("<!--".toList ++ (content ++ ("-->".toList ++ t))).drop 4 =
      content ++ ("-->".toList ++ t) := rfl
  simp only [scan, Construct.of?_commentStart, body, sides]
  rfl

theorem scan_comment {content : Text} (clear : ¬"-->".toList <:+: content)
    (plain : Unmarked pairs ("<!--".toList ++ (content ++ ("-->".toList ++ t)))) :
    scan pairs ("<!--".toList ++ (content ++ ("-->".toList ++ t))) =
      (comment ⟨content, []⟩ true, t) := by
  rw [scan_comment_of_clear clear, plain.right.ofText]

theorem scan_doctype {content : Text}
    (starts : Text.startsWithName "doctype".toList content = true) (runs : '>' ∉ content)
    (plain : Unmarked pairs ('<' :: '!' :: (content ++ '>' :: t))) :
    scan pairs ('<' :: '!' :: (content ++ '>' :: t)) = (doctype ⟨content, []⟩ true, t) := by
  have longer := Text.startsWithName_append starts ('>' :: t)
  have sides := splitBefore_bracket runs t
  simp only [scan, Construct.of?_doctypeStart longer, splitBefore_cons (show '<' ≠ '>' by decide),
    splitBefore_cons (show '!' ≠ '>' by decide), sides, List.drop_succ_cons, List.drop_zero,
    plain.tail.tail.ofText]
  rfl

theorem scan_closing {name : Text} (letter : Text.startsWithLetter name = true)
    (runs : ∀ c ∈ name, isNameEnd c = false) :
    scan pairs ('<' :: '/' :: (name ++ '>' :: t)) = (closing name [] true, t) := by
  have further := Text.startsWithLetter_append letter ('>' :: t)
  have spans : (name ++ '>' :: t).takeWhile (fun c => !isNameEnd c) = name ∧
      (name ++ '>' :: t).dropWhile (fun c => !isNameEnd c) = '>' :: t :=
    Text.span_append (fun c member => by simp [runs c member])
      (fun c first => by cases first; decide)
  have tail : scanBracket ('>' :: t) = ([], true, t) := by
    simp [scanBracket, splitBefore, Text.find?, Text.breakAt?, List.isPrefixOf]
  simp only [scan, (Construct.of?_letter further).2, List.drop_succ_cons, List.drop_zero, spans,
    tail]

theorem of?_printOpen {tag : DraftTag} (formed : tag.WellFormed) (t : Text) :
    Construct.of? (tag.printOpen ++ t) = some .opening := by
  have shown : tag.printOpen ++ t = '<' :: (tag.name ++
      (tag.attributes.flatMap DraftTag.printAttribute ++ (tag.printEnd ++ t))) := by
    simp [DraftTag.printOpen]
  rw [shown]
  exact (Construct.of?_letter (Text.startsWithLetter_append formed.letter _)).1

theorem scan_opening {tag : DraftTag} (formed : tag.WellFormed)
    (plain : tag.written.isRaw = false) (unmarked : Unmarked pairs (tag.printOpen ++ t)) :
    scan pairs (tag.printOpen ++ t) = (opening tag.written, t) := by
  simp only [scan, of?_printOpen formed, scan_printOpen formed unmarked, plain,
    Bool.false_eq_true, if_false]

theorem scan_rawAlone {tag : DraftTag} (formed : tag.WellFormed)
    (isRaw : tag.written.isRaw = true) (form : tag.form = .selfClosing)
    (unmarked : Unmarked pairs (tag.printOpen ++ t)) :
    scan pairs (tag.printOpen ++ t) = (raw tag.written none, t) := by
  have closes : tag.written.isSelfClosing = true := by
    simp [OpenTag.isSelfClosing, DraftTag.written, form]
  simp only [scan, of?_printOpen formed, scan_printOpen formed unmarked, isRaw, closes, if_true]

/-- A closing tag is not found across the end of a text without it. -/
private theorem startsWithName_across {name content : Text} (free : '<' ∉ name)
    (clear : ∀ part, part <:+: content → Text.sameName part ('<' :: '/' :: name) = false)
    {c : Char} {r : Text} (suffix : c :: r <:+ content) (t : Text) :
    Text.startsWithName ('<' :: '/' :: name) (c :: r ++ '<' :: t) = false := by
  rw [Bool.eq_false_iff]
  intro starts
  rw [Text.startsWithName] at starts
  by_cases fits : ('<' :: '/' :: name).length ≤ (c :: r).length
  · rw [List.take_append_of_le_length fits] at starts
    have part : (c :: r).take ('<' :: '/' :: name).length <:+: content :=
      (List.take_prefix _ _).isInfix.trans suffix.isInfix
    rw [clear _ part] at starts
    contradiction
  · -- The name would have to have the bracket of the closing tag in it.
    obtain ⟨k, size⟩ : ∃ k, ('<' :: '/' :: name).length = (c :: r).length + (k + 1) :=
      ⟨('<' :: '/' :: name).length - (c :: r).length - 1, by omega⟩
    have taken : (c :: r ++ '<' :: t).take ('<' :: '/' :: name).length =
        c :: (r ++ '<' :: t.take k) := by
      rw [size, List.take_length_add_append]
      rfl
    rw [taken] at starts
    simp only [Text.sameName, beq_iff_eq, Text.lower, List.map_append, List.map_cons,
      List.cons.injEq] at starts
    have inside : Char.toLower '<' ∈ ('/' :: name).map Char.toLower := by
      rw [List.map_cons, ← starts.2]
      simp
    obtain ⟨d, member, same⟩ := List.mem_map.1 inside
    have bracketed : d = '<' := eq_of_toLower_eq (by decide) same
    subst bracketed
    rcases List.mem_cons.1 member with slash | named
    · exact absurd slash (by decide)
    · exact free named

theorem scan_raw {tag : DraftTag} {content : Text} (formed : tag.WellFormed)
    (isRaw : tag.written.isRaw = true) (form : tag.form = .closed) (free : '<' ∉ tag.name)
    (clear : ∀ part, part <:+: content → Text.sameName part ('<' :: '/' :: tag.name) = false)
    (unmarked : Unmarked pairs (tag.printOpen ++ (content ++ (tag.printClose ++ t)))) :
    scan pairs (tag.printOpen ++ (content ++ (tag.printClose ++ t))) =
      (raw tag.written (some ⟨⟨content, []⟩, some tag.printClose⟩), t) := by
  have opens : tag.written.isSelfClosing = false := by
    simp [OpenTag.isSelfClosing, DraftTag.written, form]
  have shown : tag.printClose ++ t = '<' :: '/' :: (tag.name ++ '>' :: t) := by
    simp [DraftTag.printClose, form]
  -- The first place where a closing tag of the name starts is the end of the content.
  have broken : Text.breakAt? (Text.startsWithName ('<' :: '/' :: tag.name))
      (content ++ (tag.printClose ++ t)) = some (content, tag.printClose ++ t) := by
    rw [shown]
    refine Text.breakAt?_eq (fun c r suffix => startsWithName_across free clear suffix _)
      (by simp) ?_
    simp [Text.startsWithName, Text.sameName]
  have ended : '>' ∉ '<' :: '/' :: tag.name := by
    have free : '>' ∉ tag.name := fun member => absurd (formed.name '>' member) (by decide)
    simp [free]
  have tail : scanBracket (tag.printClose ++ t) = ('<' :: '/' :: tag.name, true, t) := by
    rw [shown]
    have sides := splitBefore_bracket ended t
    simp only [List.cons_append] at sides
    simp [scanBracket, sides]
  have named : tag.written.name = tag.name := rfl
  have closed : tag.printClose = '<' :: '/' :: tag.name ++ bracket true := by
    simp [DraftTag.printClose, form, Piece.bracket]
  simp only [scan, of?_printOpen formed, scan_printOpen formed unmarked, isRaw, opens, if_true,
    Bool.false_eq_true, if_false, RawBody.scan, named, broken, tail, unmarked.right.ofText,
    ← closed]

end Piece

end Written

namespace Draft

open Written (Boundary)

/-! ### Reading what is printed of a draft -/

variable {pairs : List Delimiters} {outer : List Text} {draft : Draft}

private theorem printOpen_ne_nil (tag : DraftTag) : tag.printOpen ≠ [] := by
  simp [DraftTag.printOpen]

private theorem bracket_not_mem {name t : Text} (same : Text.sameName name t = true)
    (free : '<' ∉ t.lower) : '<' ∉ name := by
  intro member
  have lowered : Char.toLower '<' ∈ name.lower := List.mem_map_of_mem member
  rw [beq_iff_eq.1 same] at lowered
  exact free lowered

/-- Whatever is not text begins with a construct. -/
theorem boundary_print (formed : draft.WellFormed outer) (other : draft.startsWithText = false)
    {t : Text} (ends : Boundary t) : Boundary (draft.print ++ t) := by
  intro _
  cases draft with
  | nil => exact ends ‹_›
  | text => simp [startsWithText] at other
  | comment content next =>
    simp only [print, List.append_assoc]
    rw [Construct.of?_commentStart]
    rfl
  | doctype content next =>
    have longer := Text.startsWithName_append formed.1 (['>'] ++ (next.print ++ t))
    simp only [print, List.append_assoc]
    exact Option.isSome_of_eq_some (Construct.of?_doctypeStart longer)
  | raw isScript tag content next =>
    simp only [print, List.append_assoc]
    rw [Piece.of?_printOpen formed.1]
    rfl
  | element tag inside next =>
    simp only [print, List.append_assoc]
    rw [Piece.of?_printOpen formed.1]
    rfl

/-- An element is read back between its tags when what is inside it is. -/
private theorem reads_closed {tag : DraftTag} {inside : Draft} {inner : List Text}
    {rest : List Piece} (tagFormed : tag.WellFormed) (notRaw : tag.written.isRaw = false)
    (form : tag.form = .closed) (content : inside.WellFormed inner)
    (others : Piece.Reads pairs rest)
    (within : ∀ {more}, Boundary (Piece.renderAll more) → Piece.Reads pairs more →
      Unmarked pairs (inside.print ++ Piece.renderAll more) →
        Piece.Reads pairs (inside.outline.pieces ++ more))
    (plain : Unmarked pairs
      (tag.printOpen ++ (inside.print ++ (tag.printClose ++ Piece.renderAll rest)))) :
    Piece.Reads pairs
      (.opening tag.written :: (inside.outline.pieces ++ .closing tag.name [] true :: rest)) := by
  let close := Piece.closing tag.name [] true
  have closes : close.render = tag.printClose := by
    simp [close, Piece.render, Piece.bracket, DraftTag.printClose, form]
  have shown (t : Text) : tag.printClose ++ t = '<' :: '/' :: (tag.name ++ '>' :: t) := by
    simp [DraftTag.printClose, form]
  have afterContent : Piece.renderAll (close :: rest) =
      tag.printClose ++ Piece.renderAll rest := by
    rw [← closes]
    rfl
  -- From the end of the element backwards: its closing tag, its content, its opening tag.
  have closed : Piece.Reads pairs (close :: rest) := by
    refine others.cons closes (by simp [DraftTag.printClose, form]) ?_
    rw [shown]
    exact Piece.scan_closing tagFormed.letter tagFormed.name
  have boundary : Boundary (Piece.renderAll (close :: rest)) := by
    intro _
    rw [afterContent, shown]
    exact Option.isSome_of_eq_some
      (Construct.of?_letter (Text.startsWithLetter_append tagFormed.letter _)).2
  have read : Piece.Reads pairs (inside.outline.pieces ++ close :: rest) := by
    apply within boundary closed
    rw [afterContent]
    exact plain.right
  refine read.cons tag.render_written (printOpen_ne_nil tag) ?_
  rw [Piece.renderAll_append, renderAll_outline content, afterContent]
  exact Piece.scan_opening tagFormed notRaw plain

/-- The pieces of a draft are read one after the other from its print. -/
theorem reads_outline (formed : draft.WellFormed outer) {more : List Piece}
    (ends : Boundary (Piece.renderAll more)) (reads : Piece.Reads pairs more)
    (plain : Unmarked pairs (draft.print ++ Piece.renderAll more)) :
    Piece.Reads pairs (draft.outline.pieces ++ more) := by
  -- The induction is for every `more`: inside of an element its closing tag comes first in it.
  induction draft generalizing outer more with
  | nil => exact reads
  | text content next ih =>
    obtain ⟨nonempty, runs, other, further⟩ := formed
    simp only [print, List.append_assoc] at plain
    have others := ih further ends reads plain.right
    refine others.cons rfl nonempty ?_
    rw [Piece.renderAll_append, renderAll_outline further]
    exact Piece.scan_text nonempty runs (boundary_print further other ends) plain
  | comment content next ih =>
    obtain ⟨clear, further⟩ := formed
    simp only [print, List.append_assoc] at plain
    have others := ih further ends reads plain.right.right.right
    refine others.cons rfl (by simp [Piece.render]) ?_
    rw [Piece.renderAll_append, renderAll_outline further]
    simpa [Piece.render] using Piece.scan_comment clear plain
  | doctype content next ih =>
    obtain ⟨starts, runs, further⟩ := formed
    simp only [print, List.append_assoc] at plain
    have others := ih further ends reads plain.right.right.right
    refine others.cons rfl (by simp [Piece.render]) ?_
    rw [Piece.renderAll_append, renderAll_outline further]
    simpa [Piece.render, Piece.bracket] using Piece.scan_doctype starts runs plain
  | raw isScript tag content next ih =>
    obtain ⟨tagFormed, named, form, further⟩ := formed
    have isRaw : tag.written.isRaw = true := by
      cases isScript <;> simp_all [OpenTag.isRaw, DraftTag.written]
    simp only [print, List.append_assoc] at plain
    have others := ih further ends reads plain.right.right.right
    rcases form with ⟨form, rfl⟩ | ⟨form, clear⟩
    · have unclosed : tag.printClose = [] := by simp [DraftTag.printClose, form]
      rw [unclosed] at plain
      simp only [outline, form, reduceCtorEq, if_false]
      refine others.cons (tag.render_written ▸ by simp [Piece.render]) (printOpen_ne_nil tag) ?_
      rw [Piece.renderAll_append, renderAll_outline further]
      exact Piece.scan_rawAlone tagFormed isRaw form plain
    · have free : '<' ∉ tag.name := bracket_not_mem named (by cases isScript <;> decide)
      have shown : (Piece.raw tag.written
          (some ⟨⟨content, []⟩, some tag.printClose⟩)).render =
          tag.printOpen ++ (content ++ tag.printClose) := by
        simp [Piece.render, DraftTag.render_written, Written.RawBody.render]
      have read := Piece.scan_raw tagFormed isRaw form free clear plain
      simp only [outline, form, if_true]
      refine others.cons shown (by simp [printOpen_ne_nil]) ?_
      have left : Piece.renderAll (next.outline.pieces ++ more) =
          next.print ++ Piece.renderAll more := by
        rw [Piece.renderAll_append, renderAll_outline further]
      simpa [left] using read
  | element tag inside next ihInside ihNext =>
    obtain ⟨tagFormed, ⟨script, style⟩, form, further⟩ := formed
    have notRaw : tag.written.isRaw = false := by
      simp only [OpenTag.isRaw, Bool.or_eq_false_iff]
      exact ⟨script, style⟩
    simp only [print, List.append_assoc] at plain
    have others := ihNext further ends reads plain.right.right.right
    have left : Piece.renderAll (next.outline.pieces ++ more) =
        next.print ++ Piece.renderAll more := by
      rw [Piece.renderAll_append, renderAll_outline further]
    have alone (bare : tag.form ≠ .closed) (empty : inside = nil) :
        Piece.Reads pairs ((element tag inside next).outline.pieces ++ more) := by
      subst empty
      have unclosed : tag.printClose = [] := by simp [DraftTag.printClose, bare]
      rw [unclosed] at plain
      simp only [outline, bare, if_false]
      refine others.cons tag.render_written (printOpen_ne_nil tag) ?_
      rw [left]
      exact Piece.scan_opening tagFormed notRaw plain
    rcases form with ⟨form, empty⟩ | ⟨form, _, empty⟩ | ⟨form, _, content⟩
    · exact alone (by simp [form]) empty
    · exact alone (by simp [form]) empty
    · rw [← left] at plain
      have shape : (element tag inside next).outline.pieces ++ more =
          .opening tag.written ::
            (inside.outline.pieces ++ .closing tag.name [] true ::
              (next.outline.pieces ++ more)) := by
        simp [outline, form, ClosingTag.piece]
      rw [shape]
      exact reads_closed tagFormed notRaw form content others (ihInside content) plain

end Draft

namespace Document

/-- Parsing what a draft prints gives the draft, with no closing tag left over, where no template
region can start in the print. -/
theorem parse_print (pairs : List Delimiters) (draft : Draft) (formed : draft.WellFormed [])
    (plain : Unmarked pairs draft.print) :
    (parse pairs draft.print).root.inside.draft = draft ∧
      (parse pairs draft.print).strays = [] := by
  have unmarked : Unmarked pairs (draft.print ++ Piece.renderAll []) := by
    simpa [Piece.renderAll] using plain
  have reads : Piece.Reads pairs (draft.outline.pieces ++ []) :=
    Draft.reads_outline formed (fun further => absurd rfl further) trivial unmarked
  rw [List.append_nil] at reads
  have covers : draft.outline.pieces = Piece.scanAll pairs draft.print := by
    rw [← Draft.renderAll_outline formed]
    exact (Piece.scanAll_renderAll reads).symm
  rw [parse_eq_ofOutline pairs draft.print covers (Draft.nested_outline formed)]
  exact ⟨Draft.draft_forest formed _ 0 1 0, Draft.strays_outline draft 0⟩

/-- A draft with an element of a void name inside a foreign root and one outside of it, elements
of one name inside each other, attributes with and without values, and a script. -/
def sampleDraft : Draft :=
  .element ⟨"svg".toList, [("d".toList, some "a>b".toList), ("x".toList, none)], .closed⟩
    (.element ⟨"br".toList, [], .closed⟩
      (.element ⟨"br".toList, [], .closed⟩ (.text "a".toList .nil) .nil)
      (.comment "-".toList .nil))
    (.element ⟨"br".toList, [], .unclosed⟩ .nil
      (.raw true ⟨"Script".toList, [], .closed⟩ "1<2".toList
        (.element ⟨"i".toList, [], .selfClosing⟩ .nil (.text "b".toList .nil))))

theorem parse_print_sample :
    sampleDraft.WellFormed [] ∧
      Unmarked [⟨"\x7b\x7b".toList, "\x7d\x7d".toList⟩] sampleDraft.print ∧
      (parse [⟨"\x7b\x7b".toList, "\x7d\x7d".toList⟩] sampleDraft.print).root.inside.draft =
        sampleDraft ∧
      (parse [⟨"\x7b\x7b".toList, "\x7d\x7d".toList⟩] sampleDraft.print).strays = [] := by
  have short (part : Text) (within : part <:+: "1<2".toList) :
      Text.sameName part ('<' :: '/' :: "Script".toList) = false := by
    have length : part.length ≤ 3 := within.length_le
    rw [Bool.eq_false_iff]
    intro same
    have lengths := congrArg List.length (beq_iff_eq.1 same)
    simp [Text.lower] at lengths
    omega
  have formed : sampleDraft.WellFormed [] := by
    refine ⟨by decide, by decide, Or.inr (Or.inr ⟨rfl, by decide, ?foreign⟩), ?further⟩
    case foreign =>
      refine ⟨by decide, by decide, Or.inr (Or.inr ⟨rfl, by decide, ?_⟩), by decide, trivial⟩
      exact ⟨by decide, by decide,
        Or.inr (Or.inr ⟨rfl, by decide, by decide, by decide, by decide, trivial⟩), trivial⟩
    case further =>
      refine ⟨by decide, by decide, Or.inr (Or.inl ⟨rfl, by decide, rfl⟩), by decide, by decide,
        Or.inr ⟨rfl, short⟩, ?_⟩
      exact ⟨by decide, by decide, Or.inl ⟨rfl, rfl⟩, by decide, by decide, by decide, trivial⟩
  have plain : Unmarked [⟨"\x7b\x7b".toList, "\x7d\x7d".toList⟩] sampleDraft.print := by
    intro pair member _ within
    obtain rfl := List.mem_singleton.1 member
    have brace : '\x7b' ∈ sampleDraft.print := within.subset (by decide)
    exact absurd brace (by decide)
  exact ⟨formed, plain, parse_print _ sampleDraft formed plain⟩

end Document

end TagLint
