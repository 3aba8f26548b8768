import TagLint.Proofs.Lossless
import Mathlib.Tactic.SplitIfs

/-!
Lists of pieces that are read from what they render to.

`Piece.Reads` says it one piece at a time: each piece is what is read where it stands. The pieces
of a source are such a list, and such a list is the pieces of its source; what one scanner says
about the text after a piece becomes a fact about the next piece.
-/
namespace TagLint

theorem Text.span_append {test : Char → Bool} {s t : Text} (runs : ∀ c ∈ s, test c = true)
    (ends : ∀ c ∈ t.head?, test c = false) :
    (s ++ t).takeWhile test = s ∧ (s ++ t).dropWhile test = t := by
  induction s with
  | nil =>
    cases t with
    | nil => simp
    | cons c t => simp [ends c rfl]
  | cons c s ih =>
    have here := runs c List.mem_cons_self
    have onward := ih fun d member => runs d (List.mem_cons_of_mem c member)
    simp [here, onward]

theorem Text.breakAt?_eq {found : Text → Bool} {s t : Text}
    (runs : ∀ c r, c :: r <:+ s → found (c :: r ++ t) = false) (nonempty : t ≠ [])
    (here : found t = true) : Text.breakAt? found (s ++ t) = some (s, t) := by
  induction s with
  | nil =>
    cases t with
    | nil => contradiction
    | cons c t => simp [Text.breakAt?, here]
  | cons c s ih =>
    have onward := ih fun d r suffix => runs d r (suffix.trans (List.suffix_cons c s))
    have first := runs c s (List.suffix_refl _)
    rw [List.cons_append] at first ⊢
    simp [Text.breakAt?, first, onward]

theorem Text.breakAt?_eq_none_iff {found : Text → Bool} {t : Text} :
    Text.breakAt? found t = none ↔ ∀ c r, c :: r <:+ t → found (c :: r) = false := by
  induction t with
  | nil => simp [Text.breakAt?]
  | cons d t ih =>
    have step : Text.breakAt? found (d :: t) = none ↔
        found (d :: t) = false ∧ Text.breakAt? found t = none := by
      rw [Text.breakAt?]
      split <;> simp_all
    rw [step, ih]
    constructor
    · rintro ⟨first, later⟩ c r suffix
      rcases List.suffix_cons_iff.1 suffix with whole | below
      · rw [whole]
        exact first
      · exact later c r below
    · intro runs
      exact ⟨runs d t (List.suffix_refl _),
        fun c r suffix => runs c r (suffix.trans (List.suffix_cons d t))⟩

theorem Text.breakAt?_runs {found : Text → Bool} {s t u : Text}
    (split : Text.breakAt? found u = some (s, t)) :
    ∀ c r, c :: r <:+ s → found (c :: r ++ t) = false := by
  induction u generalizing s t with
  | nil => simp [Text.breakAt?] at split
  | cons d u ih =>
    have joined := Text.breakAt?_append split
    simp only [Text.breakAt?] at split
    split at split
    · cases split
      simp
    next apart =>
      obtain ⟨⟨left, right⟩, inner, same⟩ := Option.map_eq_some_iff.1 split
      cases same
      intro c r suffix
      rcases List.suffix_cons_iff.1 suffix with whole | later
      · rw [whole, joined]
        simpa using apart
      · exact ih inner c r later

theorem Text.startsWithName_append {name content : Text}
    (starts : startsWithName name content = true) (t : Text) :
    startsWithName name (content ++ t) = true := by
  have long : name.length ≤ content.length := by
    simp only [startsWithName, Text.sameName, beq_iff_eq] at starts
    have lengths := congrArg List.length starts
    simp only [lower, List.length_map, List.length_take] at lengths
    omega
  rw [startsWithName, List.take_append_of_le_length long]
  exact starts

theorem Text.startsWithLetter_append {name : Text} (letter : startsWithLetter name = true)
    (t : Text) : startsWithLetter (name ++ t) = true := by
  cases name with
  | nil => simp [startsWithLetter] at letter
  | cons c name => exact letter

namespace Written

theorem splitBefore_eq {needle s t : Text}
    (runs : ∀ c r, c :: r <:+ s → needle.isPrefixOf (c :: r ++ (needle ++ t)) = false)
    (nonempty : needle ≠ []) : splitBefore needle (s ++ (needle ++ t)) = (s, needle ++ t) := by
  have here : needle.isPrefixOf (needle ++ t) = true :=
    List.isPrefixOf_iff_prefix.2 (List.prefix_append needle t)
  have broken : Text.breakAt? needle.isPrefixOf (s ++ (needle ++ t)) = some (s, needle ++ t) :=
    Text.breakAt?_eq runs (by simp [nonempty]) here
  have full : needle.isEmpty = false := by simpa using nonempty
  simp only [splitBefore, Text.find?, full, Bool.false_eq_true, if_false, broken, Option.getD_some]

theorem splitBefore_bracket {s : Text} (runs : '>' ∉ s) (t : Text) :
    splitBefore ['>'] (s ++ '>' :: t) = (s, '>' :: t) := by
  have apart (c : Char) (r : Text) (suffix : c :: r <:+ s) :
      ['>'].isPrefixOf (c :: r ++ (['>'] ++ t)) = false := by
    have other : '>' ≠ c := fun same => runs (same ▸ suffix.subset List.mem_cons_self)
    simpa [List.isPrefixOf] using other
  exact splitBefore_eq apart (by simp)

theorem endsKey_cons (pairs : List Delimiters) (c : Char) (t : Text) :
    endsKey pairs (c :: t) =
      ((isMarkupSpace c || c == '>' || c == '=' || (c == '/' && t.head? == some '>')) &&
        (Template.opener? pairs (c :: t) []).isNone) := by
  unfold endsKey
  split
  · contradiction
  next rest same =>
    obtain ⟨rfl, rfl⟩ := List.cons.inj same
    simp
  next head rest other same =>
    obtain ⟨rfl, rfl⟩ := List.cons.inj same
    have apart : (c == '/' && t.head? == some '>') = false := by
      rw [Bool.eq_false_iff]
      intro closes
      simp only [Bool.and_eq_true, beq_iff_eq, List.head?_eq_some_iff] at closes
      obtain ⟨rfl, tail, rfl⟩ := closes
      exact other tail rfl rfl
    rw [apart, Bool.or_false]

namespace Construct

theorem head_of_isSome {t : Text} (found : (of? t).isSome = true) : t.head? = some '<' := by
  obtain ⟨construct, found⟩ := Option.isSome_iff_exists.1 found
  cases construct with
  | comment =>
    obtain ⟨r, rfl⟩ := opens_of_of? found
    rfl
  | doctype =>
    obtain ⟨r, rfl⟩ := doctype_lead (opens_of_of? found)
    rfl
  | closing =>
    obtain ⟨r, rfl, _⟩ := opens_of_of? found
    rfl
  | opening =>
    obtain ⟨r, rfl, _⟩ := opens_of_of? found
    rfl

theorem of?_plain {c : Char} (other : c ≠ '<') (t : Text) : of? (c :: t) = none := by
  cases found : of? (c :: t) with
  | none => rfl
  | some construct =>
    have head := head_of_isSome (t := c :: t) (by rw [found]; rfl)
    exact absurd (Option.some.inj head) other

theorem of?_commentStart (t : Text) : of? ("<!--".toList ++ t) = some comment := by
  have starts : "<!--".toList.isPrefixOf ("<!--".toList ++ t) = true :=
    List.isPrefixOf_iff_prefix.2 (List.prefix_append _ t)
  simp only [of?, starts, if_true]

theorem of?_doctypeStart {t : Text} (starts : Text.startsWithName "doctype".toList t = true) :
    of? ('<' :: '!' :: t) = some doctype := by
  have longer : Text.startsWithName "<!doctype".toList ('<' :: '!' :: t) = true := by
    simp only [Text.startsWithName, Text.sameName, Text.lower, beq_iff_eq] at starts ⊢
    simpa using starts
  have no_comment : "<!--".toList.isPrefixOf ('<' :: '!' :: t) = false := by
    rw [Bool.eq_false_iff, Ne, List.isPrefixOf_iff_prefix]
    rintro ⟨r, same⟩
    simp only [String.reduceToList, List.cons_append, List.nil_append, List.cons.injEq,
      true_and] at same
    subst same
    simp [Text.startsWithName, Text.sameName, Text.lower] at starts
  simp only [of?, no_comment, longer, Bool.false_eq_true, if_false, if_true]

theorem of?_doctypeName {t : Text} (starts : Text.startsWithName "<!doctype".toList t = true) :
    of? t = some doctype := by
  obtain ⟨r, rfl⟩ := doctype_lead starts
  refine of?_doctypeStart ?_
  simp only [Text.startsWithName, Text.sameName, Text.lower, beq_iff_eq] at starts ⊢
  simpa using starts

/-- A letter after the bracket begins neither a comment nor a document type. -/
theorem of?_letter {t : Text} (letter : Text.startsWithLetter t = true) :
    of? ('<' :: t) = some opening ∧ of? ('<' :: '/' :: t) = some closing := by
  have other (c : Char) (r : Text) (lead : c ≠ '!') :
      "<!--".toList.isPrefixOf ('<' :: c :: r) = false ∧
        Text.startsWithName "<!doctype".toList ('<' :: c :: r) = false := by
    refine ⟨by simp [List.isPrefixOf, Ne.symm lead], ?_⟩
    rw [Bool.eq_false_iff]
    intro starts
    obtain ⟨_, same⟩ := doctype_lead starts
    exact lead (List.cons.inj (List.cons.inj same).2).1
  cases t with
  | nil => simp [Text.startsWithLetter] at letter
  | cons c t =>
    -- Both other constructs have an exclamation mark where the letter or the slash is.
    have mark : c ≠ '!' := by
      rintro rfl
      simp [Text.startsWithLetter] at letter
    have slash : c ≠ '/' := by
      rintro rfl
      simp [Text.startsWithLetter] at letter
    have opens := other c t mark
    have closes := other '/' (c :: t) (by decide)
    constructor
    · simp only [of?, opens, Bool.false_eq_true, if_false]
      split <;> simp_all
    · simp only [of?, closes, Bool.false_eq_true, if_false, letter, if_true]

end Construct

namespace Piece

theorem renderAll_cons (piece : Piece) (others : List Piece) :
    renderAll (piece :: others) = piece.render ++ renderAll others := rfl

theorem renderAll_append (first second : List Piece) :
    renderAll (first ++ second) = renderAll first ++ renderAll second := by
  simp [renderAll]

/-- Whether each of the pieces is what is read from it and all that comes after it. -/
def Reads (pairs : List Delimiters) : List Piece → Prop
  | [] => True
  | piece :: others =>
    piece.render ≠ [] ∧
      scan pairs (piece.render ++ renderAll others) = (piece, renderAll others) ∧
      Reads pairs others

theorem Reads.cons {pairs : List Delimiters} {piece : Piece} {others : List Piece} {written : Text}
    (reads : Reads pairs others) (shown : piece.render = written) (nonempty : written ≠ [])
    (read : scan pairs (written ++ renderAll others) = (piece, renderAll others)) :
    Reads pairs (piece :: others) := by
  subst shown
  exact ⟨nonempty, read, reads⟩

theorem Reads.of_append {pairs : List Delimiters} {before after : List Piece}
    (reads : Reads pairs (before ++ after)) : Reads pairs after := by
  induction before with
  | nil => exact reads
  | cons piece before ih => exact ih reads.2.2

/-- The pieces of a source are read from it. -/
theorem reads_scanAll (pairs : List Delimiters) (t : Text) : Reads pairs (scanAll pairs t) := by
  fun_induction scanAll pairs t with
  | case1 => trivial
  | case2 c t read ih =>
    have joined := render_scan pairs (c :: t)
    refine ⟨fun empty => ?_, ?_, ih⟩
    · -- A piece without a character would leave as much as there was.
      have shorter := scan_rest_lt pairs c t
      rw [empty, List.nil_append] at joined
      rw [joined] at shorter
      exact Nat.lt_irrefl _ shorter
    · rw [renderAll_scanAll, joined]

/-- Pieces that are read from what they render to are its pieces. -/
theorem scanAll_renderAll {pairs : List Delimiters} {pieces : List Piece}
    (reads : Reads pairs pieces) : scanAll pairs (renderAll pieces) = pieces := by
  induction pieces with
  | nil => simp [renderAll, scanAll]
  | cons piece others ih =>
    obtain ⟨nonempty, read, further⟩ := reads
    rw [renderAll, List.flatMap_cons]
    cases shown : piece.render ++ others.flatMap render with
    | nil => exact absurd (List.append_eq_nil_iff.1 shown).1 nonempty
    | cons c t =>
      rw [scanAll, ← shown]
      change (scan pairs (piece.render ++ renderAll others)).1 ::
        scanAll pairs (scan pairs (piece.render ++ renderAll others)).2 = piece :: others
      rw [read, ih further]

theorem Reads.render_ne_nil {pairs : List Delimiters} {pieces : List Piece}
    (reads : Reads pairs pieces) {piece : Piece} (member : piece ∈ pieces) :
    piece.render ≠ [] := by
  induction pieces with
  | nil => simp at member
  | cons first others ih =>
    rcases List.mem_cons.1 member with rfl | later
    · exact reads.1
    · exact ih reads.2.2 later

theorem Reads.eq_nil {pairs : List Delimiters} {pieces : List Piece}
    (reads : Reads pairs pieces) (empty : renderAll pieces = []) : pieces = [] := by
  cases pieces with
  | nil => rfl
  | cons piece others =>
    rw [renderAll, List.flatMap_cons, List.append_eq_nil_iff] at empty
    exact absurd empty.1 reads.1

def isText : Piece → Bool
  | text _ => true
  | _ => false

/-- Text is what does not begin with a construct. -/
theorem isText_scan (pairs : List Delimiters) (t : Text) :
    (scan pairs t).1.isText = (Construct.of? t).isNone := by
  cases found : Construct.of? t with
  | none => simp [scan, found, isText]
  | some construct =>
    cases construct with
    | opening =>
      simp only [scan, found]
      split_ifs <;> rfl
    | _ => simp [scan, found, isText]

/-- No text comes after text. -/
theorem Reads.text_apart {pairs : List Delimiters} {a b : Piece} {others : List Piece}
    (reads : Reads pairs (a :: b :: others)) : ¬(a.isText = true ∧ b.isText = true) := by
  obtain ⟨_, first, nonempty, second, _⟩ := reads
  rintro ⟨text, more⟩
  have plain := isText_scan pairs (a.render ++ renderAll (b :: others))
  have next := isText_scan pairs (b.render ++ renderAll others)
  rw [first, text] at plain
  rw [second, more] at next
  have onward : renderAll (b :: others) = b.render ++ renderAll others := rfl
  simp only [scan, Option.isNone_iff_eq_none.1 plain.symm, Prod.mk.injEq] at first
  -- Text stops only before a construct, and that is no text.
  have stops := Template.skim_stops pairs (endsContent pairs) _
    (by rw [first.2, onward]; simp [nonempty])
  rw [first.2, onward] at stops
  simp [endsContent, Option.isNone_iff_eq_none.1 next.symm] at stops

theorem Reads.other {pairs : List Delimiters} {a : Piece} {others : List Piece}
    (reads : Reads pairs (a :: others)) (text : a.isText = true) :
    ∀ piece ∈ others.head?, piece.isText = false := by
  intro piece first
  cases others with
  | nil => contradiction
  | cons b others =>
    cases first
    rw [Bool.eq_false_iff]
    intro more
    exact reads.text_apart ⟨text, more⟩

theorem bracket_not_mem_splitBefore (t : Text) : '>' ∉ (splitBefore ['>'] t).1 := by
  induction t with
  | nil => simp [splitBefore, Text.find?, Text.breakAt?]
  | cons c t ih =>
    by_cases here : c = '>'
    · subst here
      simp [splitBefore, Text.find?, Text.breakAt?, List.isPrefixOf]
    · rw [splitBefore_cons here]
      simpa [Ne.symm here] using ih

theorem isNameEnd_of_isAlpha {c : Char} (letter : c.isAlpha = true) : isNameEnd c = false := by
  rw [Bool.eq_false_iff]
  intro ends
  simp only [isNameEnd, isMarkupSpace, Bool.or_eq_true, beq_iff_eq] at ends
  rcases ends with ((((((rfl | rfl) | rfl) | rfl) | rfl) | rfl) | rfl) <;> simp at letter

/-- A closing tag that is read starts with a letter and ends at its first bracket, or at the end
of the source. -/
theorem Reads.closing_shape {pairs : List Delimiters} {name tail : Text} {isClosed : Bool}
    {others : List Piece} (reads : Reads pairs (closing name tail isClosed :: others)) :
    Text.startsWithLetter name = true ∧ (∀ c ∈ name, isNameEnd c = false) ∧ '>' ∉ tail ∧
      (isClosed = false → others = []) := by
  obtain ⟨_, read, further⟩ := reads
  cases found : Construct.of? ((closing name tail isClosed).render ++ renderAll others) with
  | none => simp [scan, found] at read
  | some construct =>
    cases construct with
    | comment | doctype => simp [scan, found] at read
    | opening =>
      simp only [scan, found] at read
      split_ifs at read <;> simp at read
    | closing =>
      obtain ⟨r, begins, letter⟩ := Construct.opens_of_of? found
      rw [begins] at read found
      simp only [scan, found, List.drop_succ_cons, List.drop_zero, Prod.mk.injEq,
        closing.injEq] at read
      obtain ⟨⟨rfl, rfl, rfl⟩, rest⟩ := read
      refine ⟨?_, fun c member => ?_, bracket_not_mem_splitBefore _, fun unfinished => ?_⟩
      · cases r with
        | nil => simp [Text.startsWithLetter] at letter
        | cons c r =>
          have plain : isNameEnd c = false := isNameEnd_of_isAlpha letter
          simpa [plain, Text.startsWithLetter] using letter
      · simpa using List.all_eq_true.1 List.all_takeWhile c member
      · -- Without a closing bracket the scanner runs to the end of the source.
        apply further.eq_nil
        rw [← rest]
        have empty : (splitBefore ['>'] (r.dropWhile fun c => !isNameEnd c)).2 = [] := by
          simpa [scanBracket] using unfinished
        simp [scanBracket, empty]

end Piece
end Written
end TagLint
