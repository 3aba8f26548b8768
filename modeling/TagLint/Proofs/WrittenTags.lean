import TagLint.Proofs.Reads
import TagLint.Proofs.TagRereading

/-!
How opening tags are written.

The scanner reads an opening tag in turns: separators, then an attribute, until the tag or the
source ends. Each turn leaves by one of many ways; what all of them have in common is the form of
what was read, and that a part is left open only where the source ends.
-/
namespace TagLint.Written

/-- What may stand between attributes. -/
def IsSeparator (c : Char) : Prop :=
  isMarkupSpace c = true ∨ c = '/'

/-- Whether the assignment has the form that is read where `rest` comes after it. -/
structure Assignment.IsFormed (rest : Text) (a : Assignment) : Prop where
  beforeSign : ∀ c ∈ a.beforeSign, isMarkupSpace c = true
  afterSign : ∀ c ∈ a.afterSign, isMarkupSpace c = true
  quote : ∀ c ∈ a.quote, c = '"' ∨ c = '\''
  bare : a.quote = none → ∀ c ∈ a.value.text.head?, c ≠ '"' ∧ c ≠ '\''
  /-- A quote is missing at the end only where the source ends. -/
  closes : a.quote.isSome = true → a.isClosed = false → rest = []

/-- Whether the attribute has the form that is read where `rest` comes after it. -/
structure Attribute.IsFormed (rest : Text) (a : Attribute) : Prop where
  keyless : a.key = none ↔ a.render.head? = some '='
  key : ∀ key ∈ a.key, key.text ≠ []
  assignment : ∀ assignment ∈ a.assignment, assignment.IsFormed rest

/-- Whether each attribute, with the separators before it, has the form that is read where the
others and `rest` come after it. -/
def OpenTag.FormAttributes (rest : Text) : List (Text × Attribute) → Prop
  | [] => True
  | entry :: others =>
    (∀ c ∈ entry.1, IsSeparator c) ∧ entry.2.IsFormed (renderAttributes others ++ rest) ∧
      FormAttributes rest others

/-- Whether the tag has the form that is read where `rest` comes after it. -/
structure OpenTag.IsFormed (rest : Text) (tag : OpenTag) : Prop where
  letter : Text.startsWithLetter tag.name = true
  name : ∀ c ∈ tag.name, isNameEnd c = false
  attributes : FormAttributes (tailText tag.gap tag.ending rest) tag.attributes
  gap : ∀ c ∈ tag.gap, IsSeparator c
  ending : tag.ending = .unfinished → rest = []

section Scan

variable (pairs : List Delimiters)

/-- What is skimmed begins as the text does, unless skimming stops at once. -/
theorem head?_skim {stops : Text → Bool} {c : Char} {t : Text} (runs : stops (c :: t) = false) :
    (Template.skim pairs stops (c :: t)).1.head? = some c := by
  have joined := Template.skim_append pairs stops (c :: t)
  have shorter := skim_rest_lt pairs stops c t runs
  cases taken : (Template.skim pairs stops (c :: t)).1 with
  | nil =>
    rw [taken, List.nil_append] at joined
    exact absurd (congrArg List.length joined) (Nat.ne_of_lt shorter)
  | cons d s =>
    rw [taken, List.cons_append, List.cons.injEq] at joined
    exact congrArg some joined.1

theorem head?_skim_of_mem {stops : Text → Bool} {t : Text} {c : Char}
    (first : c ∈ (Template.skim pairs stops t).1.head?) : t.head? = some c := by
  have joined := Template.skim_append pairs stops t
  obtain ⟨s, shown⟩ := List.head?_eq_some_iff.1 first
  rw [← joined, shown]
  rfl

theorem isSeparator_of_mem_splitGap (t : Text) : ∀ c ∈ (splitGap t).1, IsSeparator c := by
  fun_induction splitGap t with
  | case1 => simp
  | case2 => simp
  | case3 c t _ separator sides ih =>
    intro d member
    rcases List.mem_cons.1 member with rfl | later
    · simpa [IsSeparator] using separator
    · exact ih d later
  | case4 => simp

/-- A value is quoted or bare, and a quote is missing after it only where the text ends. -/
theorem Assignment.scanValue_formed (t : Text) :
    (∀ c ∈ (scanValue pairs t).1, c = '"' ∨ c = '\'') ∧
      ((scanValue pairs t).1 = none →
        ∀ c ∈ (scanValue pairs t).2.1.text.head?, c ≠ '"' ∧ c ≠ '\'') ∧
      ((scanValue pairs t).1.isSome = true → (scanValue pairs t).2.2.1 = false →
        (scanValue pairs t).2.2.2 = []) := by
  unfold scanValue
  split
  · simp
  next c r =>
    split
    next quoted =>
      refine ⟨by simpa using quoted, by simp, fun _ unclosed => ?_⟩
      have empty : (Template.skim pairs (fun s => s.head? == some c) r).2 = [] := by
        simpa using unclosed
      simp [empty]
    next plain =>
      refine ⟨by simp, fun _ d first => ?_, by simp⟩
      rw [Fragment.text_ofText] at first
      obtain rfl := Option.some.inj (head?_skim_of_mem pairs first)
      simpa using plain

theorem Assignment.isFormed_scan {beforeSign : Text}
    (spaces : ∀ c ∈ beforeSign, isMarkupSpace c = true) (t : Text) :
    (scan pairs beforeSign t).1.IsFormed (scan pairs beforeSign t).2 := by
  obtain ⟨quote, bare, closes⟩ := scanValue_formed pairs (t.dropWhile isMarkupSpace)
  exact ⟨spaces, fun c => List.all_eq_true.1 List.all_takeWhile c, quote, bare, closes⟩

theorem Attribute.isFormed_scan {c : Char} {t : Text}
    (runs : c ≠ '=' → endsKey pairs (c :: t) = false) :
    (scan pairs (c :: t)).1.IsFormed (scan pairs (c :: t)).2 := by
  -- The attribute takes at least one character, and what is read joins up to the text.
  have begins : (scan pairs (c :: t)).1.render.head? = some c := by
    have joined := render_scan pairs (c :: t)
    have shorter := scan_rest_lt pairs c t runs
    cases shown : (scan pairs (c :: t)).1.render with
    | nil =>
      rw [shown, List.nil_append] at joined
      exact absurd (congrArg List.length joined) (Nat.ne_of_lt shorter)
    | cons d s =>
      rw [shown, List.cons_append, List.cons.injEq] at joined
      exact congrArg some joined.1
  have key : (scan pairs (c :: t)).1.key = (scanKey pairs (c :: t)).1 := by
    simp only [scan]
    split <;> rfl
  have spaces : ∀ d ∈ (scanKey pairs (c :: t)).2.takeWhile isMarkupSpace,
      isMarkupSpace d = true := fun d => List.all_eq_true.1 List.all_takeWhile d
  refine ⟨?_, ?_, ?_⟩
  · rw [begins, key, scanKey, Option.some.injEq]
    by_cases assigns : c = '=' <;> simp [assigns]
  · intro fragment own
    rw [key, scanKey] at own
    split at own
    · contradiction
    next other =>
      obtain rfl := Option.some.inj own
      have assigns : c ≠ '=' := by simpa using other
      have first := head?_skim pairs (runs assigns)
      rw [Fragment.text_ofText]
      intro empty
      simp [empty] at first
  · simp only [scan]
    split
    next r same =>
      rintro assignment ⟨⟩
      exact Assignment.isFormed_scan pairs spaces r
    · simp

namespace OpenTag

theorem formAttributes_scan (t : Text) :
    FormAttributes (tailText (scanAttributes pairs t).2.1 (scanAttributes pairs t).2.2.1
        (scanAttributes pairs t).2.2.2) (scanAttributes pairs t).1 ∧
      (∀ c ∈ (scanAttributes pairs t).2.1, IsSeparator c) ∧
      ((scanAttributes pairs t).2.2.1 = .unfinished → (scanAttributes pairs t).2.2.2 = []) := by
  -- The induction is on the turns of the loop; `rest` is what the last turn leaves, so the form of
  -- an attribute is told of all that later turns read and of `rest` together.
  fun_induction scanAttributes pairs t with
  | case1 t ending rest found =>
    refine ⟨trivial, isSeparator_of_mem_splitGap t, fun unfinished => ?_⟩
    simp only at unfinished
    subst unfinished
    unfold Ending.scan? at found
    split at found <;> simp_all
  | case2 t goesOn first others ih =>
    obtain ⟨c, r, shown, runs⟩ := endsKey_splitGap pairs goesOn
    have formed := Attribute.isFormed_scan pairs runs
    rw [← shown] at formed
    have joined := scanAttributes_append pairs first.2
    refine ⟨⟨isSeparator_of_mem_splitGap t, ?_, ih.1⟩, ih.2⟩
    have onward : renderAttributes others.1 ++
        tailText others.2.1 others.2.2.1 others.2.2.2 = first.2 := by
      simpa [renderAttributes, tailText] using joined
    rw [onward]
    exact formed

theorem isFormed_scan {t : Text} (letter : Text.startsWithLetter t = true) :
    (scan pairs t).1.IsFormed (scan pairs t).2 := by
  obtain ⟨attributes, gap, ending⟩ :=
    formAttributes_scan pairs (t.dropWhile fun c => !isNameEnd c)
  refine ⟨?_, fun c member => ?_, attributes, gap, ending⟩
  · cases t with
    | nil => simp [Text.startsWithLetter] at letter
    | cons c r =>
      have plain : isNameEnd c = false := Piece.isNameEnd_of_isAlpha letter
      simpa [scan, plain, Text.startsWithLetter] using letter
  · simpa using List.all_eq_true.1 List.all_takeWhile c member

end OpenTag

end Scan

namespace Piece

/-- What a piece is read as where an opening tag begins. -/
theorem scan_opens (pairs : List Delimiters) {t : Text} (found : Construct.of? t = some .opening) :
    ∃ r, t = '<' :: r ∧ Text.startsWithLetter r = true ∧ scan pairs t =
      if (OpenTag.scan pairs r).1.isRaw then
        if (OpenTag.scan pairs r).1.isSelfClosing then
          (raw (OpenTag.scan pairs r).1 none, (OpenTag.scan pairs r).2)
        else
          let body := RawBody.scan pairs (OpenTag.scan pairs r).1.name (OpenTag.scan pairs r).2
          (raw (OpenTag.scan pairs r).1 (some body.1), body.2)
      else (opening (OpenTag.scan pairs r).1, (OpenTag.scan pairs r).2) := by
  obtain ⟨r, rfl, letter⟩ := Construct.opens_of_of? found
  refine ⟨r, rfl, letter, ?_⟩
  simp only [scan, found, List.tail_cons]
  rfl

/-- An opening tag that is read has the form of one. -/
theorem Reads.opening_formed {pairs : List Delimiters} {tag : OpenTag} {others : List Piece}
    (reads : Reads pairs (opening tag :: others)) : tag.IsFormed (renderAll others) := by
  obtain ⟨_, read, _⟩ := reads
  cases found : Construct.of? ((opening tag).render ++ renderAll others) with
  | none => simp [scan, found] at read
  | some construct =>
    cases construct with
    | comment | doctype | closing => simp [scan, found] at read
    | opening =>
      obtain ⟨r, _, letter, shown⟩ := scan_opens pairs found
      rw [shown] at read
      split_ifs at read <;> simp only [Prod.mk.injEq, reduceCtorEq, false_and] at read
      obtain ⟨same, rest⟩ := read
      cases same
      exact rest ▸ OpenTag.isFormed_scan pairs letter

/-- What is read of a raw element: its opening tag and, unless that closes itself, its body. -/
theorem Reads.raw_formed {pairs : List Delimiters} {tag : OpenTag} {body : Option RawBody}
    {others : List Piece} (reads : Reads pairs (raw tag body :: others)) :
    tag.IsFormed ((body.map RawBody.render).getD [] ++ renderAll others) ∧
      (tag.isSelfClosing = true ∧ body = none ∨ tag.isSelfClosing = false ∧ ∃ own, body = some own ∧
        RawBody.scan pairs tag.name (own.render ++ renderAll others) =
          (own, renderAll others)) := by
  obtain ⟨_, read, _⟩ := reads
  cases found : Construct.of? ((raw tag body).render ++ renderAll others) with
  | none => simp [scan, found] at read
  | some construct =>
    cases construct with
    | comment | doctype | closing => simp [scan, found] at read
    | opening =>
      obtain ⟨r, _, letter, shown⟩ := scan_opens pairs found
      have formed := OpenTag.isFormed_scan pairs letter
      rw [shown] at read
      split_ifs at read with isRaw closes
      · -- The tag closes itself, and the other pieces come right after it.
        simp only [Prod.mk.injEq] at read
        obtain ⟨same, rest⟩ := read
        cases same
        exact ⟨rest ▸ formed, Or.inl ⟨closes, rfl⟩⟩
      · -- What comes after the tag is its body and then the other pieces.
        simp only [Prod.mk.injEq] at read
        obtain ⟨same, rest⟩ := read
        cases same
        have joined := RawBody.render_scan pairs (OpenTag.scan pairs r).1.name
          (OpenTag.scan pairs r).2
        rw [rest] at joined
        refine ⟨?_, Or.inr ⟨by simpa using closes, _, rfl, ?_⟩⟩
        · simp only [Option.map_some, Option.getD_some]
          rw [joined]
          exact formed
        · rw [joined, ← rest]
      · simp only [Prod.mk.injEq, reduceCtorEq, false_and] at read

end Piece

end TagLint.Written
