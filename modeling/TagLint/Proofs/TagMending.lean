import TagLint.Proofs.Rereading
import TagLint.Source.Span
import TagLint.Text.Blank
import Mathlib.Data.List.Infix

/-!
Reading a tag again that is given another end.

`OpenTag.mend` is the tag as the fixes of `require-closing-tags` leave it: they write ` />` or `>`
right after its last attribute. Such a tag is read as it is meant where its last attribute does not
go on into the new end (`OpenTag.admits`) and no opening delimiter has come to stand there
(`OpenersApartFrom`).
-/
namespace TagLint

open Written (Piece OpenTag Ending Construct isNameEnd endsContent)

/-- Whether each opening delimiter that stands in a text, and begins at such a place, ends no later
than at `stop`. -/
def OpenersEndBy (pairs : List Delimiters) (t : Text) (begins : Nat → Prop) (stop : Nat) : Prop :=
  ∀ pair ∈ pairs, pair.opening ≠ [] → ∀ before after : Text,
    t = before ++ (pair.opening ++ after) → begins before.byteLength →
    (before ++ pair.opening).byteLength ≤ stop

namespace OpenersEndBy

variable {pairs : List Delimiters} {begins : Nat → Prop} {stop : Nat} {left s t : Text}

theorem of_absent (absent : ∀ pair ∈ pairs, ¬pair.opening <:+: t) (begins : Nat → Prop)
    (stop : Nat) : OpenersEndBy pairs t begins stop := by
  rintro pair member _ before after rfl _
  exact absurd ⟨before, after, by simp⟩ (absent pair member)

/-- A text is quiet before another one if opening delimiters that begin in it end in it. -/
theorem quiet (ends : OpenersEndBy pairs (left ++ (s ++ t)) begins (left ++ s).byteLength)
    (among : ∀ front x : Text, s = front ++ x → x ≠ [] → begins (left ++ front).byteLength) :
    Quiet pairs s [] t := by
  rintro pair member x ⟨front, rfl⟩ full ⟨after, starts⟩
  by_cases opens : pair.opening = []
  · simp [opens]
  have split : left ++ (front ++ x ++ t) = left ++ front ++ (pair.opening ++ after) := by
    rw [starts]
    simp
  have short := ends pair member opens (left ++ front) after split (among front x rfl full)
  -- So the delimiter is over where the second text begins.
  have whole : left ++ front ++ pair.opening ++ after = left ++ (front ++ x) ++ t := by
    rw [List.append_assoc, ← split, List.append_assoc, List.append_assoc, List.append_assoc]
  obtain ⟨middle, inside, _⟩ := Text.exists_middle whole short
  simp only [List.append_assoc, List.append_cancel_left_eq] at inside
  rw [inside, List.append_nil]
  exact List.prefix_append _ _

end OpenersEndBy

/-- Whether no opening delimiter that begins in the first one of three texts, or with the second
one, reaches into that. -/
def OpenersApartFrom (pairs : List Delimiters) (left mid right : Text) : Prop :=
  OpenersEndBy pairs (left ++ (mid ++ right)) (· ≤ left.byteLength) left.byteLength

namespace OpenersApartFrom

variable {pairs : List Delimiters} {left mid right : Text}

theorem quiet (spare : OpenersApartFrom pairs left mid right) (s : Text) :
    Quiet pairs left s (mid ++ right) := by
  have within : OpenersEndBy pairs ([] ++ (left ++ (mid ++ right))) (· ≤ left.byteLength)
      (Text.byteLength ([] ++ left)) := spare
  refine (within.quiet fun front x whole _ => ?_).of_nil s
  simp [whole]

/-- No opening delimiter begins where the middle text does. -/
theorem opener?_eq_none (spare : OpenersApartFrom pairs left mid right) :
    Template.opener? pairs (mid ++ right) [] = none := by
  rw [Template.opener?_eq_none_iff]
  rintro pair member opens ⟨after, starts⟩
  have := Text.byteLength_pos opens
  have short := spare pair member opens left after (by rw [starts]) (Nat.le_refl _)
  rw [Text.byteLength_append] at short
  omega

end OpenersApartFrom

namespace Written

namespace Ending

/-- What comes before the end of a tag that is written anew. -/
def mendGap : Ending → Text
  | selfClosing => [' ']
  | _ => []

/-- The end of a tag as it is written anew. -/
def mended (ending : Ending) : Text :=
  ending.mendGap ++ ending.render

theorem mended_ne_nil {ending : Ending} (ends : ending ≠ .unfinished) : ending.mended ≠ [] := by
  cases ending with
  | unfinished => exact absurd rfl ends
  | plain | selfClosing => simp [mended, render]

end Ending

namespace OpenTag

/-- The tag up to its last attribute. -/
def head (tag : OpenTag) : Text :=
  '<' :: tag.name ++ renderAttributes tag.attributes

/-- The tag with its end written anew. -/
def mend (ending : Ending) (tag : OpenTag) : OpenTag :=
  { tag with
    gap := ending.mendGap
    ending := ending }

/-- Whether the last attribute, if there is one, ends where a new end is written right after it. -/
def admits (pairs : List Delimiters) (ending : Ending) (tag : OpenTag) : Bool :=
  tag.attributes.getLast?.all fun entry =>
    entry.2.leaves ending.mended && !(tag.ending == .unfinished && entry.2.isOpen pairs)

theorem render_eq (tag : OpenTag) : tag.render = tag.head ++ (tag.gap ++ tag.ending.render) := by
  simp [render, head, renderAttributes]

theorem render_mend (ending : Ending) (tag : OpenTag) :
    (tag.mend ending).render = tag.head ++ ending.mended := by
  rw [render_eq]
  rfl

variable {pairs : List Delimiters} {ending : Ending} {tag : OpenTag} {left t : Text}

/-- A new end ends attributes as the old one did. -/
private theorem mended_ends (ends : ending ≠ .unfinished)
    (spare : OpenersApartFrom pairs left ending.mended t) (s : Text) :
    EndsAlike pairs left s (ending.mended ++ t) ∧
      (∀ c ∈ (ending.mended ++ t).head?, isNameEnd c = true) ∧
      scanAttributes pairs (ending.mended ++ t) = ([], ending.mendGap, ending, t) := by
  -- Both new ends begin with what ends a value and a key, unless a template region begins there.
  have unopened := spare.opener?_eq_none
  have quiet := spare.quiet s
  cases ending with
  | unfinished => exact absurd rfl ends
  | plain =>
    simp only [Ending.mended, Ending.mendGap, Ending.render, List.nil_append,
      List.singleton_append] at unopened quiet ⊢
    refine ⟨⟨quiet, fun _ => ?_, fun _ => ?_, fun _ => ?_⟩, ?_, ?_⟩
    · rw [endsValue_cons, unopened]
      rfl
    · rw [endsKey_cons, unopened]
      rfl
    · intro u same
      simp [isMarkupSpace] at same
    · rintro c ⟨⟩
      rfl
    · exact scanAttributes_end rfl
  | selfClosing =>
    simp only [Ending.mended, Ending.mendGap, Ending.render, List.cons_append,
      List.nil_append] at unopened quiet ⊢
    refine ⟨⟨quiet, fun _ => ?_, fun _ => ?_, fun _ => ?_⟩, ?_, ?_⟩
    · rw [endsValue_cons, unopened]
      rfl
    · rw [endsKey_cons, unopened]
      rfl
    · intro u same
      simp [isMarkupSpace] at same
    · rintro c ⟨⟩
      rfl
    · exact scanAttributes_end rfl

theorem scan_mended {u rest : Text} (read : OpenTag.scan pairs u = (tag, rest))
    (ends : ending ≠ .unfinished) (admits : tag.admits pairs ending = true)
    (spare : OpenersApartFrom pairs (left ++ tag.head) ending.mended t) :
    ∃ tag', OpenTag.scan pairs
        (tag.name ++ (renderAttributes tag.attributes ++ (ending.mended ++ t))) = (tag', t) ∧
      tag'.bare = (tag.mend ending).bare := by
  obtain ⟨alike, edge, scanned⟩ :=
    mended_ends ends spare (tailText tag.gap tag.ending rest)
  have last (entry : Text × Attribute) (member : entry ∈ tag.attributes.getLast?) :
      entry.2.leaves ending.mended = true ∧
        (tag.ending = .unfinished → entry.2.isOpen pairs = false) := by
    rw [OpenTag.admits, Option.mem_def.1 member] at admits
    simpa [imp_iff_not_or] using admits
  -- What the last attribute takes of its surroundings depends on one character after it.
  have leaves (entry : Attribute) :
      entry.leaves (ending.mended ++ t) = entry.leaves ending.mended := by
    cases ending with
    | unfinished => exact absurd rfl ends
    | plain | selfClosing => rfl
  have unfinished (empty : tailText tag.gap tag.ending rest = []) : tag.ending = .unfinished := by
    simp only [tailText, List.append_eq_nil_iff] at empty
    cases shown : tag.ending with
    | unfinished => rfl
    | plain | selfClosing => simp [Ending.render, shown] at empty
  obtain ⟨attributes, again, bare⟩ := openTag_ended read
    (alike.within ⟨left ++ '<' :: tag.name, by simp [head]⟩)
    (fun entry member empty => (last entry member).2 (unfinished empty))
    (fun entry member => Or.inr (by rw [leaves]; exact (last entry member).1))
    (fun _ => edge) scanned
  exact ⟨_, again, congrArg
    (fun attributes => (⟨tag.name, attributes, ending.mendGap, ending⟩ : OpenTag)) bare⟩

end OpenTag

namespace Piece

variable {pairs : List Delimiters} {ending : Ending} {tag : OpenTag} {left s t : Text}

theorem of_scan_opening (read : scan pairs (tag.render ++ s) = (.opening tag, s)) :
    Text.startsWithLetter tag.name = true ∧ tag.isRaw = false ∧
      ∃ u, OpenTag.scan pairs u = (tag, s) := by
  unfold scan at read
  split at read
  · simp at read
  · simp at read
  · simp at read
  next found =>
    obtain ⟨r, whole, letter⟩ := Construct.opens_of_of? found
    simp only [whole, List.tail_cons] at read
    split at read
    · split at read <;> simp at read
    next plain =>
      obtain ⟨same, left⟩ := Prod.mk.inj read
      have tagRead : OpenTag.scan pairs r = (tag, s) := Prod.ext (Piece.opening.inj same) left
      refine ⟨?_, by simpa [tagRead] using plain, r, tagRead⟩
      -- The name goes on to the first character that ends names, and a letter is none.
      have name : tag.name = r.takeWhile fun c => !isNameEnd c := by
        rw [← Piece.opening.inj same]
        rfl
      cases r with
      | nil => simp [Text.startsWithLetter] at letter
      | cons c r =>
        have alpha : c.isAlpha = true := letter
        rw [name, List.takeWhile_cons, isNameEnd_of_isAlpha alpha]
        exact alpha
  · simp at read

/-- An opening tag whose end is written anew is read, whatever comes after it. -/
theorem scan_mended (read : scan pairs (tag.render ++ s) = (.opening tag, s))
    (ends : ending ≠ .unfinished) (admits : tag.admits pairs ending = true)
    (spare : OpenersApartFrom pairs (left ++ tag.head) ending.mended t) :
    ∃ tag', scan pairs ((tag.mend ending).render ++ t) = (.opening tag', t) ∧
      tag'.bare = (tag.mend ending).bare := by
  obtain ⟨letter, plain, u, tagRead⟩ := of_scan_opening read
  obtain ⟨tag', again, bare⟩ := OpenTag.scan_mended tagRead ends admits spare
  have shown : (tag.mend ending).render ++ t =
      '<' :: (tag.name ++ (OpenTag.renderAttributes tag.attributes ++ (ending.mended ++ t))) := by
    simp [OpenTag.render_mend, OpenTag.head]
  have begins := (Construct.of?_letter (Text.startsWithLetter_append letter
    (OpenTag.renderAttributes tag.attributes ++ (ending.mended ++ t)))).1
  have raw : tag'.isRaw = false := by
    rw [← OpenTag.isRaw_bare, bare]
    exact plain
  refine ⟨tag', ?_, bare⟩
  rw [shown]
  simp only [scan, begins, List.tail_cons, again, raw]
  rfl

variable {tag' : OpenTag} {others others' : List Piece}

theorem render_of_mended (bare : tag'.bare = (tag.mend ending).bare) :
    tag'.render = tag.head ++ ending.mended := by
  rw [OpenTag.render_of_bare bare, OpenTag.render_mend]

/-- An opening tag whose end is written anew is read before any other pieces. -/
theorem Reads.mend_tag (reads : Reads pairs (.opening tag :: others))
    (reads' : Reads pairs others') (ends : ending ≠ .unfinished)
    (admits : tag.admits pairs ending = true)
    (spare : OpenersApartFrom pairs (left ++ tag.head) ending.mended (renderAll others')) :
    ∃ tag', Reads pairs (.opening tag' :: others') ∧ tag'.bare = (tag.mend ending).bare := by
  obtain ⟨_, read, _⟩ := reads
  obtain ⟨tag', again, bare⟩ := scan_mended read ends admits spare
  refine ⟨tag', reads'.cons ?_ ?_ again, bare⟩
  · rw [Piece.render, render_of_mended bare, OpenTag.render_mend]
  · simp [OpenTag.render_mend, OpenTag.head]

private theorem renderAll_tag (tag : OpenTag) (others : List Piece) :
    renderAll (.opening tag :: others) =
      tag.head ++ (tag.gap ++ tag.ending.render ++ renderAll others) := by
  simp [renderAll, Piece.render, OpenTag.render_eq]

private theorem renderAll_mended (bare : tag'.bare = (tag.mend ending).bare)
    (others : List Piece) :
    renderAll (.opening tag' :: others) = tag.head ++ (ending.mended ++ renderAll others) := by
  simp [renderAll, Piece.render, render_of_mended bare]

/-- The new end of a tag brings up no opening delimiter that begins before the tag. -/
theorem quiet_mended
    (spare : OpenersApartFrom pairs (left ++ tag.head) ending.mended (renderAll others'))
    (bare : tag'.bare = (tag.mend ending).bare) (others : List Piece) :
    Quiet pairs left (renderAll (.opening tag :: others))
      (renderAll (.opening tag' :: others')) := by
  rw [renderAll_tag, renderAll_mended bare]
  exact (spare.quiet _).append_left

/-- A text before the tag ends there still. -/
theorem Reads.endsContent_mended (reads' : Reads pairs (.opening tag' :: others'))
    (spare : OpenersApartFrom pairs (left ++ tag.head) ending.mended (renderAll others'))
    (bare : tag'.bare = (tag.mend ending).bare)
    (ended : endsContent pairs (renderAll (.opening tag :: others)) = true) :
    endsContent pairs (renderAll (.opening tag' :: others')) = true := by
  rw [renderAll_tag] at ended
  refine reads'.endsContent_of_quiet ?_ (renderAll_mended bare others') (by simp [OpenTag.head])
    ((spare.quiet _).within (List.suffix_append left _)) ended
  rintro _ ⟨⟩
  rfl

end Piece

end Written

end TagLint
