import TagLint.Text.Letter

/-!
Template regions inside markup text.

A template engine marks its regions with pairs of delimiters. A region starts where an opening
delimiter stands and runs through the first closing delimiter of the same pair, or to the end of
the text. Markup inside a region is not markup; `skim` passes over regions as wholes, and
`Fragment.ofText` divides a text into regions and the plain text between them.
-/
namespace TagLint

/-- A pair of template delimiters. -/
structure Delimiters where
  opening : Text
  closing : Text
  deriving DecidableEq, Repr

namespace Template

/-- Whether `needle` stands at the start of `t`, or starts there and reaches into `following`. -/
def startsAcross (following : Text) : Text → Text → Bool
  | [], _ => true
  | n :: needle, [] => (n :: needle).isPrefixOf following
  | n :: needle, c :: t => n == c && startsAcross following needle t

theorem startsAcross_iff {following needle t : Text} :
    startsAcross following needle t = true ↔ needle <+: t ++ following := by
  fun_induction startsAcross following needle t with
  | case1 => simp
  | case2 n needle => simp [List.isPrefixOf_iff_prefix]
  | case3 n needle c t ih => simp [ih, List.cons_prefix_cons]

/-- The first pair whose opening delimiter, if it has one, stands at the start of `t`, which
`following` comes after. -/
def opener? (pairs : List Delimiters) (t following : Text) : Option Delimiters :=
  pairs.find? fun pair => !pair.opening.isEmpty && startsAcross following pair.opening t

/-- The region at the start of `t`, with the rest of `t` after it. The opening delimiter may reach
into `following`, the text after `t`; the region does not. -/
def region? (pairs : List Delimiters) (t following : Text) : Option (Text × Text) :=
  (opener? pairs t following).map fun pair =>
    if pair.opening.length ≤ t.length then
      match Text.find? pair.closing (t.drop pair.opening.length) with
      | some (body, rest) =>
        (pair.opening ++ body ++ pair.closing, rest.drop pair.closing.length)
      | none => (t, [])
    else (t, [])

/-- An opener that is found is one of the pairs, is not empty, and stands at the front. -/
theorem opener?_spec {pairs : List Delimiters} {t following : Text} {pair : Delimiters}
    (found : opener? pairs t following = some pair) :
    pair ∈ pairs ∧ pair.opening ≠ [] ∧ pair.opening <+: t ++ following := by
  unfold opener? at found
  have holds := List.find?_some found
  refine ⟨List.mem_of_find?_eq_some found, ?_, ?_⟩
  · intro empty
    simp [empty] at holds
  · rw [Bool.and_eq_true] at holds
    exact startsAcross_iff.1 holds.2

/-- A region and what is left of the text make up the text. -/
theorem region?_append {pairs : List Delimiters} {t following region rest : Text}
    (found : region? pairs t following = some (region, rest)) : region ++ rest = t := by
  unfold region? at found
  obtain ⟨pair, opens, same⟩ := Option.map_eq_some_iff.1 found
  obtain ⟨_, _, starts⟩ := opener?_spec opens
  split at same
  next fits =>
    have lead : pair.opening <+: t := List.prefix_of_prefix_length_le starts
      (List.prefix_append t following) fits
    obtain ⟨tail, rfl⟩ := lead
    split at same
    next body after closes =>
      rw [List.drop_left] at closes
      have joined := Text.find?_append closes
      obtain ⟨last, rfl⟩ := Text.find?_prefix closes
      simp only [Prod.mk.injEq, List.drop_left] at same
      obtain ⟨rfl, rfl⟩ := same
      simp [← joined]
    · simp only [Prod.mk.injEq] at same
      obtain ⟨rfl, rfl⟩ := same
      simp
  · simp only [Prod.mk.injEq] at same
    obtain ⟨rfl, rfl⟩ := same
    simp

/-- A region takes at least one character of a text that is not at its end. -/
theorem region?_ne_nil {pairs : List Delimiters} {t following region rest : Text}
    (nonempty : t ≠ []) (found : region? pairs t following = some (region, rest)) :
    region ≠ [] := by
  unfold region? at found
  obtain ⟨pair, opens, same⟩ := Option.map_eq_some_iff.1 found
  obtain ⟨_, opening, _⟩ := opener?_spec opens
  split at same
  · split at same
    · simp only [Prod.mk.injEq] at same
      obtain ⟨rfl, _⟩ := same
      simp [opening]
    · simp only [Prod.mk.injEq] at same
      exact same.1 ▸ nonempty
  · simp only [Prod.mk.injEq] at same
    exact same.1 ▸ nonempty

/-- A region takes at least one character. -/
theorem region?_rest_lt {pairs : List Delimiters} {c : Char} {t following region rest : Text}
    (found : region? pairs (c :: t) following = some (region, rest)) :
    rest.length < (c :: t).length := by
  have joined := region?_append found
  have taken := region?_ne_nil (List.cons_ne_nil c t) found
  have lengths := congrArg List.length joined
  rw [List.length_append] at lengths
  have : 0 < region.length := List.length_pos_iff.2 taken
  omega

/-- Passes over `t` up to the first place where `stops` holds, taking regions as wholes. Inside a
region `stops` is not asked; at the start of one it is. -/
def skim (pairs : List Delimiters) (stops : Text → Bool) : Text → Text × Text
  | [] => ([], [])
  | c :: t =>
    if stops (c :: t) then ([], c :: t)
    else match _found : region? pairs (c :: t) [] with
      | some (region, rest) =>
        let onward := skim pairs stops rest
        (region ++ onward.1, onward.2)
      | none =>
        let onward := skim pairs stops t
        (c :: onward.1, onward.2)
termination_by t => t.length
decreasing_by
  · exact region?_rest_lt (by assumption)
  · simp

/-- What is skimmed and what is left make up the text. -/
theorem skim_append (pairs : List Delimiters) (stops : Text → Bool) (t : Text) :
    (skim pairs stops t).1 ++ (skim pairs stops t).2 = t := by
  fun_induction skim pairs stops t with
  | case1 => rfl
  | case2 => rfl
  | case3 c t _ region rest found onward ih =>
    rw [List.append_assoc, ih]
    exact region?_append found
  | case4 c t _ _ onward ih => rw [List.cons_append, ih]

end Template

/-- A stretch of text that lies inside a template region, or outside of all of them. -/
structure Part where
  isTemplate : Bool
  text : Text
  deriving DecidableEq, Repr

namespace Part

def consPlain (c : Char) : List Part → List Part
  | ⟨false, text⟩ :: parts => ⟨false, c :: text⟩ :: parts
  | parts => ⟨false, [c]⟩ :: parts

/-- Divides `t`, which `following` comes after, into regions and the plain text between them. -/
def divide (pairs : List Delimiters) (following : Text) : Text → List Part
  | [] => []
  | c :: t =>
    match _found : Template.region? pairs (c :: t) following with
    | some (region, rest) => ⟨true, region⟩ :: divide pairs following rest
    | none => consPlain c (divide pairs following t)
termination_by t => t.length
decreasing_by
  · exact Template.region?_rest_lt (by assumption)
  · simp

def join (parts : List Part) : Text :=
  parts.flatMap Part.text

/-- A character put in front of the parts is in front of their text. -/
theorem join_consPlain (c : Char) (parts : List Part) :
    join (consPlain c parts) = c :: join parts := by
  unfold consPlain
  split <;> simp [join]

/-- The parts of a text make up the text. -/
theorem join_divide (pairs : List Delimiters) (following t : Text) :
    join (divide pairs following t) = t := by
  fun_induction divide pairs following t with
  | case1 => rfl
  | case2 c t region rest found ih =>
    have : join (⟨true, region⟩ :: divide pairs following rest) =
        region ++ join (divide pairs following rest) := by simp [join]
    rw [this, ih]
    exact Template.region?_append found
  | case3 c t _ ih => rw [join_consPlain, ih]

end Part

/-- Text with its division into template regions and plain parts; without a region it is not
divided. -/
structure Fragment where
  text : Text
  parts : List Part
  deriving DecidableEq, Repr

namespace Fragment

/-- The fragment that `t` is when `following` comes after it. -/
def ofText (pairs : List Delimiters) (t following : Text) : Fragment :=
  let parts := Part.divide pairs following t
  ⟨t, if parts.any Part.isTemplate then parts else []⟩

/-- A fragment keeps its text. -/
@[simp] theorem text_ofText (pairs : List Delimiters) (t following : Text) :
    (ofText pairs t following).text = t := rfl

end Fragment
end TagLint
