import TagLint.Written.Scan

/-!
Reading loses nothing: the pieces of a source, rendered one after the other, are the source.

Each scanner is shown to split its text into what it keeps and what it leaves; the pieces are
then put together construct by construct.
-/
namespace TagLint

namespace Text

/-- A break that is made stands before a suffix that was looked for. -/
theorem breakAt?_found {found : Text → Bool} {t before rest : Text}
    (split : breakAt? found t = some (before, rest)) : found rest = true := by
  induction t generalizing before rest with
  | nil => simp [breakAt?] at split
  | cons c t ih =>
    simp only [breakAt?] at split
    split at split
    next here =>
      simp only [Option.some.injEq, Prod.mk.injEq] at split
      exact split.2 ▸ here
    · obtain ⟨⟨left, right⟩, inner, same⟩ := Option.map_eq_some_iff.1 split
      simp only [Prod.mk.injEq] at same
      exact same.2 ▸ ih inner

end Text

namespace Template

/-- Skimming ends where it has to stop, or at the end of the text. -/
theorem skim_stops (pairs : List Delimiters) (stops : Text → Bool) (t : Text)
    (left : (skim pairs stops t).2 ≠ []) : stops (skim pairs stops t).2 = true := by
  fun_induction skim pairs stops t with
  | case1 => contradiction
  | case2 c t here => exact here
  | case3 c t _ region rest _ onward ih => exact ih left
  | case4 c t _ _ onward ih => exact ih left

section Steps

variable {pairs : List Delimiters} {stops : Text → Bool} {c : Char} {t : Text}

theorem skim_stop (pairs : List Delimiters) (here : stops t = true) :
    skim pairs stops t = ([], t) := by
  cases t with
  | nil => simp [skim]
  | cons c t => simp [skim, here]

theorem skim_char (runs : stops (c :: t) = false) (plain : region? pairs (c :: t) [] = none) :
    skim pairs stops (c :: t) = (c :: (skim pairs stops t).1, (skim pairs stops t).2) := by
  rw [skim, if_neg (by simp [runs])]
  split
  next found =>
    rw [plain] at found
    contradiction
  · rfl

theorem skim_region (runs : stops (c :: t) = false) {region rest : Text}
    (begins : region? pairs (c :: t) [] = some (region, rest)) :
    skim pairs stops (c :: t) =
      (region ++ (skim pairs stops rest).1, (skim pairs stops rest).2) := by
  rw [skim, if_neg (by simp [runs])]
  split
  next found =>
    rw [begins] at found
    cases found
    rfl
  next found =>
    rw [begins] at found
    contradiction

end Steps

end Template

namespace Written

/-- What stands after a split is empty or begins with the needle. -/
theorem splitBefore_prefix (needle t : Text) (left : (splitBefore needle t).2 ≠ []) :
    needle <+: (splitBefore needle t).2 := by
  unfold splitBefore at left ⊢
  cases found : Text.find? needle t with
  | none => simp [found] at left
  | some sides =>
    simp only [Option.getD_some]
    exact Text.find?_prefix found

/-- A text up to a needle, the needle where there is one, and the rest make up the text. -/
theorem splitBefore_needle (needle t : Text) :
    (splitBefore needle t).1 ++ (if !(splitBefore needle t).2.isEmpty then needle else []) ++
      (splitBefore needle t).2.drop needle.length = t := by
  have joined := splitBefore_append needle t
  cases rest : (splitBefore needle t).2 with
  | nil => simpa [rest] using joined
  | cons c r =>
    -- The rest begins with the needle, so dropping its length drops just the needle.
    obtain ⟨after, same⟩ := splitBefore_prefix needle t (by simp [rest])
    rw [rest] at same joined
    have after_needle : (c :: r).drop needle.length = after := by rw [← same, List.drop_left]
    simp only [List.isEmpty_cons, Bool.not_false, if_true, after_needle, List.append_assoc]
    rw [same, joined]

theorem splitBefore_cons {c : Char} (other : c ≠ '>') (t : Text) :
    splitBefore ['>'] (c :: t) = (c :: (splitBefore ['>'] t).1, (splitBefore ['>'] t).2) := by
  have plain : ('>' == c) = false := by simpa using Ne.symm other
  simp only [splitBefore, Text.find?, List.isEmpty_cons, Bool.false_eq_true, if_false,
    Text.breakAt?, List.isPrefixOf, plain, Bool.false_and]
  cases Text.breakAt? (['>'].isPrefixOf) t <;> rfl

theorem scanBracket_append (t : Text) :
    (scanBracket t).1 ++ Piece.bracket (scanBracket t).2.1 ++ (scanBracket t).2.2 = t :=
  by simpa [scanBracket, Piece.bracket] using splitBefore_needle ['>'] t

namespace Assignment

theorem scanValue_append (pairs : List Delimiters) (t : Text) :
    (scanValue pairs t).1.toList ++ (scanValue pairs t).2.1.text ++
      (if (scanValue pairs t).2.2.1 then (scanValue pairs t).1.toList else []) ++
      (scanValue pairs t).2.2.2 = t := by
  unfold scanValue
  split
  · simp
  next c r =>
    split
    · have joined := Template.skim_append pairs (fun s => s.head? == some c) r
      have stops := Template.skim_stops pairs (fun s => s.head? == some c) r
      cases rest : (Template.skim pairs (fun s => s.head? == some c) r).2 with
      | nil => simpa [rest] using joined
      | cons d s =>
        -- What skimming stopped at is the quote again.
        have quoted : d = c := by simpa [rest] using stops
        rw [rest, quoted] at joined
        simpa [rest] using joined
    · simpa using Template.skim_append pairs (endsValue pairs) (c :: r)

theorem render_scan (pairs : List Delimiters) (beforeSign t : Text) :
    (scan pairs beforeSign t).1.render ++ (scan pairs beforeSign t).2 =
      beforeSign ++ '=' :: t := by
  have value := scanValue_append pairs (t.dropWhile isMarkupSpace)
  have spaces := List.takeWhile_append_dropWhile (p := isMarkupSpace) (l := t)
  calc (scan pairs beforeSign t).1.render ++ (scan pairs beforeSign t).2
      = beforeSign ++ '=' :: (t.takeWhile isMarkupSpace ++
          ((scanValue pairs (t.dropWhile isMarkupSpace)).1.toList ++
            (scanValue pairs (t.dropWhile isMarkupSpace)).2.1.text ++
            (if (scanValue pairs (t.dropWhile isMarkupSpace)).2.2.1 then
              (scanValue pairs (t.dropWhile isMarkupSpace)).1.toList else []) ++
            (scanValue pairs (t.dropWhile isMarkupSpace)).2.2.2)) := by
        simp [scan, render, quoteText]; rfl
    _ = beforeSign ++ '=' :: t := by rw [value, spaces]

end Assignment

namespace Attribute

theorem scanKey_append (pairs : List Delimiters) (t : Text) :
    ((scanKey pairs t).1.map Fragment.text).getD [] ++ (scanKey pairs t).2 = t := by
  unfold scanKey
  split
  · rfl
  · exact Template.skim_append pairs (endsKey pairs) t

theorem render_scan (pairs : List Delimiters) (t : Text) :
    (scan pairs t).1.render ++ (scan pairs t).2 = t := by
  have key := scanKey_append pairs t
  simp only [scan]
  split
  next r same =>
    have assigned := Assignment.render_scan pairs
      ((scanKey pairs t).2.takeWhile isMarkupSpace) r
    rw [← same, List.takeWhile_append_dropWhile] at assigned
    simp only [render, keyText, Option.map_some, Option.getD_some, List.append_assoc]
    rw [assigned, key]
  · simpa [render, keyText] using key

end Attribute

theorem Ending.render_scan? {t rest : Text} {ending : Ending}
    (found : scan? t = some (ending, rest)) : ending.render ++ rest = t := by
  unfold scan? at found
  split at found <;> simp at found <;> obtain ⟨rfl, rfl⟩ := found <;> rfl

namespace OpenTag

theorem scanAttributes_append (pairs : List Delimiters) (t : Text) :
    (scanAttributes pairs t).1.flatMap (fun entry => entry.1 ++ entry.2.render) ++
      (scanAttributes pairs t).2.1 ++ (scanAttributes pairs t).2.2.1.render ++
      (scanAttributes pairs t).2.2.2 = t := by
  fun_induction scanAttributes pairs t with
  | case1 t ending rest found =>
    have ends := Ending.render_scan? found
    simpa [ends] using splitGap_append t
  | case2 t found first others ih =>
    -- The tag goes on: one gap, one attribute, and what the induction says of the rest.
    have first_read := Attribute.render_scan pairs (splitGap t).2
    have gap := splitGap_append t
    simp only [List.flatMap_cons, List.append_assoc] at ih ⊢
    rw [ih]
    rw [first_read, gap]

theorem render_scan (pairs : List Delimiters) (t : Text) :
    (scan pairs t).1.render ++ (scan pairs t).2 = '<' :: t := by
  have attributes := scanAttributes_append pairs (t.dropWhile fun c => !isNameEnd c)
  have name := List.takeWhile_append_dropWhile (p := fun c => !isNameEnd c) (l := t)
  simp only [scan, render, List.cons_append, List.append_assoc] at attributes ⊢
  rw [attributes, name]

end OpenTag

theorem RawBody.render_scan (pairs : List Delimiters) (name t : Text) :
    (scan pairs name t).1.render ++ (scan pairs name t).2 = t := by
  unfold scan
  split
  · simp [render]
  next body after found =>
    have joined := Text.breakAt?_append found
    have tail := scanBracket_append after
    simp only [render, Option.getD_some, Fragment.text_ofText, List.append_assoc] at tail ⊢
    rw [tail, joined]

/-- A character that is the lower case of a character below the lower case letters is that
character. -/
theorem eq_of_toLower_eq {c d : Char} (plain : d.toNat < 97) (same : c.toLower = d) : c = d := by
  unfold Char.toLower at same
  split at same
  next upper =>
    have values := congrArg UInt32.toNat (congrArg Char.val same)
    have bound : d.val.toNat < 97 := plain
    simp [UInt32.le_iff_toNat_le] at upper values
    omega
  · exact same

namespace Construct

/-- How a text begins in which a construct is found. -/
def Opens (t : Text) : Construct → Prop
  | comment => "<!--".toList <+: t
  | doctype => Text.startsWithName "<!doctype".toList t = true
  | closing => ∃ r, t = '<' :: '/' :: r ∧ Text.startsWithLetter r = true
  | opening => ∃ r, t = '<' :: r ∧ Text.startsWithLetter r = true

theorem opens_of_of? {t : Text} {construct : Construct} (found : of? t = some construct) :
    construct.Opens t := by
  unfold of? at found
  split at found
  next starts =>
    obtain rfl := Option.some.inj found
    exact List.isPrefixOf_iff_prefix.1 starts
  split at found
  next starts =>
    obtain rfl := Option.some.inj found
    exact starts
  split at found
  next r _ _ =>
    split at found
    next letter =>
      obtain rfl := Option.some.inj found
      exact ⟨r, rfl, letter⟩
    · contradiction
  next r _ _ _ =>
    split at found
    next letter =>
      obtain rfl := Option.some.inj found
      exact ⟨r, rfl, letter⟩
    · contradiction
  · contradiction

end Construct

/-- A document type begins with an angle bracket and an exclamation mark. -/
theorem doctype_lead {t : Text} (starts : Text.startsWithName "<!doctype".toList t = true) :
    ∃ r, t = '<' :: '!' :: r := by
  match t, starts with
  | [], starts | [_], starts => simp [Text.startsWithName, Text.sameName, Text.lower] at starts
  | c :: d :: r, starts =>
    simp only [Text.startsWithName, Text.sameName, Text.lower, beq_iff_eq] at starts
    simp at starts
    refine ⟨r, ?_⟩
    rw [eq_of_toLower_eq (by decide) starts.1, eq_of_toLower_eq (by decide) starts.2.1]

namespace Piece

theorem render_scan (pairs : List Delimiters) (t : Text) :
    (scan pairs t).1.render ++ (scan pairs t).2 = t := by
  cases found : Construct.of? t with
  | none =>
    simpa [scan, found, render] using Template.skim_append pairs (endsContent pairs) t
  | some construct =>
    cases construct with
    | comment =>
      obtain ⟨body, rfl⟩ := Construct.opens_of_of? found
      have split := splitBefore_needle "-->".toList body
      simp only [scan, found, render, Fragment.text_ofText]
      rw [show ("<!--".toList ++ body).drop 4 = body from rfl]
      rw [List.append_assoc, List.append_assoc, ← List.append_assoc _ _ (List.drop _ _)]
      exact congrArg _ split
    | doctype =>
      obtain ⟨body, rfl⟩ := doctype_lead (Construct.opens_of_of? found)
      have split := scanBracket_append body
      -- The lead holds no bracket, so the one that is looked for is found in the body.
      simp only [scanBracket] at split
      simp only [scan, found, render, splitBefore_cons (show '<' ≠ '>' by decide),
        splitBefore_cons (show '!' ≠ '>' by decide), Fragment.text_ofText, List.drop_succ_cons,
        List.drop_zero, List.append_assoc] at split ⊢
      rw [split]
      rfl
    | closing =>
      obtain ⟨r, rfl, _⟩ := Construct.opens_of_of? found
      have tail := scanBracket_append (r.dropWhile fun c => !isNameEnd c)
      have name := List.takeWhile_append_dropWhile (p := fun c => !isNameEnd c) (l := r)
      simp only [scan, found, render, List.drop_succ_cons, List.drop_zero, List.append_assoc]
        at tail ⊢
      rw [tail, name]
      rfl
    | opening =>
      obtain ⟨r, rfl, _⟩ := Construct.opens_of_of? found
      have tag := OpenTag.render_scan pairs r
      have body := RawBody.render_scan pairs (OpenTag.scan pairs r).1.name (OpenTag.scan pairs r).2
      cases raw : (OpenTag.scan pairs r).1.isRaw with
      | false => simpa [scan, found, raw, render] using tag
      | true =>
        cases closes : (OpenTag.scan pairs r).1.isSelfClosing with
        | true => simpa [scan, found, raw, closes, render] using tag
        | false => simp [scan, found, raw, closes, render, body, tag]

/-- The pieces of a source make up the source. -/
theorem renderAll_scanAll (pairs : List Delimiters) (t : Text) :
    renderAll (scanAll pairs t) = t := by
  fun_induction scanAll pairs t with
  | case1 => rfl
  | case2 c t read ih =>
    simp only [renderAll, List.flatMap_cons] at ih ⊢
    rw [ih]
    exact render_scan pairs (c :: t)

end Piece
end Written
end TagLint
