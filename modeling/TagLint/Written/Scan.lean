import TagLint.Written.Piece

/-!
Reading pieces from a source.

Reading never fails: a construct that the source leaves open runs to the end of the source. What
a piece is depends only on the text that it starts, on the template delimiters, and on nothing
read before.
-/
namespace TagLint.Written

def isNameEnd (c : Char) : Bool :=
  isMarkupSpace c || c == '>' || c == '/'

/-- The markup constructs that a text can start with. -/
inductive Construct where
  | comment
  | doctype
  | closing
  | opening
  deriving DecidableEq, Repr

def Construct.of? (t : Text) : Option Construct :=
  if "<!--".toList.isPrefixOf t then some .comment
  else if Text.startsWithName "<!doctype".toList t then some .doctype
  else match t with
    | '<' :: '/' :: r => if Text.startsWithLetter r then some .closing else none
    | '<' :: r => if Text.startsWithLetter r then some .opening else none
    | _ => none

def endsContent (pairs : List Delimiters) (t : Text) : Bool :=
  (Construct.of? t).isSome && (Template.opener? pairs t []).isNone

def endsValue (pairs : List Delimiters) (t : Text) : Bool :=
  (match t with
    | [] => true
    | c :: _ => isMarkupSpace c || c == '>') && (Template.opener? pairs t []).isNone

def endsKey (pairs : List Delimiters) (t : Text) : Bool :=
  (match t with
    | [] => true
    | '/' :: '>' :: _ => true
    | c :: _ => isMarkupSpace c || c == '>' || c == '=') && (Template.opener? pairs t []).isNone

def splitBefore (needle t : Text) : Text × Text :=
  (Text.find? needle t).getD (t, [])

/-- The two sides of a split make up the text. -/
theorem splitBefore_append (needle t : Text) :
    (splitBefore needle t).1 ++ (splitBefore needle t).2 = t := by
  unfold splitBefore
  cases found : Text.find? needle t with
  | none => simp
  | some sides => exact Text.find?_append found

namespace Assignment

/-- Reads the value that follows an equals sign and white space. -/
def scanValue (pairs : List Delimiters) (t : Text) : Option Char × Fragment × Bool × Text :=
  match t with
  | [] => (none, Fragment.ofText pairs [] [], false, [])
  | c :: r =>
    if c == '"' || c == '\'' then
      let sides := Template.skim pairs (fun s => s.head? == some c) r
      (some c, Fragment.ofText pairs sides.1 sides.2, !sides.2.isEmpty, sides.2.tail)
    else
      let sides := Template.skim pairs (endsValue pairs) (c :: r)
      (none, Fragment.ofText pairs sides.1 sides.2, false, sides.2)

def scan (pairs : List Delimiters) (beforeSign t : Text) : Assignment × Text :=
  let read := scanValue pairs (t.dropWhile isMarkupSpace)
  (⟨beforeSign, t.takeWhile isMarkupSpace, read.1, read.2.1, read.2.2.1⟩, read.2.2.2)

end Assignment

namespace Attribute

/-- Reads the key, which is missing before an equals sign. -/
def scanKey (pairs : List Delimiters) (t : Text) : Option Fragment × Text :=
  if t.head? == some '=' then (none, t)
  else
    let sides := Template.skim pairs (endsKey pairs) t
    (some (Fragment.ofText pairs sides.1 sides.2), sides.2)

/-- Reads one attribute. White space after a key belongs to the attribute only when an equals sign
comes after it. -/
def scan (pairs : List Delimiters) (t : Text) : Attribute × Text :=
  let key := scanKey pairs t
  match key.2.dropWhile isMarkupSpace with
  | '=' :: r =>
    let assigned := Assignment.scan pairs (key.2.takeWhile isMarkupSpace) r
    (⟨key.1, some assigned.1⟩, assigned.2)
  | _ => (⟨key.1, none⟩, key.2)

end Attribute

/-- Splits off the separators between attributes: white space, and slashes that do not close the
tag. -/
def splitGap : Text → Text × Text
  | [] => ([], [])
  | c :: t =>
    if c == '/' && t.head? == some '>' then ([], c :: t)
    else if isMarkupSpace c || c == '/' then
      let sides := splitGap t
      (c :: sides.1, sides.2)
    else ([], c :: t)

/-- The end of the opening tag, if it stands at the start of `t`. -/
def Ending.scan? : Text → Option (Ending × Text)
  | [] => some (.unfinished, [])
  | '>' :: t => some (.plain, t)
  | '/' :: '>' :: t => some (.selfClosing, t)
  | _ => none

/-- Skimming leaves no more than there was. -/
theorem skim_rest_le (pairs : List Delimiters) (stops : Text → Bool) (t : Text) :
    (Template.skim pairs stops t).2.length ≤ t.length := by
  have joined := congrArg List.length (Template.skim_append pairs stops t)
  rw [List.length_append] at joined
  omega

/-- Skimming that does not stop at once takes a character. -/
theorem skim_rest_lt (pairs : List Delimiters) (stops : Text → Bool) (c : Char)
    (t : Text) (runs : stops (c :: t) = false) :
    (Template.skim pairs stops (c :: t)).2.length < (c :: t).length := by
  rw [Template.skim]
  simp only [runs, Bool.false_eq_true, ↓reduceIte]
  split
  next region rest found =>
    have shorter := Template.region?_rest_lt found
    have := skim_rest_le pairs stops rest
    simp only
    omega
  · have := skim_rest_le pairs stops t
    simp only [List.length_cons]
    omega

/-- A value leaves no more than there was. -/
theorem Assignment.scanValue_rest_le (pairs : List Delimiters) (t : Text) :
    (scanValue pairs t).2.2.2.length ≤ t.length := by
  unfold scanValue
  split
  · simp
  next c r =>
    split
    · have := skim_rest_le pairs (fun s => s.head? == some c) r
      simp only [List.length_tail, List.length_cons]
      omega
    · exact skim_rest_le pairs (endsValue pairs) (c :: r)

/-- An assignment leaves no more than there was. -/
theorem Assignment.scan_rest_le (pairs : List Delimiters) (beforeSign t : Text) :
    (scan pairs beforeSign t).2.length ≤ t.length := by
  have := Assignment.scanValue_rest_le pairs (t.dropWhile isMarkupSpace)
  have := (List.dropWhile_sublist isMarkupSpace (l := t)).length_le
  simp only [scan]
  omega

/-- A gap and what follows it make up the text. -/
theorem splitGap_append (t : Text) : (splitGap t).1 ++ (splitGap t).2 = t := by
  fun_induction splitGap t with
  | case1 => rfl
  | case2 => rfl
  | case3 c t _ _ sides ih => rw [List.cons_append, ih]
  | case4 => rfl

/-- A gap leaves no more than there was. -/
theorem splitGap_rest_le (t : Text) : (splitGap t).2.length ≤ t.length := by
  have joined := congrArg List.length (splitGap_append t)
  rw [List.length_append] at joined
  omega

/-- After the separators stands the end of the tag or an attribute. -/
theorem endsKey_splitGap (pairs : List Delimiters) {t : Text}
    (runs : Ending.scan? (splitGap t).2 = none) :
    ∃ c r, (splitGap t).2 = c :: r ∧ (c ≠ '=' → endsKey pairs (c :: r) = false) := by
  -- A slash before a bracket, and a bracket, are ends of the tag; other separators are passed over.
  fun_induction splitGap t with
  | case1 => simp [Ending.scan?] at runs
  | case2 c t closes =>
    simp only [Bool.and_eq_true, beq_iff_eq] at closes
    obtain ⟨rfl, next⟩ := closes
    cases t with
    | nil => simp at next
    | cons d t =>
      simp only [List.head?_cons, Option.some.injEq] at next
      subst next
      simp [Ending.scan?] at runs
  | case3 c t _ _ sides ih => exact ih runs
  | case4 c t open_ separator =>
    refine ⟨c, t, rfl, fun assigns => ?_⟩
    simp only [Bool.or_eq_true, beq_iff_eq, not_or, Bool.not_eq_true] at separator
    have plain : c ≠ '>' := by
      rintro rfl
      simp [Ending.scan?] at runs
    unfold endsKey
    split
    · contradiction
    · simp_all
    next head tail _ same =>
      obtain ⟨rfl, rfl⟩ := List.cons.inj same
      simp [separator.1, plain, assigns]

/-- An attribute takes at least one character. -/
theorem Attribute.scan_rest_lt (pairs : List Delimiters) (c : Char) (t : Text)
    (runs : c ≠ '=' → endsKey pairs (c :: t) = false) :
    (scan pairs (c :: t)).2.length < (c :: t).length := by
  by_cases assigns : c = '='
  · subst assigns
    have sign : isMarkupSpace '=' = false := by decide
    have := Assignment.scan_rest_le pairs [] t
    simp only [scan, scanKey, List.head?_cons, BEq.rfl, ↓reduceIte, List.dropWhile_cons, sign,
      Bool.false_eq_true, List.takeWhile_cons, List.length_cons]
    omega
  · have key : (scanKey pairs (c :: t)).2.length < (c :: t).length := by
      have head : ((c :: t).head? == some '=') = false := by simp [assigns]
      simp only [scanKey, head, Bool.false_eq_true, ↓reduceIte]
      exact skim_rest_lt pairs (endsKey pairs) c t (runs assigns)
    have dropped :=
      (List.dropWhile_sublist isMarkupSpace (l := (scanKey pairs (c :: t)).2)).length_le
    simp only [scan]
    split
    next r same =>
      have := Assignment.scan_rest_le pairs
        ((scanKey pairs (c :: t)).2.takeWhile isMarkupSpace) r
      rw [same, List.length_cons] at dropped
      simp only
      omega
    · exact key

namespace OpenTag

/-- Reads the attributes, the separators after them and the end of the tag. -/
def scanAttributes (pairs : List Delimiters) (t : Text) :
    List (Text × Attribute) × Text × Ending × Text :=
  match _found : Ending.scan? (splitGap t).2 with
  | some (ending, rest) => ([], (splitGap t).1, ending, rest)
  | none =>
    let first := Attribute.scan pairs (splitGap t).2
    let others := scanAttributes pairs first.2
    (((splitGap t).1, first.1) :: others.1, others.2)
termination_by t.length
decreasing_by
  obtain ⟨c, r, same, runs⟩ := endsKey_splitGap pairs (t := t) (by assumption)
  have shorter := Attribute.scan_rest_lt pairs c r runs
  have := splitGap_rest_le t
  rw [same] at this ⊢
  omega

/-- Reads the opening tag whose first bracket stands before `t`. -/
def scan (pairs : List Delimiters) (t : Text) : OpenTag × Text :=
  let read := scanAttributes pairs (t.dropWhile fun c => !isNameEnd c)
  (⟨t.takeWhile fun c => !isNameEnd c, read.1, read.2.1, read.2.2.1⟩, read.2.2.2)

/-- Whether the content of the element is raw. -/
def isRaw (tag : OpenTag) : Bool :=
  Text.sameName tag.name "script".toList || Text.sameName tag.name "style".toList

end OpenTag

/-- Reads to the end of a tag: what comes before the bracket, whether there is one, and the rest. -/
def scanBracket (t : Text) : Text × Bool × Text :=
  let sides := splitBefore ['>'] t
  (sides.1, !sides.2.isEmpty, sides.2.tail)

/-- Reads the body of the raw element `name`. It ends where `</` and the name come next, in any
case of letters, whatever stands after the name. -/
def RawBody.scan (pairs : List Delimiters) (name t : Text) : RawBody × Text :=
  match Text.breakAt? (Text.startsWithName ('<' :: '/' :: name)) t with
  | none => (⟨Fragment.ofText pairs t [], none⟩, [])
  | some (body, after) =>
    let tail := scanBracket after
    (⟨Fragment.ofText pairs body after, some (tail.1 ++ Piece.bracket tail.2.1)⟩, tail.2.2)

namespace Piece

/-- Reads one piece from a text that is not empty. -/
def scan (pairs : List Delimiters) (t : Text) : Piece × Text :=
  match Construct.of? t with
  | some .comment =>
    let sides := splitBefore "-->".toList (t.drop 4)
    (comment (Fragment.ofText pairs sides.1 sides.2) (!sides.2.isEmpty), sides.2.drop 3)
  | some .doctype =>
    let sides := splitBefore ['>'] t
    (doctype (Fragment.ofText pairs (sides.1.drop 2) sides.2) (!sides.2.isEmpty), sides.2.tail)
  | some .closing =>
    let named := t.drop 2
    let tail := scanBracket (named.dropWhile fun c => !isNameEnd c)
    (closing (named.takeWhile fun c => !isNameEnd c) tail.1 tail.2.1, tail.2.2)
  | some .opening =>
    let read := OpenTag.scan pairs t.tail
    if read.1.isRaw then
      if read.1.isSelfClosing then (raw read.1 none, read.2)
      else
        let body := RawBody.scan pairs read.1.name read.2
        (raw read.1 (some body.1), body.2)
    else (opening read.1, read.2)
  | none =>
    let sides := Template.skim pairs (endsContent pairs) t
    (text (Fragment.ofText pairs sides.1 sides.2), sides.2)

end Piece

/-- What follows a split is no longer than the text. -/
theorem splitBefore_rest_le (needle t : Text) : (splitBefore needle t).2.length ≤ t.length := by
  have joined := congrArg List.length (splitBefore_append needle t)
  rw [List.length_append] at joined
  omega

/-- A closing bracket leaves no more than there was. -/
theorem scanBracket_rest_le (t : Text) : (scanBracket t).2.2.length ≤ t.length := by
  have := splitBefore_rest_le ['>'] t
  simp only [scanBracket, List.length_tail]
  omega

/-- The end of an opening tag leaves no more than there was. -/
theorem Ending.scan?_rest_le {t rest : Text} {ending : Ending}
    (found : scan? t = some (ending, rest)) : rest.length ≤ t.length := by
  unfold scan? at found
  split at found <;> simp at found <;> obtain ⟨_, rfl⟩ := found <;> simp +arith

/-- Attributes leave no more than there was. -/
theorem OpenTag.scanAttributes_rest_le (pairs : List Delimiters) (t : Text) :
    (scanAttributes pairs t).2.2.2.length ≤ t.length := by
  fun_induction scanAttributes pairs t with
  | case1 t ending rest found =>
    have := Ending.scan?_rest_le found
    have := splitGap_rest_le t
    simp only
    omega
  | case2 t found first others ih =>
    obtain ⟨c, r, same, runs⟩ := endsKey_splitGap pairs found
    have shorter := Attribute.scan_rest_lt pairs c r runs
    have := splitGap_rest_le t
    rw [← same] at shorter
    have : others.2.2.2.length ≤ first.2.length := ih
    have : first.2.length < (splitGap t).2.length := shorter
    simp only
    omega

theorem OpenTag.scan_rest_le (pairs : List Delimiters) (t : Text) :
    (scan pairs t).2.length ≤ t.length := by
  have := scanAttributes_rest_le pairs (t.dropWhile fun c => !isNameEnd c)
  have := (List.dropWhile_sublist (fun c => !isNameEnd c) (l := t)).length_le
  simp only [scan]
  omega

theorem RawBody.scan_rest_le (pairs : List Delimiters) (name t : Text) :
    (scan pairs name t).2.length ≤ t.length := by
  unfold scan
  split
  · simp
  next body after found =>
    have joined := congrArg List.length (Text.breakAt?_append found)
    have := scanBracket_rest_le after
    rw [List.length_append] at joined
    simp only
    omega

/-- A piece takes at least one character. -/
theorem Piece.scan_rest_lt (pairs : List Delimiters) (c : Char) (t : Text) :
    (scan pairs (c :: t)).2.length < (c :: t).length := by
  unfold scan
  split
  · have := splitBefore_rest_le "-->".toList ((c :: t).drop 4)
    simp only [List.length_drop, List.length_cons] at this ⊢
    omega
  · have := splitBefore_rest_le ['>'] (c :: t)
    simp only [List.length_tail, List.length_cons] at this ⊢
    omega
  · have := scanBracket_rest_le (((c :: t).drop 2).dropWhile fun c => !isNameEnd c)
    have := (List.dropWhile_sublist (fun c => !isNameEnd c) (l := (c :: t).drop 2)).length_le
    simp only [List.length_drop, List.length_cons] at this ⊢
    omega
  · have tag := OpenTag.scan_rest_le pairs t
    have body := RawBody.scan_rest_le pairs (OpenTag.scan pairs t).1.name (OpenTag.scan pairs t).2
    cases isRaw : (OpenTag.scan pairs t).1.isRaw <;>
      cases closes : (OpenTag.scan pairs t).1.isSelfClosing <;>
        simp [isRaw, closes] <;> omega
  next plain =>
    apply skim_rest_lt
    simp [endsContent, plain]

namespace Piece

/-- Reads all pieces of a source. -/
def scanAll (pairs : List Delimiters) : Text → List Piece
  | [] => []
  | c :: t =>
    let read := scan pairs (c :: t)
    read.1 :: scanAll pairs read.2
termination_by t => t.length
decreasing_by exact scan_rest_lt pairs c t

end Piece

end TagLint.Written
