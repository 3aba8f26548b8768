import TagLint.Unicode.Age
import TagLint.Unicode.Binary
import TagLint.Unicode.Script

/-!
Sets of characters by the names of properties.

Names are compared without regard to case, spaces, hyphens, low lines and a leading `is`. A name
alone is that of a property without values, of a general category or of a script; a name with a
value is that of a property with values.
-/
namespace TagLint.Unicode

def isNameSeparator (c : Char) : Bool :=
  c == ' ' || c == '_' || c == '-'

/-- A name in the form in which names are compared. What is not ASCII is dropped, and so is a
leading `is`, except that a name of which only `c` is left keeps it. -/
def normalName (name : Text) : String :=
  let startsWithIs := (name.take 2).map Char.toLower == ['i', 's']
  let rest := if startsWithIs then name.drop 2 else name
  let kept := (rest.filter fun c => c.toNat < 0x80 && !isNameSeparator c).map Char.toLower
  if startsWithIs && kept == ['c'] then "isc" else String.ofList kept

/-- The code points that are in a general category or a group of them, and the sets that are named
among the categories. -/
def categorySet? (name : String) : Option CharSet :=
  match name with
  | "any" => some .all
  | "ascii" => some ⟨[(0, 0x7F)]⟩
  | "assigned" => some (ofCategories [.unassigned]).complement
  | _ =>
    (Category.named.find? fun entry => entry.1.contains name).map fun entry =>
      ofCategories entry.2

/-- The code points that have a property without values. -/
def binarySet? (name : String) : Option CharSet :=
  (binaryProperties.find? fun entry => entry.1.contains name).map Prod.snd

def setNamed? (name : Text) : Option CharSet :=
  let name := normalName name
  (binarySet? name).or ((categorySet? name).or (script.set? name))

def setValued? (name value : Text) : Option CharSet :=
  let value := normalName value
  match normalName name with
  | "generalcategory" => categorySet? value
  | "gc" => categorySet? value
  | "script" => script.set? value
  | "sc" => script.set? value
  | "scriptextensions" => usedWithScript? value
  | "scx" => usedWithScript? value
  | "age" => assignedIn? value
  | "graphemeclusterbreak" => graphemeBreak.set? value
  | "gcb" => graphemeBreak.set? value
  | "wordbreak" => wordBreak.set? value
  | "wb" => wordBreak.set? value
  | "sentencebreak" => sentenceBreak.set? value
  | "sb" => sentenceBreak.set? value
  | _ => none

end TagLint.Unicode
