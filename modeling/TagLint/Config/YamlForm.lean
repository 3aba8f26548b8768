import TagLint.Config.Decode
import TagLint.Text.Blank
import TagLint.Yaml.Basic
import TagLint.Yaml.Read

/-!
Configurations in YAML.

Flags and numbers are plain scalars; a text is any scalar, whatever it looks like. A list or a
section that is left empty has no items. A word is a scalar, or a local tag at an empty one.
-/
namespace TagLint

namespace Yaml

/-- Whether the text of a scalar may be a value of another type: it is plain, or a literal block
with the tag of that type. -/
def isTyped (type : String) (tag : Option Text) (style : YamlStyle) : Bool :=
  style == .plain || (style == .literal && tag == some ("tag:yaml.org,2002:" ++ type).toList)

def flag? : Yaml → Option Bool
  | scalar tag style text =>
    let word := String.ofList text
    if !isTyped "bool" tag style then none
    else if ["true", "True", "TRUE"].contains word then some true
    else if ["false", "False", "FALSE"].contains word then some false
    else none
  | _ => none

def digitsValue? (base : Nat) (t : Text) : Option Nat :=
  if t.isEmpty then none
  else t.foldlM (fun n c => ((hexValue? c).filter (· < base)).map (n * base + ·)) 0

/-- The value of a natural number: decimal without leading zeros, or with the mark of another
base. -/
def naturalValue? (t : Text) : Option Nat :=
  let unsigned := if t.head? == some '+' then t.drop 1 else t
  match unsigned with
  | '0' :: 'x' :: digits => digitsValue? 16 digits
  | '0' :: 'o' :: digits => digitsValue? 8 digits
  | '0' :: 'b' :: digits => digitsValue? 2 digits
  | '0' :: _ :: _ => none
  | digits => digitsValue? 10 digits

/-- The value of a number that a machine word of 64 bits holds. -/
def word64? : Yaml → Option Nat
  | scalar tag style text =>
    if isTyped "int" tag style then (naturalValue? text).filter (· < UInt64.size) else none
  | _ => none

/-- The text of a scalar. -/
def string? : Yaml → Option String
  | scalar _ _ text => some (String.ofList text)
  | _ => none

/-- Whether a scalar says that there is nothing. -/
def isNull (style : YamlStyle) (text : Text) : Bool :=
  style == .plain && ["", "~", "null", "Null", "NULL"].contains (String.ofList text)

/-- The word that a scalar names. -/
def choiceWord? : Yaml → Option String
  | scalar (some ('!' :: name)) style text =>
    if isNull style text then some (String.ofList (if name.isEmpty then ['!'] else name)) else none
  | scalar _ _ text => some (String.ofList text)
  | _ => none

def items? : Yaml → Option (List Yaml)
  | sequence items => some items
  | scalar _ .plain [] => some []
  | _ => none

def members? : Yaml → Option (List (Yaml × Yaml))
  | mapping members => some members
  | scalar _ .plain [] => some []
  | _ => none

end Yaml

namespace YamlPart

def sectionMembers? (part : YamlPart) : Option (List (String × YamlPart)) :=
  part.content.members?.bind fun members =>
    members.mapM fun (key, value) =>
      (part.goTo key).content.string?.map fun key => (key, part.goTo value)

instance : Setting YamlPart where
  flag? part := part.content.flag?
  number? part := part.content.word64?
  text? part := part.content.string?
  word? part := part.content.choiceWord?
  items? part := part.content.items?.map fun items => items.map part.goTo
  members? _ := sectionMembers?

end YamlPart

namespace Config

/-- The configuration written in a YAML text; a blank text says nothing. -/
def ofYamlText (t : Text) : Except ConfigError Config :=
  if t.isBlank then .ok initial
  else match ((Yaml.read? t).map YamlPart.ofRoot).bind decode? with
    | none => .error .yaml
    | some config => config.validate

end Config
end TagLint
