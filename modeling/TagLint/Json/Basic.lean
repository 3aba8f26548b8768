import TagLint.Text.Basic

/-!
JSON values.

A number keeps its literal, so that a reader may tell `1` from `1.0`. An object keeps its members
in the order written, repeated keys included.
-/
namespace TagLint

/-- A JSON value. -/
inductive Json where
  | null
  | bool (value : Bool)
  | number (literal : Text)
  | string (value : String)
  | array (items : List Json)
  | object (members : List (String × Json))

namespace Json

/-- A natural number. -/
def ofNat (n : Nat) : Json :=
  number (Nat.toDigits 10 n)

/-- An optional value, where `null` stands for none. -/
def ofOption {α : Type} (encode : α → Json) : Option α → Json
  | none => null
  | some a => encode a

/-- The text as a string. -/
def ofText (t : Text) : Json :=
  string (String.ofList t)

def member? (json : Json) (key : String) : Option Json :=
  match json with
  | object members => (members.reverse.find? fun member => member.1 == key).map Prod.snd
  | _ => none

/-- The value of a run of decimal digits; `none` where there is anything else, or nothing. -/
def digitsValue? (t : Text) : Option Nat :=
  if t.isEmpty || !t.all Char.isDigit then none
  else some (t.foldl (fun n c => n * 10 + (c.toNat - '0'.toNat)) 0)

/-- The number, when it is written as an integer that a machine word of 64 bits holds. -/
def word? : Json → Option Nat
  | number literal => (digitsValue? literal).filter (· < UInt64.size)
  | _ => none

end Json
end TagLint
