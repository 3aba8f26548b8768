import TagLint.Edit.Basic
import TagLint.Text.Letter

/-!
Findings as they are shown: how serious one is, its message, and where it is.

The values of a message are kept by name, in the order of the names, each name once. A template
shows a value where the name stands between double braces; the names are replaced one after the
other, so a value may itself bring in a placeholder of a later name.
-/
namespace TagLint

/-- How serious a finding is. -/
inductive Severity where
  | info
  | warning
  | error
  deriving DecidableEq, Repr

namespace Severity

/-- The place in the order from least to most serious. -/
def rank : Severity → Nat
  | info => 0
  | warning => 1
  | error => 2

def name : Severity → String
  | info => "info"
  | warning => "warning"
  | error => "error"

/-- The severity that a word names in any case. No letter of these words is the lower case of a
character outside ASCII. -/
def ofWord? (word : Text) : Option Severity :=
  let lower := String.ofList word.lower
  if lower == "info" || lower == "hint" || lower == "note" then some info
  else if lower == "warning" || lower == "warn" then some warning
  else if lower == "error" || lower == "err" then some error
  else none

end Severity

/-- Named values in the order of their names. -/
abbrev MessageData := List (String × String)

namespace MessageData

def insert (name value : String) : MessageData → MessageData
  | [] => [(name, value)]
  | (other, old) :: data =>
    if name < other then (name, value) :: (other, old) :: data
    else if name == other then (name, value) :: data
    else (other, old) :: insert name value data

/-- The values given by pairs, of which a later one overrides an earlier one of the same name. -/
def ofPairs (pairs : List (String × String)) : MessageData :=
  pairs.foldl (fun data pair => insert pair.1 pair.2 data) []

end MessageData

def placeholder (name : Text) : Text :=
  ['\x7b', '\x7b'] ++ name ++ ['\x7d', '\x7d']

def formatMessage (template : Text) (data : MessageData) : Text :=
  data.foldl
    (fun message pair => Text.replace (placeholder pair.1.toList) pair.2.toList message) template

/-- Where a finding is shown: lines and columns counted from 1, the end exclusive. A finding about
a whole file has line and column 0. -/
structure Location where
  file : String
  line : Nat
  column : Nat
  endLine : Nat
  endColumn : Nat
  deriving DecidableEq, Repr

namespace Location

def ofExtent (file : String) (extent : Extent) : Location :=
  ⟨file, extent.start.line, extent.start.column + 1, extent.stop.line, extent.stop.column + 1⟩

/-- The number of columns covered, or 0 when more than one line is covered. -/
def length (location : Location) : Nat :=
  if location.line == location.endLine then location.endColumn - location.column else 0

end Location

/-- A finding. -/
structure Diagnostic where
  ruleId : String
  messageId : String
  severity : Severity
  message : String
  data : MessageData
  location : Location
  span : Span
  sourceLine : Option Text
  help : Option String
  fix : Option Fix
  deriving DecidableEq, Repr

namespace Diagnostic

/-- Whether the finding can be mended. -/
def isFixable (d : Diagnostic) : Bool :=
  d.fix.isSome

/-- The order of findings: by start, then by end, then by rule. -/
def before (a b : Diagnostic) : Bool :=
  if a.span.start != b.span.start then a.span.start < b.span.start
  else if a.span.stop != b.span.stop then a.span.stop < b.span.stop
  else a.ruleId ≤ b.ruleId

end Diagnostic
end TagLint
