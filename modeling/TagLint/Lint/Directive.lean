import TagLint.Lint.Report
import TagLint.Markup.Document
import TagLint.Text.Blank
import TagLint.Text.Quoted

/-!
Comments that turn rules off.

A directive is a comment that says `markup-lint-disable`, for the whole document, or
`markup-lint-disable-next-line`, for findings that start on the line after the comment. The ids of
rules may follow, separated by commas or blanks, and after ` -- ` a reason. Without ids, and with
the id `all`, every rule is meant.
-/
namespace TagLint

/-- A comment that turns rules off. -/
structure Directive where
  rules : List Text
  /-- The line that is meant, or none for the whole document. -/
  line : Option Nat
  deriving DecidableEq, Repr

namespace Directive

/-- The word that starts a directive. -/
def keyword : Text := "markup-lint-disable".toList

/-- What follows the word when only the next line is meant. -/
def nextLineSuffix : Text := "-next-line".toList

/-- The id that stands for all rules. -/
def allRules : Text := "all".toList

/-- Splits off a known start. -/
def dropLead? (lead t : Text) : Option Text :=
  if lead.isPrefixOf t then some (t.drop lead.length) else none

def beforeReason (t : Text) : Text :=
  match Text.find? " -- ".toList t with
  | some (ids, _) => ids
  | none => t

def ruleIds (t : Text) : List Text :=
  let ids := (Text.splitOn (fun c => c == ',' || isBlankChar c) (beforeReason t)).filter
    fun id => !id.isEmpty
  if ids.isEmpty then [allRules] else ids

/-- What follows the words of a directive: nothing, or blanks and then one line. -/
def arguments? (t : Text) : Option Text :=
  match t with
  | [] => some []
  | c :: _ =>
    let line := t.dropWhile isBlankChar
    if isBlankChar c && !line.contains '\n' then some line else none

def ofComment? (comment : Text) (lastLine : Nat) : Option Directive :=
  (dropLead? keyword comment.trim).bind fun rest =>
    match dropLead? nextLineSuffix rest with
    | some rest => (arguments? rest).map fun list => ⟨ruleIds list, some (lastLine + 1)⟩
    | none => (arguments? rest).map fun list => ⟨ruleIds list, none⟩

/-- Whether the directive turns the rule off for findings that start on `line`. -/
def covers (directive : Directive) (rule : Text) (line : Nat) : Bool :=
  (directive.rules.contains rule || directive.rules.contains allRules) &&
    directive.line.all (· == line)

def record (directive : Directive) : LogRecord :=
  let ids := ", ".toList.intercalate (directive.rules.map Text.quoted)
  let place := match directive.line with
    | some line => "on line ".toList ++ Nat.toDigits 10 line
    | none => "for the document".toList
  ⟨.trace, String.ofList ("disabling [".toList ++ ids ++ "] ".toList ++ place)⟩

end Directive

namespace Document

def directives (doc : Document) : List Directive :=
  doc.nodes.filterMap fun node =>
    match node.kind with
    | .comment content => Directive.ofComment? content.text node.extent.stop.line
    | _ => none

end Document

namespace Directive

def isDisabled (directives : List Directive) (ruleId : String) (line : Nat) : Bool :=
  directives.any fun directive => directive.covers ruleId.toList line

/-- The findings that no directive turns off. -/
def filter (directives : List Directive) (found : List Diagnostic) : List Diagnostic :=
  found.filter fun d => !isDisabled directives d.ruleId d.location.line

end Directive
end TagLint
