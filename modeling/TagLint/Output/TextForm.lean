import TagLint.Engine.Result
import TagLint.Files.Path
import TagLint.Number.Binary
import TagLint.Output.Color

/-!
Results as text for people.

Findings are grouped by file, the files in the order of their paths. A finding shows its place,
its severity, its rule and its message, then the source line with carets under the place, and
whether it can be fixed. The counts stand at the end.
-/
namespace TagLint

/-- What the text form shows. -/
structure TextForm where
  isColored : Bool
  /-- The source line with carets. -/
  showsSource : Bool
  /-- The description of the rule. -/
  showsHelp : Bool
  /-- The counts at the end. -/
  showsStats : Bool
  deriving DecidableEq, Repr

namespace TextForm

/-- The form for the command line. -/
def plain (isColored : Bool) : TextForm :=
  ⟨isColored, true, false, true⟩

def paint (form : TextForm) (style : TextStyle) (t : Text) : Text :=
  style.paint form.isColored t

def decimal (n : Nat) : Text :=
  Nat.toDigits 10 n

/-- A number with blanks before it, at least four characters wide. -/
def lineNumber (n : Nat) : Text :=
  List.replicate (4 - (decimal n).length) ' ' ++ decimal n

/-- The name of a severity in its color. -/
def severityText (form : TextForm) (severity : Severity) : Text :=
  let style := match severity with
    | .error => TextStyle.boldRed
    | .warning => .boldYellow
    | .info => .blue
  form.paint style severity.name.toList

/-- The bar between line numbers and source text. -/
def bar (form : TextForm) : Text :=
  form.paint .blue ['|']

/-- The line that says what was found where. -/
def headline (form : TextForm) (d : Diagnostic) : Text :=
  d.location.file.toList ++ ':' :: decimal d.location.line ++ ':' :: decimal d.location.column ++
    ": ".toList ++ form.severityText d.severity ++ '[' :: form.paint .cyan d.ruleId.toList ++
    "]: ".toList ++ d.message.toList ++ ['\n']

def sourceText (form : TextForm) (d : Diagnostic) (line : Text) : Text :=
  form.paint .blue (lineNumber d.location.line) ++ ' ' :: form.bar ++ ' ' :: line ++ ['\n']

/-- The carets under the place, which start below its column. A finding about a whole file has
none. -/
def caretText (form : TextForm) (d : Diagnostic) : Text :=
  if d.location.column > 0 then
    List.replicate 5 ' ' ++ form.bar ++ ' ' :: List.replicate (d.location.column - 1) ' ' ++
      form.paint .red (List.replicate (max d.location.length 1) '^') ++ ['\n']
  else []

/-- A remark below a finding. -/
def remark (form : TextForm) (style : TextStyle) (t : Text) : Text :=
  List.replicate 5 ' ' ++ form.paint style ['='] ++ ' ' :: t ++ ['\n']

/-- A finding. -/
def diagnosticText (form : TextForm) (d : Diagnostic) : Text :=
  let source := match d.sourceLine with
    | some line => if form.showsSource then form.sourceText d line ++ form.caretText d else []
    | none => []
  let help := match d.help with
    | some help =>
      if form.showsHelp then form.remark .blue ("help: ".toList ++ help.toList) else []
    | none => []
  let fix := if d.isFixable then form.remark .green (form.paint .green "fixable".toList) else []
  form.headline d ++ source ++ help ++ fix

/-- Adds a finding to the group of its file; the groups stay in the order of their paths, and the
first path written heads its group. -/
def addToGroup (d : Diagnostic) :
    List (String × List Diagnostic) → List (String × List Diagnostic)
  | [] => [(d.location.file, [d])]
  | (file, found) :: groups =>
    if Path.same d.location.file file then (file, found ++ [d]) :: groups
    else if Path.before d.location.file file then
      (d.location.file, [d]) :: (file, found) :: groups
    else (file, found) :: addToGroup d groups

/-- The findings by file. -/
def groups (diagnostics : List Diagnostic) : List (String × List Diagnostic) :=
  diagnostics.foldl (fun groups d => addToGroup d groups) []

/-- The findings of one file. -/
def groupText (form : TextForm) (group : String × List Diagnostic) : Text :=
  form.paint .underline group.1.toList ++ '\n' :: group.2.flatMap form.diagnosticText ++ ['\n']

/-- A count with its noun in the number that goes with it. -/
def counted (n : Nat) (singular plural : String) : Text :=
  decimal n ++ ' ' :: (if n == 1 then singular else plural).toList

def countText (form : TextForm) (style : TextStyle) (n : Nat) (singular plural : String) :
    List Text :=
  if n > 0 then [form.paint style (counted n singular plural)] else []

def seconds (milliseconds : Nat) : Text :=
  let whole := (Ratio.ofNat (milliseconds / 1000)).toBinary
  let rest := (Ratio.mk (milliseconds % 1000) 1000).toBinary
  (whole.add rest).toBinary.toFixedTwo

/-- The counts. -/
def statsText (form : TextForm) (result : LintResult) : Text :=
  let counts :=
    form.countText .red result.errorCount "error" "errors" ++
      form.countText .yellow result.warningCount "warning" "warnings" ++
      form.countText .blue result.infoCount "info" "infos"
  counted result.filesProcessed "file" "files" ++ " processed".toList ++
    (if counts.isEmpty then [] else ": ".toList ++ ", ".toList.intercalate counts) ++ '\n' ::
    (if result.fixableCount > 0 then
      decimal result.fixableCount ++ " fixable with --fix\n".toList
    else []) ++
    "Finished in ".toList ++ seconds result.duration ++ "s\n".toList

def resultText (form : TextForm) (result : LintResult) : Text :=
  (groups result.diagnostics).flatMap form.groupText ++
    if form.showsStats then form.statsText result else []

end TextForm
end TagLint
