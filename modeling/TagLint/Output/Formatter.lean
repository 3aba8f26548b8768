import TagLint.Config.Basic
import TagLint.Engine.Result
import TagLint.Json.Write
import TagLint.Output.TextForm

/-!
Results as JSON for programs, and the forms in which results are shown.

Members without a value are left out: the data of a message without any, the source line, the fix.
-/
namespace TagLint

/-- The layouts of the JSON form. -/
inductive JsonLayout where
  | compact
  | indented
  deriving DecidableEq, Repr

namespace JsonLayout

def render (layout : JsonLayout) (json : Json) : Text :=
  match layout with
  | compact => json.compact .unicode
  | indented => json.indented 0

end JsonLayout

namespace JsonForm

def ofEdit (edit : Edit) : Json :=
  .object [("start", .ofNat edit.start), ("end", .ofNat edit.stop), ("text", .ofText edit.text)]

def optionalMember {α : Type} (key : String) (encode : α → Json) :
    Option α → List (String × Json)
  | none => []
  | some a => [(key, encode a)]

/-- The values of a message; none without any. -/
def dataOf (data : MessageData) : Option Json :=
  if data.isEmpty then none
  else some (.object (data.map fun pair => (pair.1, Json.string pair.2)))

/-- A finding. -/
def ofDiagnostic (d : Diagnostic) : Json :=
  .object
    ([("rule_id", .string d.ruleId), ("message_id", .string d.messageId),
        ("severity", .string d.severity.name), ("message", .string d.message)] ++
      optionalMember "data" id (dataOf d.data) ++
      [("file", .string d.location.file), ("line", .ofNat d.location.line),
        ("column", .ofNat d.location.column), ("end_line", .ofNat d.location.endLine),
        ("end_column", .ofNat d.location.endColumn)] ++
      optionalMember "source_line" Json.ofText d.sourceLine ++
      optionalMember "fix" (fun (fix : Fix) => .array (fix.edits.map ofEdit)) d.fix)

/-- The counts. -/
def summaryOf (result : LintResult) : Json :=
  .object
    [("files_processed", .ofNat result.filesProcessed),
      ("files_with_errors", .ofNat result.filesWithErrors),
      ("files_with_warnings", .ofNat result.filesWithWarnings),
      ("error_count", .ofNat result.errorCount), ("warning_count", .ofNat result.warningCount),
      ("info_count", .ofNat result.infoCount), ("fixable_count", .ofNat result.fixableCount),
      ("duration_ms", .ofNat result.duration)]

def ofResult (result : LintResult) : Json :=
  .object
    [("diagnostics", .array (result.diagnostics.map ofDiagnostic)),
      ("summary", summaryOf result)]

end JsonForm

/-- A way to show results. -/
inductive Formatter where
  | text (form : TextForm)
  | json (layout : JsonLayout)
  deriving DecidableEq, Repr

namespace Formatter

def ofFormat (format : OutputFormat) (isColored : Bool) : Formatter :=
  match format with
  | .text => text (TextForm.plain isColored)
  | .json => json .indented

def result (formatter : Formatter) (result : LintResult) : Text :=
  match formatter with
  | text form => form.resultText result
  | json layout => layout.render (JsonForm.ofResult result)

/-- One finding. -/
def diagnostic (formatter : Formatter) (d : Diagnostic) : Text :=
  match formatter with
  | text form => form.diagnosticText d
  | json layout => layout.render (JsonForm.ofDiagnostic d)

end Formatter
end TagLint
