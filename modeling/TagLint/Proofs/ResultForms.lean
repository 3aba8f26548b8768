import TagLint.Output.Formatter
import TagLint.Proofs.ConfigForms

/-!
Results written in JSON.

What the JSON form says of a result is its record: of a finding all but the bytes that it is about
and the description of its rule. The record is taken back member by member from the value that
either layout reads as, so results with different records are written differently
(`LintResult.isFaithful`). Members that are left out stand for the value without anything in it.
-/
namespace TagLint

/-- What the JSON form says of a finding. -/
structure FindingRecord where
  ruleId : String
  messageId : String
  severity : Severity
  message : String
  data : MessageData
  location : Location
  sourceLine : Option Text
  edits : Option (List Edit)
  deriving DecidableEq, Repr

def Diagnostic.record (d : Diagnostic) : FindingRecord :=
  ⟨d.ruleId, d.messageId, d.severity, d.message, d.data, d.location, d.sourceLine,
    d.fix.map Fix.edits⟩

/-- What the JSON form says of a result. -/
structure ResultRecord where
  findings : List FindingRecord
  filesProcessed : Nat
  filesWithErrors : Nat
  filesWithWarnings : Nat
  errorCount : Nat
  warningCount : Nat
  infoCount : Nat
  fixableCount : Nat
  duration : Nat
  deriving DecidableEq, Repr

def LintResult.record (result : LintResult) : ResultRecord :=
  ⟨result.diagnostics.map Diagnostic.record, result.filesProcessed, result.filesWithErrors,
    result.filesWithWarnings, result.errorCount, result.warningCount, result.infoCount,
    result.fixableCount, result.duration⟩

namespace Json

/-- A natural number of any size. -/
def natural? : Json → Option Nat
  | number literal => digitsValue? literal
  | _ => none

/-- What `decode` makes of a member that has to be there. -/
def required? {α : Type} (json : Json) (key : String) (decode : Json → Option α) : Option α :=
  (json.member? key).bind decode

/-- What `decode` makes of a member that may be missing. -/
def allowed? {α : Type} (json : Json) (key : String) (decode : Json → Option α) :
    Option (Option α) :=
  match json.member? key with
  | none => some none
  | some value => (decode value).map some

section Members

variable {α : Type} {key : String}

@[simp] theorem member?_nil : member? (object []) key = none := rfl

/-- A later member of a key hides an earlier one. -/
@[simp] theorem member?_append (first second : List (String × Json)) :
    member? (object (first ++ second)) key =
      (member? (object second) key).or (member? (object first) key) := by
  simp [member?, List.find?_append, Option.map_or]

@[simp] theorem member?_cons (other : String) (value : Json) (members : List (String × Json)) :
    member? (object ((other, value) :: members)) key =
      (member? (object members) key).or (if other == key then some value else none) := by
  rw [← List.singleton_append, member?_append]
  congr 1
  cases same : other == key <;> simp [member?, same]

@[simp] theorem member?_optionalMember (other : String) (encode : α → Json) (value : Option α) :
    member? (object (JsonForm.optionalMember other encode value)) key =
      if other == key then value.map encode else none := by
  cases value <;> simp [JsonForm.optionalMember]

/-- A member that may be missing is read back if its value is. -/
theorem allowed?_of_member {json : Json} {encode : α → Json} {decode : Json → Option α}
    {value : Option α} (member : json.member? key = value.map encode)
    (inverse : ∀ a, decode (encode a) = some a) : json.allowed? key decode = some value := by
  cases value <;> simp_all [allowed?]

@[simp] theorem natural?_ofNat (n : Nat) : natural? (ofNat n) = some n :=
  digitsValue?_toDigits n

@[simp] theorem string?_string (text : String) : string? (string text) = some text := rfl

@[simp] theorem items?_array (items : List Json) : items? (array items) = some items := rfl

end Members
end Json

namespace JsonForm

open Json (required? allowed? natural? string? items?)

def readText? (json : Json) : Option Text :=
  (string? json).map String.toList

def readEdit? (json : Json) : Option Edit := do
  let start ← required? json "start" natural?
  let stop ← required? json "end" natural?
  let text ← required? json "text" readText?
  return ⟨start, stop, text⟩

/-- The values of a message by name. -/
def readData? : Json → Option MessageData
  | .object members => members.mapM fun member => (string? member.2).map fun value =>
    (member.1, value)
  | _ => none

def readSeverity? (json : Json) : Option Severity :=
  (string? json).bind fun name =>
    [Severity.info, .warning, .error].find? fun severity => severity.name == name

/-- The record of a finding; without data there are no values. -/
def readFinding? (json : Json) : Option FindingRecord := do
  let ruleId ← required? json "rule_id" string?
  let messageId ← required? json "message_id" string?
  let severity ← required? json "severity" readSeverity?
  let message ← required? json "message" string?
  let data ← allowed? json "data" readData?
  let file ← required? json "file" string?
  let line ← required? json "line" natural?
  let column ← required? json "column" natural?
  let endLine ← required? json "end_line" natural?
  let endColumn ← required? json "end_column" natural?
  let sourceLine ← allowed? json "source_line" readText?
  let edits ← allowed? json "fix" fun value =>
    (items? value).bind fun edits => edits.mapM readEdit?
  return ⟨ruleId, messageId, severity, message, data.getD [],
    ⟨file, line, column, endLine, endColumn⟩, sourceLine, edits⟩

/-- The record of a result; what an object says in other members is not read. -/
def readResult? (json : Json) : Option ResultRecord := do
  let findings ← required? json "diagnostics" fun value =>
    (items? value).bind fun findings => findings.mapM readFinding?
  let summary ← json.member? "summary"
  let filesProcessed ← required? summary "files_processed" natural?
  let filesWithErrors ← required? summary "files_with_errors" natural?
  let filesWithWarnings ← required? summary "files_with_warnings" natural?
  let errorCount ← required? summary "error_count" natural?
  let warningCount ← required? summary "warning_count" natural?
  let infoCount ← required? summary "info_count" natural?
  let fixableCount ← required? summary "fixable_count" natural?
  let duration ← required? summary "duration_ms" natural?
  return ⟨findings, filesProcessed, filesWithErrors, filesWithWarnings, errorCount, warningCount,
    infoCount, fixableCount, duration⟩

@[simp] theorem readText?_ofText (t : Text) : readText? (.ofText t) = some t := by
  simp [readText?, Json.ofText]

theorem readEdit?_ofEdit (edit : Edit) : readEdit? (ofEdit edit) = some edit := by
  simp [readEdit?, ofEdit, required?]

@[simp] theorem readSeverity?_name (severity : Severity) :
    readSeverity? (.string severity.name) = some severity :=
  Config.severity_first severity

/-- The values of a message are read back in their order. -/
theorem readData?_object (data : MessageData) :
    readData? (.object (data.map fun pair => (pair.1, .string pair.2))) = some data := by
  rw [readData?]
  exact Setting.mapM_map (fun pair : String × String => (pair.1, Json.string pair.2))
    (fun pair => by simp) data

theorem readFinding?_ofDiagnostic (d : Diagnostic) :
    readFinding? (ofDiagnostic d) = some d.record := by
  have data : (ofDiagnostic d).allowed? "data" readData? =
      some (if d.data = [] then none else some d.data) := by
    refine Json.allowed?_of_member ?_ readData?_object
    by_cases empty : d.data = [] <;> simp [ofDiagnostic, dataOf, empty]
  have sourceLine : (ofDiagnostic d).allowed? "source_line" readText? = some d.sourceLine :=
    Json.allowed?_of_member (by simp [ofDiagnostic]) readText?_ofText
  have edits : (ofDiagnostic d).allowed? "fix"
      (fun value => (items? value).bind fun edits => edits.mapM readEdit?) =
        some (d.fix.map Fix.edits) := by
    have member : (ofDiagnostic d).member? "fix" =
        (d.fix.map Fix.edits).map fun edits => .array (edits.map ofEdit) := by
      simp [ofDiagnostic, Function.comp_def]
    exact Json.allowed?_of_member member (Setting.mapM_map ofEdit readEdit?_ofEdit)
  have values : (if d.data = [] then none else some d.data).getD [] = d.data := by
    split <;> simp_all
  rw [readFinding?, data, sourceLine, edits]
  simp [ofDiagnostic, required?, values, Diagnostic.record]

/-- The findings are read back in their order. -/
theorem mapM_readFinding? (findings : List Diagnostic) :
    (findings.map ofDiagnostic).mapM readFinding? = some (findings.map Diagnostic.record) := by
  induction findings with
  | nil => rfl
  | cons d findings ih => simp [readFinding?_ofDiagnostic, ih]

theorem readResult?_ofResult (result : LintResult) :
    readResult? (ofResult result) = some result.record := by
  have findings : (ofResult result).required? "diagnostics"
      (fun value => (items? value).bind fun findings => findings.mapM readFinding?) =
        some (result.diagnostics.map Diagnostic.record) := by
    simpa [ofResult, required?] using mapM_readFinding? result.diagnostics
  have summary : (ofResult result).member? "summary" = some (summaryOf result) := by
    simp [ofResult]
  rw [readResult?, findings, summary]
  simp [summaryOf, required?, LintResult.record]

/-! ### Texts -/

theorem isWritable_ofEdit (depth : Nat) (edit : Edit) :
    Json.IsWritable (depth + 1) (ofEdit edit) := by
  simp [ofEdit, Json.isWritable_object_iff, Json.isWritable_ofNat, Json.ofText,
    Json.IsWritable.string]

theorem forall_mem_optionalMember {α : Type} {key : String} {encode : α → Json}
    {value : Option α} {p : String × Json → Prop}
    (each : ∀ a, value = some a → p (key, encode a)) :
    ∀ member ∈ optionalMember key encode value, p member := by
  cases value <;> simp_all [optionalMember]

/-- A finding can be written, its data and its edits inside it. -/
theorem isWritable_ofDiagnostic (d : Diagnostic) : Json.IsWritable 3 (ofDiagnostic d) := by
  have data : ∀ json, dataOf d.data = some json → Json.IsWritable 2 json := by
    intro json some
    rw [dataOf] at some
    split at some
    · cases some
    · cases some
      exact .object (List.forall_mem_map.2 fun pair _ => .string pair.2)
  rw [ofDiagnostic, Json.isWritable_object_iff]
  simp only [List.forall_mem_append]
  refine ⟨⟨⟨⟨?texts, ?data⟩, ?places⟩, ?line⟩, ?fix⟩
  case texts => simp [Json.IsWritable.string]
  case data => exact forall_mem_optionalMember data
  case places => simp [Json.IsWritable.string, Json.isWritable_ofNat]
  case line => exact forall_mem_optionalMember fun line _ => Json.IsWritable.string _
  case fix =>
    refine forall_mem_optionalMember fun fix _ => .array ?_
    simpa using fun edit _ => isWritable_ofEdit 0 edit

/-- A result can be written. -/
theorem isWritable_ofResult (result : LintResult) : Json.IsWritable 5 (ofResult result) := by
  have findings : Json.IsWritable 4 (.array (result.diagnostics.map ofDiagnostic)) :=
    .array (by simpa using fun d _ => isWritable_ofDiagnostic d)
  simp [ofResult, summaryOf, Json.isWritable_object_iff, Json.isWritable_ofNat, findings]

end JsonForm

/-- Either layout reads as the value that it was made of. -/
theorem JsonLayout.read?_render (layout : JsonLayout) {depth : Nat} {json : Json}
    (writable : Json.IsWritable depth json) (room : depth ≤ Json.Reader.maxDepth) :
    Json.read? (layout.render json) = some json := by
  cases layout with
  | compact => exact Json.read?_compact .unicode writable room
  | indented => exact Json.read?_indented 0 writable room

/-- Either layout of the form of a finding tells its record. -/
theorem Diagnostic.readFinding?_diagnostic (d : Diagnostic) (layout : JsonLayout) :
    (Json.read? ((Formatter.json layout).diagnostic d)).bind JsonForm.readFinding? =
      some d.record := by
  have read : Json.read? ((Formatter.json layout).diagnostic d) =
      some (JsonForm.ofDiagnostic d) :=
    layout.read?_render (JsonForm.isWritable_ofDiagnostic d) (by decide)
  rw [read]
  exact JsonForm.readFinding?_ofDiagnostic d

/-- How a result and its JSON form belong together. -/
structure LintResult.IsFaithful (result : LintResult) : Prop where
  /-- Both layouts read as one value. -/
  read : ∀ layout, Json.read? ((Formatter.json layout).result result) =
    some (JsonForm.ofResult result)
  /-- From it the record is taken back. -/
  record : JsonForm.readResult? (JsonForm.ofResult result) = some result.record
  /-- What is written the same, in one layout or in two, has the same record. -/
  apart : ∀ other layout layout', (Formatter.json layout).result result =
    (Formatter.json layout').result other → result.record = other.record

/-- Results in JSON say all of their record, and nothing else is read from them. -/
theorem LintResult.isFaithful (result : LintResult) : result.IsFaithful := by
  have read (result : LintResult) (layout : JsonLayout) :
      Json.read? ((Formatter.json layout).result result) = some (JsonForm.ofResult result) :=
    layout.read?_render (JsonForm.isWritable_ofResult result) (by decide)
  refine ⟨read result, JsonForm.readResult?_ofResult result, ?apart⟩
  case apart =>
    intro other layout layout' same
    have value : some (JsonForm.ofResult result) = some (JsonForm.ofResult other) := by
      rw [← read result layout, same, read other layout']
    have record : some result.record = some other.record := by
      rw [← JsonForm.readResult?_ofResult, Option.some.inj value, JsonForm.readResult?_ofResult]
    exact Option.some.inj record

end TagLint
