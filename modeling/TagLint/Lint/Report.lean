import TagLint.Lint.Diagnostic
import TagLint.Markup.Query

/-!
What a rule reports, and the finding that is made of it.

A rule says where, which of its messages, with which values, and which edits would mend it. The
wording, the severity and the source line are added here. Edits that overlap make no fix. The tool
keeps records about its own work.
-/
namespace TagLint

/-- How much a record matters. -/
inductive LogLevel where
  | trace
  | debug
  | info
  | warn
  | error
  deriving DecidableEq, Repr

def LogLevel.name : LogLevel → String
  | trace => "TRACE"
  | debug => "DEBUG"
  | info => "INFO"
  | warn => "WARN"
  | error => "ERROR"

/-- A record. -/
structure LogRecord where
  level : LogLevel
  text : String
  deriving DecidableEq, Repr

/-- What a rule is about. -/
inductive RuleCategory where
  | correctness
  | style
  deriving DecidableEq, Repr

def RuleCategory.name : RuleCategory → String
  | correctness => "correctness"
  | style => "style"

/-- The description of a rule. -/
structure RuleInfo where
  id : String
  description : String
  category : RuleCategory
  isFixable : Bool
  /-- Message templates by message id; the first one of an id counts. -/
  messages : List (String × String)
  deriving DecidableEq, Repr

namespace RuleInfo

def template? (info : RuleInfo) (messageId : String) : Option String :=
  (info.messages.find? fun message => message.1 == messageId).map Prod.snd

end RuleInfo

/-- What a rule reports. -/
structure Report where
  span : Span
  extent : Extent
  messageId : String
  data : List (String × Text)
  edits : List Edit
  deriving DecidableEq, Repr

namespace Report

/-- The fix made of the edits, overlapping or not. -/
def rawFix? (report : Report) : Option Fix :=
  Fix.ofEdits? report.edits

def values (report : Report) : MessageData :=
  MessageData.ofPairs (report.data.map fun pair => (pair.1, String.ofList pair.2))

/-- The finding made of a report about a document. -/
def toDiagnostic (report : Report) (info : RuleInfo) (severity : Severity) (path : String)
    (doc : Document) : Diagnostic :=
  { ruleId := info.id
    messageId := report.messageId
    severity := severity
    message :=
      match info.template? report.messageId with
      | some template => String.ofList (formatMessage template.toList report.values)
      | none => report.messageId
    data := report.values
    location := Location.ofExtent path report.extent
    span := report.span
    sourceLine := doc.sourceLine? report.extent.start.line
    help := some info.description
    fix := report.rawFix?.filter fun fix => !fix.hasOverlap }

/-- What there is to say about a report that its rule should not have made. -/
def warnings (report : Report) (info : RuleInfo) : List LogRecord :=
  (if (info.template? report.messageId).isSome then []
    else [⟨.warn, info.id ++ ": unknown message id " ++ report.messageId⟩]) ++
  if report.rawFix?.any Fix.hasOverlap then
    [⟨.warn, info.id ++ ": dropping fix for " ++ report.messageId ++ " with overlapping edits"⟩]
  else []

end Report
end TagLint
