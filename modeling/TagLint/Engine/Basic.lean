import TagLint.Config.Basic
import TagLint.Lint.Directive
import TagLint.Markup.Build

/-!
Linting one source.

The engine holds the rules that are on. It collects what they report, drops what directives in the
source turn off, and sorts the rest by place.
-/
namespace TagLint

/-- A rule with its options. -/
inductive Rule where
  | closingTags (rule : ClosingTags)
  | elementNewline (rule : ElementNewline)

namespace Rule

/-- The description of a rule. -/
def info : Rule → RuleInfo
  | closingTags _ => ClosingTags.info
  | elementNewline _ => ElementNewline.info

/-- The reports of a rule about a document. -/
def reports (rule : Rule) (doc : Document) : List Report :=
  match rule with
  | closingTags rule => rule.reports doc
  | elementNewline rule => rule.reports doc

/-- The descriptions of all rules, in the order in which they run. -/
def allInfos : List RuleInfo :=
  [ClosingTags.info, ElementNewline.info]

end Rule

/-- A rule that is on, with the severity of its findings. -/
structure ActiveRule where
  rule : Rule
  severity : Severity

namespace ActiveRule

def id (active : ActiveRule) : String :=
  active.rule.info.id

/-- The findings of the rule in a document. -/
def diagnostics (active : ActiveRule) (path : String) (doc : Document) : List Diagnostic :=
  (active.rule.reports doc).map fun report =>
    report.toDiagnostic active.rule.info active.severity path doc

def warnings (active : ActiveRule) (doc : Document) : List LogRecord :=
  (active.rule.reports doc).flatMap fun report => report.warnings active.rule.info

end ActiveRule

/-- A configuration with its rules at work. -/
structure Engine where
  config : Config
  rules : List ActiveRule

namespace Engine

def closingTagsRule (config : Config) : Except ConfigError (List ActiveRule) :=
  let entry := config.rules.closingTags
  if entry.enabled then
    match ClosingTags.ofOptions entry.options with
    | .ok rule => .ok [⟨.closingTags rule, entry.severity⟩]
    | .error pattern => .error (.invalidPattern ClosingTags.info.id pattern)
  else .ok []

def elementNewlineRule (config : Config) : Except ConfigError (List ActiveRule) :=
  let entry := config.rules.elementNewline
  if entry.enabled then
    match ElementNewline.ofOptions entry.options with
    | .ok rule => .ok [⟨.elementNewline rule, entry.severity⟩]
    | .error preset => .error (.unknownPreset ElementNewline.info.id preset)
  else .ok []

/-- The engine of a configuration, unless the options of a rule that is on are wrong. -/
def ofConfig (config : Config) : Except ConfigError Engine := do
  let closingTags ← closingTagsRule config
  let elementNewline ← elementNewlineRule config
  return ⟨config, closingTags ++ elementNewline⟩

def activationLog (engine : Engine) : List LogRecord :=
  engine.rules.map fun active =>
    ⟨.trace, "activated " ++ active.id ++ " (" ++ active.severity.name ++ ")"⟩

def parse (engine : Engine) (source : Text) : Document :=
  Document.parse engine.config.templates source

/-- All findings in a document, in the order of the rules. -/
def rawDiagnostics (engine : Engine) (doc : Document) (path : String) : List Diagnostic :=
  engine.rules.flatMap fun active => active.diagnostics path doc

/-- The findings in a document that no directive turns off, by place. -/
def lintDocument (engine : Engine) (doc : Document) (path : String) : List Diagnostic :=
  (Directive.filter doc.directives (engine.rawDiagnostics doc path)).mergeSort Diagnostic.before

def lint (engine : Engine) (path : String) (source : Text) : List Diagnostic :=
  engine.lintDocument (engine.parse source) path

end Engine

namespace Document

/-- The records of the dropped closing tags. -/
def strayLog (doc : Document) : List LogRecord :=
  doc.strays.map fun stray =>
    ⟨.trace, "ignoring stray closing tag </" ++ String.ofList stray.name ++ "> at offset " ++
      toString stray.span.start⟩

end Document

namespace Engine

def lintLog (engine : Engine) (source : Text) : List LogRecord :=
  let doc := engine.parse source
  doc.strayLog ++ engine.rules.flatMap (fun active => active.warnings doc) ++
    doc.directives.map Directive.record

end Engine
end TagLint
