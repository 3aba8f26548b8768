import TagLint.Config.Basic

/-!
Reading a configuration from a value of some data format.

A format tells how flags, numbers, texts, words, lists and sections are written in it. A section
may leave out any of its keys, which then have their defaults, but may not repeat one or hold
another.
-/
namespace TagLint

/-- Values of a data format, as far as configurations need them. -/
class Setting (α : Type) where
  flag? : α → Option Bool
  /-- A natural number that a machine word holds. -/
  number? : α → Option Nat
  text? : α → Option String
  /-- One word out of a fixed choice. -/
  word? : α → Option String
  items? : α → Option (List α)
  /-- The members of a section whose keys, in order, are the given ones. -/
  members? : List String → α → Option (List (String × α))

namespace Setting

variable {α β : Type} [Setting α]

/-- The members of a section, if it holds no unknown key and none twice. -/
def section? (keys : List String) (value : α) : Option (List (String × α)) :=
  (members? keys value).filter fun members =>
    members.all (fun member => keys.contains member.1) && (members.map Prod.fst).Nodup

def key? (members : List (String × α)) (key : String) (initial : β) (decode : α → Option β) :
    Option β :=
  match members.lookup key with
  | none => some initial
  | some value => decode value

/-- A list. -/
def list? (decode : α → Option β) (value : α) : Option (List β) :=
  (items? value).bind fun items => items.mapM decode

def texts? (value : α) : Option (List String) :=
  list? text? value

def choice? (values : List β) (name : β → String) (value : α) : Option β :=
  (word? value).bind fun word => values.find? fun candidate => name candidate == word

end Setting

namespace Config

open Setting

variable {α : Type} [Setting α]

def decodeDelimiters? (value : α) : Option Delimiters :=
  (texts? value).bind fun texts =>
    match texts with
    | [opening, closing] => some ⟨opening.toList, closing.toList⟩
    | _ => none

/-- The section `parser`. -/
def decodeTemplates? (value : α) : Option (List Delimiters) := do
  let members ← section? ["templates"] value
  key? members "templates" initialTemplates (list? decodeDelimiters?)

def decodeFiles? (value : α) : Option FilesConfig := do
  let members ← section? ["include", "exclude"] value
  let inclusion ← key? members "include" FilesConfig.initial.included texts?
  let exclusion ← key? members "exclude" FilesConfig.initial.excluded texts?
  return ⟨inclusion, exclusion⟩

def decodeEngine? (value : α) : Option EngineConfig := do
  let members ← section? ["parallel", "jobs", "max_fix_passes"] value
  let parallel ← key? members "parallel" EngineConfig.initial.parallel flag?
  let jobs ← key? members "jobs" EngineConfig.initial.jobs number?
  let passes ← key? members "max_fix_passes" EngineConfig.initial.maxFixPasses number?
  return ⟨parallel, jobs, passes⟩

def decodeOutput? (value : α) : Option OutputConfig := do
  let members ← section? ["format", "color"] value
  let format ← key? members "format" OutputConfig.initial.format
    (choice? [.text, .json] OutputFormat.name)
  let color ← key? members "color" OutputConfig.initial.color
    (choice? [.auto, .always, .never] ColorMode.name)
  return ⟨format, color⟩

def decodeRule? {Options : Type} (initial : RuleEntry Options) (decode : α → Option Options)
    (value : α) : Option (RuleEntry Options) := do
  let members ← section? ["enabled", "severity", "options"] value
  let enabled ← key? members "enabled" initial.enabled flag?
  let severity ← key? members "severity" initial.severity
    (choice? [.info, .warning, .error] Severity.name)
  let options ← key? members "options" initial.options decode
  return ⟨enabled, severity, options⟩

def decodeClosingTags? (value : α) : Option ClosingTagsOptions := do
  let members ← section? ["selfClosing", "allowSelfClosingCustom", "customPatterns"] value
  let initial := ClosingTags.defaultOptions
  let selfClosing ← key? members "selfClosing" initial.selfClosing
    (choice? [.always, .never] SelfClosing.name)
  let allow ← key? members "allowSelfClosingCustom" initial.allowSelfClosingCustom flag?
  let patterns ← key? members "customPatterns" initial.customPatterns texts?
  return ⟨selfClosing, allow, patterns⟩

def decodeElementNewline? (value : α) : Option ElementNewlineOptions := do
  let members ← section? ["inline", "skip"] value
  let inline ← key? members "inline" ElementNewline.defaultOptions.inline texts?
  let skip ← key? members "skip" ElementNewline.defaultOptions.skip texts?
  return ⟨inline, skip⟩

def decodeRules? (value : α) : Option RulesConfig := do
  let members ← section? [ClosingTags.info.id, ElementNewline.info.id] value
  let closingTags ← key? members ClosingTags.info.id RulesConfig.initialClosingTags
    (decodeRule? RulesConfig.initialClosingTags decodeClosingTags?)
  let elementNewline ← key? members ElementNewline.info.id RulesConfig.initialElementNewline
    (decodeRule? RulesConfig.initialElementNewline decodeElementNewline?)
  return ⟨closingTags, elementNewline⟩

/-- The configuration that a value stands for, unchecked. -/
def decode? (value : α) : Option Config := do
  let members ← section? ["parser", "files", "engine", "output", "rules"] value
  let templates ← key? members "parser" initialTemplates decodeTemplates?
  let files ← key? members "files" FilesConfig.initial decodeFiles?
  let engine ← key? members "engine" EngineConfig.initial decodeEngine?
  let output ← key? members "output" OutputConfig.initial decodeOutput?
  let rules ← key? members "rules" RulesConfig.initial decodeRules?
  return ⟨templates, files, engine, output, rules⟩

end Config
end TagLint
