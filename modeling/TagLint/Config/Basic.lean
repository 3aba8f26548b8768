import TagLint.Files.Store
import TagLint.Markup.Template
import TagLint.Rule.ClosingTags
import TagLint.Rule.ElementNewline
import TagLint.Text.Quoted

/-! The configuration of the tool, its defaults, and what can be wrong with it. -/
namespace TagLint

/-- The forms in which results are shown. -/
inductive OutputFormat where
  | text
  | json
  deriving DecidableEq, Repr

namespace OutputFormat

def name : OutputFormat → String
  | text => "text"
  | json => "json"

/-- The format that a word names in any case. No letter of these words is the lower case of a
character outside ASCII. -/
def ofWord? (word : Text) : Option OutputFormat :=
  let lower := String.ofList word.lower
  if lower == "text" then some text else if lower == "json" then some json else none

def unknownMessage (word : Text) : String :=
  "Unknown output format: " ++ String.ofList word

end OutputFormat

/-- When output is colored. -/
inductive ColorMode where
  | auto
  | always
  | never
  deriving DecidableEq, Repr

def ColorMode.name : ColorMode → String
  | auto => "auto"
  | always => "always"
  | never => "never"

def SelfClosing.name : SelfClosing → String
  | always => "always"
  | never => "never"

/-- How files are handled. -/
structure FilesConfig where
  included : List String
  excluded : List String
  deriving DecidableEq, Repr

/-- How the engine works. -/
structure EngineConfig where
  parallel : Bool
  /-- The number of parallel jobs; 0 lets the machine decide. -/
  jobs : Nat
  /-- The most rounds of linting and fixing of one source. -/
  maxFixPasses : Nat
  deriving DecidableEq, Repr

/-- How results are shown. -/
structure OutputConfig where
  format : OutputFormat
  color : ColorMode
  deriving DecidableEq, Repr

/-- Whether a rule is on, how serious its findings are, and its options. -/
structure RuleEntry (Options : Type) where
  enabled : Bool
  severity : Severity
  options : Options
  deriving DecidableEq, Repr

/-- The entries of the rules. -/
structure RulesConfig where
  closingTags : RuleEntry ClosingTagsOptions
  elementNewline : RuleEntry ElementNewlineOptions
  deriving DecidableEq, Repr

/-- The whole configuration. -/
structure Config where
  templates : List Delimiters
  files : FilesConfig
  engine : EngineConfig
  output : OutputConfig
  rules : RulesConfig
  deriving DecidableEq, Repr

namespace FilesConfig

/-- The files where none are given. -/
def initial : FilesConfig :=
  ⟨["**/*.html", "**/*.htm"], ["**/node_modules/**"]⟩

end FilesConfig

namespace EngineConfig

/-- The engine where nothing is said about it. -/
def initial : EngineConfig :=
  ⟨true, 0, 10⟩

end EngineConfig

namespace OutputConfig

/-- The output where nothing is said about it. -/
def initial : OutputConfig :=
  ⟨.text, .auto⟩

end OutputConfig

namespace RulesConfig

def initialClosingTags : RuleEntry ClosingTagsOptions :=
  ⟨true, .error, ClosingTags.defaultOptions⟩

def initialElementNewline : RuleEntry ElementNewlineOptions :=
  ⟨true, .warning, ElementNewline.defaultOptions⟩

/-- The rules where nothing is said about them. -/
def initial : RulesConfig :=
  ⟨initialClosingTags, initialElementNewline⟩

end RulesConfig

/-- What can be wrong with a configuration. -/
inductive ConfigError where
  | file (failure : FileFailure)
  /-- The text is no YAML document, or not one of a configuration. -/
  | yaml
  /-- The text is no JSON document, or not one of a configuration. -/
  | json
  | invalidPattern (rule pattern : String)
  | unknownPreset (rule preset : String)
  | noFixPasses
  | emptyDelimiter (pair : Delimiters)
  | unknownFormat (extension : String)
  deriving DecidableEq, Repr

namespace ConfigError

def message : ConfigError → String
  | file failure => "IO error: " ++ failure.message
  | yaml => "YAML parse error: the text is no configuration"
  | json => "JSON parse error: the text is no configuration"
  | invalidPattern rule pattern => "Invalid pattern '" ++ pattern ++ "' for " ++ rule
  | unknownPreset rule preset => "Unknown preset '" ++ preset ++ "' for " ++ rule
  | noFixPasses => "Invalid configuration: engine.max_fix_passes must be at least 1"
  | emptyDelimiter pair =>
    "Invalid configuration: Empty template delimiter in [" ++
      String.ofList pair.opening.quoted ++ ", " ++ String.ofList pair.closing.quoted ++ "]"
  | unknownFormat extension => "Invalid configuration: Unknown config file format: " ++ extension

/-- What lies behind an error. -/
def causes : ConfigError → List String
  | file failure => [failure.message]
  | invalidPattern _ _ => ["regex parse error"]
  | _ => []

end ConfigError

namespace Config

def initialTemplates : List Delimiters :=
  [⟨['\x7b', '\x7b'], ['\x7d', '\x7d']⟩]

/-- The configuration where nothing is said. -/
def initial : Config :=
  ⟨initialTemplates, .initial, .initial, .initial, .initial⟩

/-- Checks what a form cannot express: there is at least one fix pass, and no delimiter is
empty. -/
def validate (config : Config) : Except ConfigError Config :=
  if config.engine.maxFixPasses == 0 then .error .noFixPasses
  else match config.templates.find? fun pair => pair.opening.isEmpty || pair.closing.isEmpty with
    | some pair => .error (.emptyDelimiter pair)
    | none => .ok config

end Config
end TagLint
