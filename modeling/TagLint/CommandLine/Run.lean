import TagLint.CommandLine.Arguments
import TagLint.Config.JsonForm
import TagLint.Config.YamlForm
import TagLint.Engine.Files
import TagLint.Files.Tree
import TagLint.Glob.Search
import TagLint.Output.Formatter

/-!
What the command line does with the files of a working directory.

Nothing is printed or written here: a run says what goes to the two output streams, which files are
to be written, and how the program ends. The extension of a configuration file tells its form; where
none is named, the first of the known names is taken, and without such a file the configuration says
nothing.
-/
namespace TagLint.Config

/-- The names of configuration files, in the order in which they are looked for. -/
def fileNames : List String :=
  [".markuplintrc.yaml", ".markuplintrc.yml", ".markuplintrc.json"]

def load (files : FileTree) (path : String) : Except ConfigError Config :=
  match files.read path with
  | .error failure => .error (.file failure)
  | .ok text =>
    let extension := Path.extension path
    if extension == "yaml" || extension == "yml" then ofYamlText text
    else if extension == "json" then ofJsonText text
    else .error (.unknownFormat extension)

def loadRecord (path : String) : LogRecord :=
  ⟨.debug, "loaded configuration from " ++ path⟩

def fileIn? (files : FileTree) (directory : String) : Option String :=
  (fileNames.map (Path.join directory)).find? files.isPresent

def loadFrom (files : FileTree) (directory : String) : Except ConfigError Config :=
  match fileIn? files directory with
  | some path => load files path
  | none => .ok initial

end TagLint.Config

namespace TagLint

/-- Why a run ends early. -/
inductive CommandError where
  /-- The configuration in a file, if one was named, cannot be had. -/
  | config (path : Option String) (cause : ConfigError)
  | excludePattern (pattern : String)
  | filePattern (pattern : String)
  | noFiles
  /-- The options of a rule are wrong. -/
  | rules (cause : ConfigError)
  deriving DecidableEq, Repr

namespace CommandError

/-- The wording of an error and of what lies behind it. -/
def chain : CommandError → List String
  | config none cause => "Failed to load config" :: cause.message :: cause.causes
  | config (some path) cause =>
    ("Failed to load config " ++ path) :: cause.message :: cause.causes
  | excludePattern pattern =>
    ["Invalid exclude pattern '" ++ pattern ++ "'", "Pattern syntax error"]
  | filePattern pattern => ["Invalid pattern '" ++ pattern ++ "'", "Pattern syntax error"]
  | noFiles => ["No files found to lint"]
  | rules cause => cause.message :: cause.causes

/-- The line about an error. -/
def text (isColored : Bool) (error : CommandError) : Text :=
  TextStyle.boldRed.paint isColored "error".toList ++ ": ".toList ++
    (String.intercalate ": " error.chain).toList ++ ['\n']

end CommandError

/-- What a run comes to. -/
structure CommandResult where
  exitCode : Nat
  output : Text
  errors : Text
  /-- The files to write, with their new contents. -/
  written : List (String × Text)
  deriving DecidableEq, Repr

namespace CommandLine

def baseConfig (line : CommandLine) (files : FileTree) : Except CommandError Config :=
  match line.config with
  | some path => (Config.load files path).mapError (.config (some path))
  | none => (Config.loadFrom files ".").mapError (.config none)

def configPath? (line : CommandLine) (files : FileTree) : Option String :=
  line.config <|> Config.fileIn? files "."

def adjust (line : CommandLine) (config : Config) : Config :=
  { config with
    engine := { config.engine with jobs := line.jobs.getD config.engine.jobs }
    output :=
      { format := line.format.getD config.output.format
        color := if line.isPlain then .never else config.output.color } }

/-- The files that a pattern stands for: the file of that very name, or those that the pattern
leads to and no excluding pattern matches. -/
def expand (files : FileTree) (excluded : List GlobPattern) (pattern : String) :
    Except CommandError (List String) :=
  if files.isFile pattern then .ok [pattern]
  else match PathGlob.read? pattern with
    | none => .error (.filePattern pattern)
    | some glob =>
      .ok ((glob.paths files).filter fun path =>
        files.isFile path && !excluded.any fun pattern => pattern.isMatch path.toList)

/-- Drops each path that is the same as the one before it. -/
def dropRepeated : List String → List String
  | [] => []
  | path :: paths =>
    path :: match dropRepeated paths with
      | [] => []
      | next :: others => if Path.same path next then others else next :: others

/-- The files to lint, in their order. Of two spellings of one path the first is kept. -/
def inputPaths (line : CommandLine) (config : Config) (files : FileTree) :
    Except CommandError (List String) := do
  let patterns := if line.files.isEmpty then config.files.included else line.files
  let excluded ← config.files.excluded.mapM fun pattern =>
    match GlobPattern.read? pattern.toList with
    | some glob => .ok glob
    | none => .error (.excludePattern pattern)
  let found ← patterns.mapM (expand files excluded)
  let paths := dropRepeated (found.flatten.mergeSort Path.before)
  if paths.isEmpty then .error .noFiles else .ok paths

/-- The files whose contents a run looks at, once the configuration can be read. -/
def pathsToRead (line : CommandLine) (files : FileTree) : List String :=
  match line.baseConfig files with
  | .error _ => []
  | .ok config =>
    match line.inputPaths (line.adjust config) files with
    | .error _ => []
    | .ok paths => paths

def lint (engine : Engine) (formatter : Formatter) (files : FileTree) (paths : List String) :
    CommandResult :=
  let result := engine.lintFiles files paths
  ⟨result.exitCode, formatter.result result, [], []⟩

/-- A number with its noun. -/
def counted (count : Nat) (one many : String) : String :=
  toString count ++ " " ++ if count == 1 then one else many

/-- Fixes files, and tells how many problems were mended. -/
def fix (line : CommandLine) (engine : Engine) (formatter : Formatter) (files : FileTree)
    (paths : List String) : CommandResult :=
  let reports := (engine.fixFiles line.writes files paths).1
  let result := Engine.reportsResult reports
  let changed := (reports.filterMap FileReport.fix?).filter fun fix => fix.outcome.isChanged
  let count := (changed.map fun fix => fix.outcome.fixesApplied).foldr (· + ·) 0
  let summary := (if line.writes then "Fixed " else "Would fix ") ++
    counted count "problem" "problems" ++ " in " ++ counted changed.length "file" "files" ++ "\n"
  { exitCode := result.exitCode
    output := (if line.showsDiff then changed.flatMap FileFix.diff else []) ++
      formatter.result result
    errors := summary.toList
    written := if line.writes then changed.map fun fix => (fix.path, fix.outcome.output) else [] }

/-- A text filled up with blanks. -/
def padded (width : Nat) (t : Text) : Text :=
  t ++ List.replicate (width - t.length) ' '

/-- The list of rules. -/
def ruleList : Text :=
  Rule.allInfos.flatMap fun info =>
    padded 24 info.id.toList ++ [' '] ++ padded 12 info.category.name.toList ++ [' '] ++
      info.description.toList ++ (if info.isFixable then " (fixable)" else "").toList ++ ['\n']

def failed (isColored : Bool) (error : CommandError) : CommandResult :=
  ⟨1, [], error.text isColored, []⟩

/-- Lints or fixes with a configuration. -/
def runWith (line : CommandLine) (config : Config) (files : FileTree) : CommandResult :=
  let isColored := config.output.color == .always
  let started : Except CommandError (List String × Engine) := do
    let paths ← line.inputPaths config files
    let engine ← (Engine.ofConfig config).mapError .rules
    return (paths, engine)
  match started with
  | .error error => failed isColored error
  | .ok (paths, engine) =>
    let formatter := Formatter.ofFormat config.output.format isColored
    if line.fixes then line.fix engine formatter files paths
    else lint engine formatter files paths

/-- Runs a command line. -/
def run (line : CommandLine) (files : FileTree) : CommandResult :=
  if line.listsRules then ⟨0, ruleList, [], []⟩
  else match line.baseConfig files with
    | .error error => failed false error
    | .ok config => line.runWith (line.adjust config) files

namespace Request

/-- The name and version of the program. -/
def versionText : String :=
  "markup-lint 0.1.0\n"

/-- Does what arguments ask for. -/
def run (request : Request) (files : FileTree) : CommandResult :=
  match request with
  | version => ⟨0, versionText.toList, [], []⟩
  | work line => line.run files

end Request
end CommandLine
end TagLint
