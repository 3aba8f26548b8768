import TagLint.Config.Basic
import TagLint.Json.Basic

/-!
The arguments of the command line.

An option with a value takes it after an equals sign or as the next argument. No option may be
given twice. After two hyphens everything names files.
-/
namespace TagLint

/-- What the command line asks for. -/
structure CommandLine where
  /-- The files and patterns; the configured ones where there are none. -/
  files : List String
  config : Option String
  format : Option OutputFormat
  fixes : Bool
  writes : Bool
  showsDiff : Bool
  isPlain : Bool
  jobs : Option Nat
  listsRules : Bool
  deriving DecidableEq, Repr

namespace CommandLine

def bare : CommandLine :=
  ⟨[], none, none, false, false, false, false, none, false⟩

/-- What arguments ask for. -/
inductive Request where
  | version
  | work (line : CommandLine)
  deriving DecidableEq, Repr

/-- An option with a value. -/
inductive ValueOption where
  | config
  | format
  | jobs
  deriving DecidableEq, Repr

/-- An option without a value. -/
inductive FlagOption where
  | fix
  | write
  | diff
  | noColor
  | listRules
  deriving DecidableEq, Repr

def valueOption? (name : String) : Option ValueOption :=
  [("config", ValueOption.config), ("format", .format), ("jobs", .jobs)].lookup name

def shortValueOption? (c : Char) : Option ValueOption :=
  [('c', ValueOption.config), ('f', .format), ('j', .jobs)].lookup c

def flagOption? (name : String) : Option FlagOption :=
  [("fix", FlagOption.fix), ("write", .write), ("diff", .diff), ("no-color", .noColor),
    ("list-rules", .listRules)].lookup name

/-- The number that a value names, with or without a plus sign. -/
def jobs? (value : Text) : Option Nat :=
  let digits := if value.head? == some '+' then value.drop 1 else value
  (Json.digitsValue? digits).filter (· < UInt64.size)

def format? (value : Text) : Option OutputFormat :=
  [OutputFormat.text, .json].find? fun format => format.name.toList == value

/-- Sets an option to a value, unless it is set already or the value is none of its own. -/
def set? (line : CommandLine) (value : Text) : ValueOption → Option CommandLine
  | .config =>
    if line.config.isSome || value.isEmpty then none
    else some { line with config := some (String.ofList value) }
  | .format =>
    if line.format.isSome then none
    else (format? value).map fun format => { line with format := some format }
  | .jobs =>
    if line.jobs.isSome then none
    else (jobs? value).map fun jobs => { line with jobs := some jobs }

def turnOn? (line : CommandLine) : FlagOption → Option CommandLine
  | .fix => if line.fixes then none else some { line with fixes := true }
  | .write => if line.writes then none else some { line with writes := true }
  | .diff => if line.showsDiff then none else some { line with showsDiff := true }
  | .noColor => if line.isPlain then none else some { line with isPlain := true }
  | .listRules => if line.listsRules then none else some { line with listsRules := true }

/-- The command line at its end: writing and showing differences need fixing. -/
def finish? (line : CommandLine) : Option Request :=
  if (line.writes || line.showsDiff) && !line.fixes then none else some (.work line)

/-- What an argument is. -/
inductive Argument where
  /-- Two hyphens. -/
  | separator
  | version
  | flag (option : FlagOption)
  | setting (option : ValueOption)
  | assignment (option : ValueOption) (value : Text)
  | file (name : String)
  | unknown
  deriving DecidableEq, Repr

namespace Argument

def ofLong (t : Text) : Argument :=
  let name := String.ofList (t.takeWhile (· != '='))
  match t.dropWhile (· != '='), valueOption? name, flagOption? name with
  | [], some option, _ => .setting option
  | _ :: value, some option, _ => .assignment option value
  | [], none, some option => .flag option
  | [], none, none => if name == "version" then .version else .unknown
  | _, _, _ => .unknown

/-- What an argument with a short name is, after its hyphen. A value may follow at once. -/
def ofShort (c : Char) (t : Text) : Argument :=
  match shortValueOption? c with
  | some option =>
    if t.isEmpty then .setting option
    else .assignment option (if t.head? == some '=' then t.drop 1 else t)
  | none => if c == 'V' then .version else .unknown

def of (argument : String) : Argument :=
  match argument.toList with
  | ['-', '-'] => .separator
  | '-' :: '-' :: t => ofLong t
  | '-' :: c :: t => ofShort c t
  | _ => .file argument

end Argument

def addFiles (line : CommandLine) (names : List String) : CommandLine :=
  { line with files := line.files ++ names }

/-- Reads arguments from left to right; `pending` is the option whose value comes next. -/
def readFrom? (line : CommandLine) : Option ValueOption → List String → Option Request
  | some _, [] => none
  | none, [] => line.finish?
  | some option, argument :: arguments =>
    match Argument.of argument with
    | .file value => (line.set? value.toList option).bind fun line => line.readFrom? none arguments
    | _ => none
  | none, argument :: arguments =>
    match Argument.of argument with
    | .separator => (line.addFiles arguments).finish?
    | .version => some .version
    | .flag option => (line.turnOn? option).bind fun line => line.readFrom? none arguments
    | .setting option => line.readFrom? (some option) arguments
    | .assignment option value =>
      (line.set? value option).bind fun line => line.readFrom? none arguments
    | .file name => (line.addFiles [name]).readFrom? none arguments
    | .unknown => none

/-- What arguments ask for, unless they are wrong. -/
def read? (arguments : List String) : Option Request :=
  bare.readFrom? none arguments

end CommandLine
end TagLint
