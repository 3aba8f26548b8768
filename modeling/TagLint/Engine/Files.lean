import TagLint.Edit.Diff
import TagLint.Engine.FixLoop
import TagLint.Engine.Result
import TagLint.Files.Store

/-!
Linting and fixing files.

A file that cannot be read counts as a file with one finding, which says why. Files are handled in
the order given, and each sees what was written for those before it.
-/
namespace TagLint

/-- The finding about a file that cannot be read. -/
def FileFailure.toDiagnostic (failure : FileFailure) (path : String) : Diagnostic :=
  { ruleId := "file-read-error"
    messageId := "READ"
    severity := .error
    message := "Failed to read file: " ++ failure.message
    data := []
    location := ⟨path, 0, 0, 0, 0⟩
    span := ⟨0, 0⟩
    sourceLine := none
    help := none
    fix := none }

/-- What fixing a file did. -/
structure FileFix where
  path : String
  source : Text
  outcome : FixOutcome
  deriving DecidableEq, Repr

namespace FileFix

/-- The change as a unified diff. -/
def diff (fix : FileFix) : Text :=
  unifiedDiff fix.path fix.source fix.outcome.output

end FileFix

/-- What came of fixing a file. -/
inductive FileReport where
  | fixed (fix : FileFix)
  | unreadable (path : String) (failure : FileFailure)
  deriving DecidableEq, Repr

namespace FileReport

def fix? : FileReport → Option FileFix
  | fixed fix => some fix
  | unreadable _ _ => none

/-- The findings that are left. -/
def result : FileReport → LintResult
  | fixed fix => LintResult.ofFile fix.outcome.remaining
  | unreadable path failure => LintResult.ofFile [failure.toDiagnostic path]

end FileReport

namespace Engine

variable {Store : Type} [FileStore Store]

def lintFile (engine : Engine) (files : Store) (path : String) : LintResult :=
  match FileStore.read files path with
  | .ok source => LintResult.ofFile (engine.lint path source)
  | .error failure => LintResult.ofFile [failure.toDiagnostic path]

def lintFiles (engine : Engine) (files : Store) (paths : List String) : LintResult :=
  LintResult.mergeAll (paths.map (engine.lintFile files))

def lintFileLog (engine : Engine) (files : Store) (path : String) : List LogRecord :=
  ⟨.debug, "linting " ++ path⟩ ::
    match FileStore.read files path with
    | .ok source => engine.lintLog source
    | .error _ => []

/-- Fixes a file, and writes it back if that is asked for and anything changed. -/
def fixFile (engine : Engine) (writes : Bool) (files : Store) (path : String) :
    FileReport × Store :=
  match FileStore.read files path with
  | .error failure => (.unreadable path failure, files)
  | .ok source =>
    let outcome := engine.fix path source
    (.fixed ⟨path, source, outcome⟩,
      if writes && outcome.isChanged then FileStore.write files path outcome.output else files)

def fixFiles (engine : Engine) (writes : Bool) (files : Store) :
    List String → List FileReport × Store
  | [] => ([], files)
  | path :: paths =>
    let (report, files) := engine.fixFile writes files path
    let (reports, files) := engine.fixFiles writes files paths
    (report :: reports, files)

/-- The findings that are left in files. -/
def reportsResult (reports : List FileReport) : LintResult :=
  LintResult.mergeAll (reports.map FileReport.result)

def fixFileLog (engine : Engine) (writes : Bool) : FileReport → List LogRecord
  | .unreadable _ _ => []
  | .fixed fix =>
    engine.fixLog fix.path fix.source ++
      if writes && fix.outcome.isChanged then [⟨.debug, "wrote " ++ fix.path⟩] else []

end Engine
end TagLint
