import TagLint.Lint.Diagnostic

/-! Findings of any number of files, with their counts. -/
namespace TagLint

/-- Findings with their counts. -/
structure LintResult where
  diagnostics : List Diagnostic
  filesProcessed : Nat
  filesWithErrors : Nat
  filesWithWarnings : Nat
  errorCount : Nat
  warningCount : Nat
  infoCount : Nat
  fixableCount : Nat
  /-- How long it took, in milliseconds. -/
  duration : Nat
  deriving DecidableEq, Repr

namespace LintResult

/-- No files. -/
def empty : LintResult :=
  ⟨[], 0, 0, 0, 0, 0, 0, 0, 0⟩

/-- The number of findings of a severity. -/
def countOf (severity : Severity) (diagnostics : List Diagnostic) : Nat :=
  diagnostics.countP fun d => d.severity == severity

/-- The findings of one file. -/
def ofFile (diagnostics : List Diagnostic) : LintResult :=
  let errors := countOf .error diagnostics
  let warnings := countOf .warning diagnostics
  { diagnostics := diagnostics
    filesProcessed := 1
    filesWithErrors := if errors > 0 then 1 else 0
    filesWithWarnings := if warnings > 0 then 1 else 0
    errorCount := errors
    warningCount := warnings
    infoCount := countOf .info diagnostics
    fixableCount := diagnostics.countP Diagnostic.isFixable
    duration := 0 }

/-- The findings of the files of both; the duration stays that of the first. -/
def merge (a b : LintResult) : LintResult :=
  { diagnostics := a.diagnostics ++ b.diagnostics
    filesProcessed := a.filesProcessed + b.filesProcessed
    filesWithErrors := a.filesWithErrors + b.filesWithErrors
    filesWithWarnings := a.filesWithWarnings + b.filesWithWarnings
    errorCount := a.errorCount + b.errorCount
    warningCount := a.warningCount + b.warningCount
    infoCount := a.infoCount + b.infoCount
    fixableCount := a.fixableCount + b.fixableCount
    duration := a.duration }

/-- The findings of all files. -/
def mergeAll (results : List LintResult) : LintResult :=
  results.foldl merge empty

def hasErrors (result : LintResult) : Bool :=
  result.errorCount > 0

def hasWarnings (result : LintResult) : Bool :=
  result.warningCount > 0

/-- Whether there are neither errors nor warnings. -/
def isClean (result : LintResult) : Bool :=
  result.errorCount == 0 && result.warningCount == 0

/-- The exit code: 2 with errors, 1 with warnings, 0 otherwise. -/
def exitCode (result : LintResult) : Nat :=
  if result.errorCount > 0 then 2 else if result.warningCount > 0 then 1 else 0

end LintResult
end TagLint
