import TagLint.Engine.Files
import Mathlib.Data.List.Basic

/-!
The counts of a result.

A result keeps its counts beside its findings. Those of one file are counted; afterwards results are
only merged, so every count has to be additive, and the exit code has to be the worse of two. Then
the results of any number of files count what a reader would count in the findings.
-/
namespace TagLint

namespace LintResult

/-- Every finding has one of the three severities. -/
theorem add_countOf (diagnostics : List Diagnostic) :
    countOf .error diagnostics + countOf .warning diagnostics + countOf .info diagnostics =
      diagnostics.length := by
  induction diagnostics with
  | nil => rfl
  | cons d others ih =>
    simp only [countOf] at ih
    cases severity : d.severity <;> simp [countOf, severity] <;> omega

theorem countOf_pos_iff {severity : Severity} {diagnostics : List Diagnostic} :
    0 < countOf severity diagnostics ↔
      diagnostics.any (fun d => d.severity == severity) = true := by
  rw [countOf, List.countP_pos_iff, List.any_eq_true]

section Merge

theorem merge_assoc (a b c : LintResult) : (a.merge b).merge c = a.merge (b.merge c) := by
  simp only [merge, List.append_assoc, Nat.add_assoc]

instance : Std.Associative merge :=
  ⟨merge_assoc⟩

theorem merge_empty (a : LintResult) : a.merge empty = a := by
  simp only [merge, empty, List.append_nil, Nat.add_zero]

/-- Only the duration is that of no files. -/
theorem empty_merge (a : LintResult) : empty.merge a = { a with duration := empty.duration } := by
  simp only [merge, empty, List.nil_append, Nat.zero_add]

/-- The worse of two exit codes. -/
theorem exitCode_merge (a b : LintResult) : (a.merge b).exitCode = max a.exitCode b.exitCode := by
  simp only [exitCode, merge]
  grind

/-- Merging goes on from any result as it does from no files. -/
theorem foldl_merge (start : LintResult) (results : List LintResult) :
    results.foldl merge start = start.merge (mergeAll results) := by
  have onward : results.foldl merge (start.merge empty) =
      start.merge (results.foldl merge empty) := List.foldl_assoc
  rwa [merge_empty] at onward

theorem mergeAll_append (first second : List LintResult) :
    mergeAll (first ++ second) = (mergeAll first).merge (mergeAll second) := by
  rw [mergeAll, List.foldl_append, foldl_merge]
  rfl

theorem mergeAll_cons (result : LintResult) (others : List LintResult) :
    mergeAll (result :: others) = (mergeAll [result]).merge (mergeAll others) :=
  mergeAll_append [result] others

/-- A merged result already has the duration of no files. -/
theorem mergeAll_singleton_mergeAll (results : List LintResult) :
    mergeAll [mergeAll results] = mergeAll results :=
  (foldl_merge empty results).symm

/-- Groups may be merged first. -/
theorem mergeAll_flatten (groups : List (List LintResult)) :
    mergeAll groups.flatten = mergeAll (groups.map mergeAll) := by
  induction groups with
  | nil => rfl
  | cons group groups ih =>
    rw [List.flatten_cons, mergeAll_append, ih, List.map_cons, mergeAll_cons (mergeAll group),
      mergeAll_singleton_mergeAll]

theorem exitCode_mergeAll_singleton (result : LintResult) :
    (mergeAll [result]).exitCode = result.exitCode := by
  change (empty.merge result).exitCode = result.exitCode
  rw [empty_merge]
  rfl

theorem exitCode_mergeAll (results : List LintResult) :
    (mergeAll results).exitCode = (results.map exitCode).foldr max 0 := by
  induction results with
  | nil => rfl
  | cons result others ih =>
    rw [mergeAll_cons, exitCode_merge, exitCode_mergeAll_singleton, ih, List.map_cons,
      List.foldr_cons]

end Merge

/-- Whether the result is that of files with the given findings, in order, and all its counts are
right. -/
structure Accounts (result : LintResult) (found : List (List Diagnostic)) : Prop where
  files : result.filesProcessed = found.length
  diagnostics : result.diagnostics = found.flatten
  errors : result.errorCount = countOf .error result.diagnostics
  warnings : result.warningCount = countOf .warning result.diagnostics
  infos : result.infoCount = countOf .info result.diagnostics
  fixable : result.fixableCount = result.diagnostics.countP Diagnostic.isFixable
  withErrors : result.filesWithErrors =
    found.countP fun own => own.any fun d => d.severity == .error
  withWarnings : result.filesWithWarnings =
    found.countP fun own => own.any fun d => d.severity == .warning

namespace Accounts

theorem empty : LintResult.empty.Accounts [] := by
  constructor <;> rfl

theorem ofFile (found : List Diagnostic) : (LintResult.ofFile found).Accounts [found] := by
  have one (severity : Severity) : (if countOf severity found > 0 then 1 else 0) =
      [found].countP fun own => own.any fun d => d.severity == severity := by
    rw [List.countP_singleton]
    exact if_congr countOf_pos_iff rfl rfl
  refine {
    files := rfl
    diagnostics := (List.flatten_singleton).symm
    errors := rfl
    warnings := rfl
    infos := rfl
    fixable := rfl
    withErrors := one .error
    withWarnings := one .warning }

/-- Merging puts the files of the second result after those of the first. -/
theorem merge {a b : LintResult} {first second : List (List Diagnostic)} (left : a.Accounts first)
    (right : b.Accounts second) : (a.merge b).Accounts (first ++ second) := by
  constructor
  · rw [List.length_append, ← left.files, ← right.files]
    rfl
  · rw [List.flatten_append, ← left.diagnostics, ← right.diagnostics]
    rfl
  all_goals simp only [LintResult.merge, countOf, List.countP_append]
  · exact congrArg₂ (· + ·) left.errors right.errors
  · exact congrArg₂ (· + ·) left.warnings right.warnings
  · exact congrArg₂ (· + ·) left.infos right.infos
  · exact congrArg₂ (· + ·) left.fixable right.fixable
  · exact congrArg₂ (· + ·) left.withErrors right.withErrors
  · exact congrArg₂ (· + ·) left.withWarnings right.withWarnings

/-- The merged results of files account for all of them. -/
theorem mergeAll (found : List (List Diagnostic)) :
    (LintResult.mergeAll (found.map LintResult.ofFile)).Accounts found := by
  induction found with
  | nil => exact empty
  | cons own others ih =>
    have alone : (LintResult.mergeAll [LintResult.ofFile own]).Accounts [own] :=
      empty.merge (ofFile own)
    rw [List.map_cons, mergeAll_cons]
    exact alone.merge ih

/-- The counts of the severities add up to the number of findings. -/
theorem total {result : LintResult} {found : List (List Diagnostic)}
    (accounts : result.Accounts found) :
    result.errorCount + result.warningCount + result.infoCount = result.diagnostics.length := by
  rw [accounts.errors, accounts.warnings, accounts.infos]
  exact add_countOf result.diagnostics

end Accounts

end LintResult

namespace Engine

variable {Store : Type} [FileStore Store]

/-- What is found in a file: the findings of its text, or the one that says why it has none. -/
def findings (engine : Engine) (files : Store) (path : String) : List Diagnostic :=
  match FileStore.read files path with
  | .ok source => engine.lint path source
  | .error failure => [failure.toDiagnostic path]

theorem lintFile_eq_ofFile (engine : Engine) (files : Store) (path : String) :
    engine.lintFile files path = LintResult.ofFile (engine.findings files path) := by
  unfold lintFile findings
  cases FileStore.read files path <;> rfl

/-- Whether linting files adds up what is found in each of them. -/
structure AddsUp (engine : Engine) (files : Store) : Prop where
  accounts : ∀ paths : List String,
    (engine.lintFiles files paths).Accounts (paths.map (engine.findings files))
  total : ∀ paths : List String,
    (engine.lintFiles files paths).errorCount + (engine.lintFiles files paths).warningCount +
      (engine.lintFiles files paths).infoCount =
        (engine.lintFiles files paths).diagnostics.length
  /-- The exit code is the worst of those of the files alone. -/
  exitCode : ∀ paths : List String, (engine.lintFiles files paths).exitCode =
    (paths.map fun path => (engine.lintFile files path).exitCode).foldr max 0
  merge_assoc : ∀ a b c : LintResult, (a.merge b).merge c = a.merge (b.merge c)
  /-- No files are neutral, but a merged result has the duration of the first. -/
  merge_empty : ∀ a : LintResult, a.merge .empty = a
  empty_merge : ∀ a : LintResult,
    LintResult.empty.merge a = { a with duration := LintResult.empty.duration }
  grouped : ∀ groups : List (List String), engine.lintFiles files groups.flatten =
    LintResult.mergeAll (groups.map (engine.lintFiles files))

/-- Linting adds up what is found, whatever the files are kept in. -/
theorem addsUp (engine : Engine) (files : Store) : engine.AddsUp files := by
  -- A result of many files is the merger of those of each of them, in the order of the paths.
  have accounts (paths : List String) :
      (engine.lintFiles files paths).Accounts (paths.map (engine.findings files)) := by
    have same : paths.map (engine.lintFile files) =
        (paths.map (engine.findings files)).map LintResult.ofFile := by
      rw [List.map_map]
      exact List.map_congr_left fun path _ => engine.lintFile_eq_ofFile files path
    rw [lintFiles, same]
    exact LintResult.Accounts.mergeAll _
  refine {
    accounts := accounts
    total := fun paths => (accounts paths).total
    exitCode := ?exitCode
    merge_assoc := LintResult.merge_assoc
    merge_empty := LintResult.merge_empty
    empty_merge := LintResult.empty_merge
    grouped := ?grouped }
  case exitCode =>
    intro paths
    rw [lintFiles, LintResult.exitCode_mergeAll, List.map_map]
    rfl
  case grouped =>
    intro groups
    rw [lintFiles, List.map_flatten, LintResult.mergeAll_flatten, List.map_map]
    rfl

end Engine
end TagLint
