import TagLint.Edit.Apply
import TagLint.Engine.Basic

/-!
Fixing a source.

A pass lints the source and applies as many fixes as fit together. Passes go on until nothing is
left to apply or the configured number of them is reached; at least one pass is made.
-/
namespace TagLint

/-- The fixes of some findings. -/
def Diagnostic.fixes (diagnostics : List Diagnostic) : List Fix :=
  diagnostics.filterMap Diagnostic.fix

/-- What fixing a source did. -/
structure FixOutcome where
  output : Text
  /-- The number of passes that applied a fix. -/
  passes : Nat
  /-- The number of fixes applied in all passes. -/
  fixesApplied : Nat
  /-- The findings in the output. -/
  remaining : List Diagnostic
  deriving DecidableEq, Repr

/-- Whether any fix was applied. -/
def FixOutcome.isChanged (outcome : FixOutcome) : Bool :=
  outcome.fixesApplied > 0

namespace Engine

/-- One pass: the source with the fixes of its findings applied; none where there is nothing to
apply. -/
def pass? (engine : Engine) (path : String) (source : Text) : Option Applied :=
  (applyFixes? source (Diagnostic.fixes (engine.lint path source))).filter Applied.isChanged

/-- Makes passes until there is nothing to apply, at most `limit` of them. -/
def fixWithin (engine : Engine) (path : String) : Nat → Text → FixOutcome
  | 0, source => ⟨source, 0, 0, engine.lint path source⟩
  | limit + 1, source =>
    match engine.pass? path source with
    | none => ⟨source, 0, 0, engine.lint path source⟩
    | some applied =>
      let rest := engine.fixWithin path limit applied.output
      { rest with passes := rest.passes + 1, fixesApplied := applied.count + rest.fixesApplied }

/-- The most passes over one source. -/
def maxPasses (engine : Engine) : Nat :=
  max 1 engine.config.engine.maxFixPasses

/-- Fixes a source. -/
def fix (engine : Engine) (path : String) (source : Text) : FixOutcome :=
  engine.fixWithin path engine.maxPasses source

end Engine

namespace Applied

def log (applied : Applied) : List LogRecord :=
  applied.selection.deferred.map fun edit =>
    ⟨.trace, "skipping conflicting fix at " ++ toString edit.start ++ ".." ++ toString edit.stop⟩

end Applied

namespace Engine

/-- The records of fixing a source, after `done` passes and with at most `limit` more. -/
def fixLogFrom (engine : Engine) (path : String) (done : Nat) : Nat → Text → List LogRecord
  | 0, source =>
    engine.lintLog source ++
      [⟨.debug, path ++ ": stopping after " ++ toString done ++ " fix passes"⟩]
  | limit + 1, source =>
    engine.lintLog source ++
      match applyFixes? source (Diagnostic.fixes (engine.lint path source)) with
      | none => []
      | some applied =>
        applied.log ++
          if applied.isChanged then
            ⟨.debug, path ++ ": pass " ++ toString (done + 1) ++ " applied " ++
              toString applied.count ++ " fixes (" ++ toString applied.deferredCount ++
              " deferred)"⟩ :: engine.fixLogFrom path (done + 1) limit applied.output
          else []

def fixLog (engine : Engine) (path : String) (source : Text) : List LogRecord :=
  engine.fixLogFrom path 0 engine.maxPasses source

end Engine
end TagLint
