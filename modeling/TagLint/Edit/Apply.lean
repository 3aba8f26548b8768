import TagLint.Edit.Basic

/-!
Applying fixes to a source.

Every fix is merged into one edit, and the edits are tried in the order of their starts; those
with the same start keep their order. An edit that starts at or before the end of the last one
taken is left for later.
-/
namespace TagLint

/-- The edits that are applied together, and those left for later. -/
structure Selection where
  taken : List Edit
  deferred : List Edit
  deriving DecidableEq, Repr

namespace Selection

/-- Selects from edits in the order of their starts, where `last` is the end of the last edit
taken. -/
def choose (last : Option Nat) : List Edit → Selection
  | [] => ⟨[], []⟩
  | e :: others =>
    if last.any (e.start ≤ ·) then
      let rest := choose last others
      ⟨rest.taken, e :: rest.deferred⟩
    else
      let rest := choose (some e.stop) others
      ⟨e :: rest.taken, rest.deferred⟩

/-- The selection from the merged edits of the fixes. -/
def ofFixes? (source : Text) (fixes : List Fix) : Option Selection :=
  (fixes.mapM fun (fix : Fix) => fix.merged? source).map fun edits =>
    choose none (edits.mergeSort fun a b => a.start ≤ b.start)

end Selection

/-- What applying fixes did. -/
structure Applied where
  output : Text
  selection : Selection
  deriving DecidableEq, Repr

namespace Applied

/-- The number of fixes applied. -/
def count (applied : Applied) : Nat :=
  applied.selection.taken.length

/-- The number of fixes left for later. -/
def deferredCount (applied : Applied) : Nat :=
  applied.selection.deferred.length

/-- Whether any fix was applied. -/
def isChanged (applied : Applied) : Bool :=
  applied.count > 0

end Applied

/-- Applies as many of the fixes as fit together; `none` when one of them does not fit the
source. -/
def applyFixes? (source : Text) (fixes : List Fix) : Option Applied :=
  (Selection.ofFixes? source fixes).bind fun selection =>
    (Edit.spliced? source source.byteLength 0 selection.taken).map fun output =>
      ⟨output, selection⟩

end TagLint
