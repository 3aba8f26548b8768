import TagLint.Engine.Files
import TagLint.Proofs.FixLoop
import Mathlib.Logic.Function.Basic

/-!
Fixing files, and linting them afterwards.

What comes of a file depends on its own entry alone, and fixing one leaves the entries of all others
as they are. So with different paths the files can be looked at one by one, and there the findings
that the fix loop leaves are those of its output, which is what stands at the path afterwards.
-/
namespace TagLint

/-- Files by their paths, each with its content or with why it cannot be read. -/
structure FileMap where
  entry : String → Except FileFailure Text

namespace FileMap

/-- Puts a content at a path, and leaves all other paths as they are. -/
def write (files : FileMap) (path : String) (content : Text) : FileMap :=
  ⟨Function.update files.entry path (.ok content)⟩

instance : FileStore FileMap where
  read files := files.entry
  write := write

theorem entry_write (files : FileMap) (path : String) (content : Text) :
    (files.write path content).entry path = .ok content :=
  Function.update_self path _ files.entry

theorem entry_write_of_ne (files : FileMap) {path other : String} (apart : other ≠ path)
    (content : Text) : (files.write path content).entry other = files.entry other :=
  Function.update_of_ne apart _ files.entry

end FileMap

namespace Engine

section File

variable {engine : Engine} {files : FileMap} {path : String} (writes : Bool)

theorem fixFile_of_error {failure : FileFailure} (found : files.entry path = .error failure) :
    engine.fixFile writes files path = (.unreadable path failure, files) := by
  have read : FileStore.read files path = .error failure := found
  rw [fixFile, read]

theorem fixFile_of_ok {source : Text} (found : files.entry path = .ok source) :
    engine.fixFile writes files path = (.fixed ⟨path, source, engine.fix path source⟩,
      if writes && (engine.fix path source).isChanged then
        files.write path (engine.fix path source).output
      else files) := by
  have read : FileStore.read files path = .ok source := found
  rw [fixFile, read]
  rfl

/-- What comes of a file depends on its own entry alone, and not on whether it is written back. -/
theorem report_fixFile {writes' : Bool} {files' : FileMap}
    (same : files'.entry path = files.entry path) :
    (engine.fixFile writes' files' path).1 = (engine.fixFile writes files path).1 := by
  cases found : files.entry path with
  | error failure => rw [fixFile_of_error _ found, fixFile_of_error _ (same.trans found)]
  | ok source => rw [fixFile_of_ok _ found, fixFile_of_ok _ (same.trans found)]

/-- Fixing a file leaves all others as they are. -/
theorem entry_fixFile_of_ne {other : String} (apart : other ≠ path) :
    (engine.fixFile writes files path).2.entry other = files.entry other := by
  cases found : files.entry path with
  | error failure => rw [fixFile_of_error _ found]
  | ok source =>
    rw [fixFile_of_ok _ found]
    split
    · exact files.entry_write_of_ne apart _
    · rfl

/-- After fixing, the file has what the fix loop put out, whether that was written or was there. -/
theorem entry_fixFile {source : Text} (found : files.entry path = .ok source) :
    (engine.fixFile true files path).2.entry path = .ok (engine.fix path source).output := by
  rw [fixFile_of_ok _ found, Bool.true_and]
  cases changed : (engine.fix path source).isChanged with
  | true => exact files.entry_write path _
  | false =>
    obtain ⟨_, counted, unchanged⟩ := engine.passes_fixWithin path engine.maxPasses source
    have none : (engine.fix path source).fixesApplied = 0 := by
      simpa [FixOutcome.isChanged] using changed
    have same : (engine.fix path source).output = source :=
      (unchanged (Nat.le_zero.1 (none ▸ counted))).2
    rw [same]
    exact found

theorem lintFile_congr {files' : FileMap} (same : files'.entry path = files.entry path) :
    engine.lintFile files' path = engine.lintFile files path := by
  have read : FileStore.read files' path = FileStore.read files path := same
  rw [lintFile, lintFile, read]

/-- What fixing a file leaves is what is found in it afterwards. -/
theorem lintFile_fixFile (engine : Engine) (files : FileMap) (path : String) :
    engine.lintFile (engine.fixFile true files path).2 path =
      (engine.fixFile true files path).1.result := by
  cases found : files.entry path with
  | error failure =>
    have read : FileStore.read files path = .error failure := found
    rw [fixFile_of_error _ found, lintFile, read]
    rfl
  | ok source =>
    have read : FileStore.read (engine.fixFile true files path).2 path =
        .ok (engine.fix path source).output := entry_fixFile found
    rw [lintFile, read, fixFile_of_ok _ found]
    have remaining : (engine.fix path source).remaining =
        engine.lint path (engine.fix path source).output :=
      engine.remaining_fixWithin path engine.maxPasses source
    simp only [FileReport.result, remaining]

end File

section Files

variable (engine : Engine) (writes : Bool) (files : FileMap)

theorem fixFiles_cons (path : String) (paths : List String) :
    engine.fixFiles writes files (path :: paths) =
      (let fixed := engine.fixFile writes files path
      let others := engine.fixFiles writes fixed.2 paths
      (fixed.1 :: others.1, others.2)) := rfl

/-- Paths that are not fixed stay as they are. -/
theorem entry_fixFiles_of_not_mem {paths : List String} {path : String} (other : path ∉ paths) :
    (engine.fixFiles writes files paths).2.entry path = files.entry path := by
  induction paths generalizing files with
  | nil => rfl
  | cons first paths ih =>
    obtain ⟨apart, later⟩ : path ≠ first ∧ path ∉ paths := by simpa using other
    rw [fixFiles_cons]
    exact (ih _ later).trans (entry_fixFile_of_ne writes apart)

variable {paths : List String}

/-- Of files with different paths the same comes as of each alone. -/
theorem reports_fixFiles (distinct : paths.Nodup) :
    (engine.fixFiles writes files paths).1 =
      paths.map fun path => (engine.fixFile writes files path).1 := by
  induction paths generalizing files with
  | nil => rfl
  | cons first paths ih =>
    obtain ⟨apart, distinct⟩ := List.nodup_cons.1 distinct
    rw [fixFiles_cons, List.map_cons]
    simp only [ih _ distinct, List.cons.injEq, true_and]
    refine List.map_congr_left fun path member => report_fixFile writes ?_
    exact entry_fixFile_of_ne writes (ne_of_mem_of_not_mem member apart)

/-- What stands at a path afterwards is what fixing it alone leaves there. -/
theorem entry_fixFiles (distinct : paths.Nodup) {path : String} (member : path ∈ paths) :
    (engine.fixFiles writes files paths).2.entry path =
      (engine.fixFile writes files path).2.entry path := by
  induction paths generalizing files with
  | nil => simp at member
  | cons first paths ih =>
    obtain ⟨apart, distinct⟩ := List.nodup_cons.1 distinct
    rw [fixFiles_cons]
    rcases List.mem_cons.1 member with rfl | later
    · -- The path is not named again.
      exact engine.entry_fixFiles_of_not_mem writes _ apart
    · have other : path ≠ first := ne_of_mem_of_not_mem later apart
      have same : (engine.fixFile writes files first).2.entry path = files.entry path :=
        entry_fixFile_of_ne writes other
      rw [ih _ distinct later]
      cases found : files.entry path with
      | error failure =>
        rw [fixFile_of_error writes (same.trans found), fixFile_of_error writes found, same]
      | ok source =>
        rw [fixFile_of_ok writes (same.trans found), fixFile_of_ok writes found]
        split
        · rw [FileMap.entry_write, FileMap.entry_write]
        · exact same

/-- Without writing, no file is changed. -/
theorem files_fixFiles_false : (engine.fixFiles false files paths).2 = files := by
  have single (path : String) : (engine.fixFile false files path).2 = files := by
    cases found : files.entry path with
    | error failure => rw [fixFile_of_error _ found]
    | ok source =>
      rw [fixFile_of_ok _ found]
      rfl
  induction paths with
  | nil => rfl
  | cons path paths ih =>
    rw [fixFiles_cons]
    simp only [single, ih]

end Files

/-- What fixing files does to them, and what it says about them. -/
structure FixesFiles (engine : Engine) (files : FileMap) (paths : List String) : Prop where
  /-- The findings that are left, with their counts, are those of linting afterwards. -/
  lints : reportsResult (engine.fixFiles true files paths).1 =
    engine.lintFiles (engine.fixFiles true files paths).2 paths
  /-- Files that cannot be read, and those that no fix is applied to, are left as they were. -/
  unreadable : ∀ path failure, files.entry path = .error failure →
    (engine.fixFiles true files paths).2.entry path = .error failure
  unchanged : ∀ fix, FileReport.fixed fix ∈ (engine.fixFiles true files paths).1 →
    files.entry fix.path = .ok fix.source ∧ (fix.outcome.isChanged = false →
      (engine.fixFiles true files paths).2.entry fix.path = files.entry fix.path)
  /-- All others have what fixing put out; and paths that are not named are not touched. -/
  written : ∀ fix, FileReport.fixed fix ∈ (engine.fixFiles true files paths).1 →
    (engine.fixFiles true files paths).2.entry fix.path = .ok fix.outcome.output
  others : ∀ path, path ∉ paths →
    (engine.fixFiles true files paths).2.entry path = files.entry path
  /-- Without writing, all is reported just so, and no file is changed. -/
  reports : (engine.fixFiles false files paths).1 = (engine.fixFiles true files paths).1
  untouched : (engine.fixFiles false files paths).2 = files

/-- To fix files is to have them linted when they are fixed, where no path is named twice. -/
theorem fixesFiles (engine : Engine) (files : FileMap) {paths : List String}
    (distinct : paths.Nodup) : engine.FixesFiles files paths := by
  have fixed {fix : FileFix}
      (member : FileReport.fixed fix ∈ (engine.fixFiles true files paths).1) :
      fix.path ∈ paths ∧ files.entry fix.path = .ok fix.source ∧
        fix.outcome = engine.fix fix.path fix.source := by
    rw [reports_fixFiles engine true files distinct] at member
    obtain ⟨path, listed, made⟩ := List.mem_map.1 member
    cases found : files.entry path with
    | error failure => simp [fixFile_of_error _ found] at made
    | ok source =>
      rw [fixFile_of_ok _ found, FileReport.fixed.injEq] at made
      subst made
      exact ⟨listed, found, rfl⟩
  refine {
    lints := ?lints
    unreadable := ?unreadable
    unchanged := ?unchanged
    written := ?written
    others := fun path => entry_fixFiles_of_not_mem engine true files
    reports := ?reports
    untouched := files_fixFiles_false engine files }
  case lints =>
    -- What is linted at a path depends only on what stands there, which fixing it alone has left.
    rw [reportsResult, lintFiles, reports_fixFiles engine true files distinct, List.map_map]
    congr 1
    refine List.map_congr_left fun path member => ?_
    rw [lintFile_congr (entry_fixFiles engine true files distinct member)]
    exact (lintFile_fixFile engine files path).symm
  case unreadable =>
    intro path failure found
    by_cases member : path ∈ paths
    · rw [entry_fixFiles engine true files distinct member, fixFile_of_error _ found]
      exact found
    · rw [entry_fixFiles_of_not_mem engine true files member]
      exact found
  case unchanged =>
    intro fix member
    obtain ⟨listed, found, outcome⟩ := fixed member
    refine ⟨found, fun same => ?_⟩
    rw [entry_fixFiles engine true files distinct listed, fixFile_of_ok _ found, ← outcome, same]
    rfl
  case written =>
    intro fix member
    obtain ⟨listed, found, outcome⟩ := fixed member
    rw [entry_fixFiles engine true files distinct listed, entry_fixFile found, outcome]
  case reports =>
    rw [reports_fixFiles engine false files distinct, reports_fixFiles engine true files distinct]
    exact List.map_congr_left fun path _ => report_fixFile true rfl

/-- One of the files cannot be read, and one needs no fix. -/
theorem fixesFiles_sample :
    ["a.html", "b.html", "c.html"].Nodup ∧
      (⟨.initial, [⟨.elementNewline ⟨[], []⟩, .warning⟩]⟩ : Engine).FixesFiles
        ⟨fun path => if path = "a.html" then .ok "<p><i>b</i></p>".toList
          else if path = "b.html" then .error .notText else .ok "<p>a</p>".toList⟩
        ["a.html", "b.html", "c.html"] :=
  ⟨by decide, fixesFiles _ _ (by decide)⟩

end Engine
end TagLint
