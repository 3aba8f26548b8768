import TagLint.Proofs.HarmlessFixes

/-!
What the fix loop promises.

A pass is made just where some finding has a fix, since the fixes of a source are applied without
fail and at least one of them is. So the loop stops early only where nothing is left to mend, what
it reports is what is found in its output, and two runs one after the other are one run with both
their limits.
-/
namespace TagLint

namespace Engine

/-- The engine with another limit of passes. -/
def withLimit (engine : Engine) (limit : Nat) : Engine :=
  { engine with
    config := { engine.config with engine := { engine.config.engine with maxFixPasses := limit } } }

/-- Passes one after the other, as many as there are, from one source to another. -/
inductive Reaches (engine : Engine) (path : String) : Nat → Text → Text → Prop where
  | done (source : Text) : Reaches engine path 0 source source
  | pass {source final : Text} {applied : Applied} {count : Nat}
      (applies : applyFixes? source (Diagnostic.fixes (engine.lint path source)) = some applied)
      (rest : Reaches engine path count applied.output final) :
      Reaches engine path (count + 1) source final

variable {engine : Engine} {path : String} {source : Text}

/-- A source is left as it is just where no finding in it has a fix. -/
theorem pass?_eq_none_iff :
    engine.pass? path source = none ↔ ∀ d ∈ engine.lint path source, d.fix = none := by
  obtain ⟨applied, applies, follows⟩ := engine.exists_applied_lint path source
  have nothing : Diagnostic.fixes (engine.lint path source) = [] ↔
      ∀ d ∈ engine.lint path source, d.fix = none := List.filterMap_eq_nil_iff
  rw [← nothing, ← follows.changed, pass?, applies]
  simp [Applied.isChanged]

/-- A pass that is made applies the fixes of the findings, one of them at least. -/
theorem of_pass? {applied : Applied} (made : engine.pass? path source = some applied) :
    applyFixes? source (Diagnostic.fixes (engine.lint path source)) = some applied ∧
      applied.Follows source (Diagnostic.fixes (engine.lint path source)) ∧ 0 < applied.count := by
  obtain ⟨other, applies, follows⟩ := engine.exists_applied_lint path source
  rw [pass?, applies, Option.filter_eq_some_iff] at made
  obtain ⟨same, changed⟩ := made
  obtain rfl := Option.some.inj same
  exact ⟨applies, follows, by simpa [Applied.isChanged] using changed⟩

section Within

theorem fixWithin_of_none {limit : Nat} (settled : engine.pass? path source = none) :
    engine.fixWithin path limit source = ⟨source, 0, 0, engine.lint path source⟩ := by
  cases limit with
  | zero => rfl
  | succ limit => rw [fixWithin, settled]

theorem fixWithin_of_some {limit : Nat} {applied : Applied}
    (made : engine.pass? path source = some applied) :
    engine.fixWithin path (limit + 1) source =
      { engine.fixWithin path limit applied.output with
        passes := (engine.fixWithin path limit applied.output).passes + 1
        fixesApplied :=
          applied.count + (engine.fixWithin path limit applied.output).fixesApplied } := by
  rw [fixWithin, made]

/-- What is left after a run is what is found in its output. -/
theorem remaining_fixWithin (engine : Engine) (path : String) (limit : Nat) (source : Text) :
    (engine.fixWithin path limit source).remaining =
      engine.lint path (engine.fixWithin path limit source).output := by
  induction limit generalizing source with
  | zero => rfl
  | succ limit ih =>
    cases made : engine.pass? path source with
    | none => rw [fixWithin_of_none made]
    | some applied =>
      rw [fixWithin_of_some made]
      exact ih applied.output

/-- Every pass counts and applies a fix, and without one nothing has changed. -/
theorem passes_fixWithin (engine : Engine) (path : String) (limit : Nat) (source : Text) :
    (engine.fixWithin path limit source).passes ≤ limit ∧
      (engine.fixWithin path limit source).passes ≤
        (engine.fixWithin path limit source).fixesApplied ∧
      ((engine.fixWithin path limit source).passes = 0 →
        (engine.fixWithin path limit source).fixesApplied = 0 ∧
          (engine.fixWithin path limit source).output = source) := by
  induction limit generalizing source with
  | zero => simp [fixWithin]
  | succ limit ih =>
    cases made : engine.pass? path source with
    | none => simp [fixWithin_of_none made]
    | some applied =>
      have long := (of_pass? made).2.2
      obtain ⟨bounded, counted, _⟩ := ih applied.output
      rw [fixWithin_of_some made]
      refine ⟨Nat.succ_le_succ bounded, ?_, fun none => ?_⟩
      · simp only
        omega
      · exact absurd none (Nat.succ_ne_zero _)

/-- A run that stops before its limit has nothing left to apply. -/
theorem pass?_fixWithin {limit : Nat} {source : Text}
    (early : (engine.fixWithin path limit source).passes < limit) :
    engine.pass? path (engine.fixWithin path limit source).output = none := by
  induction limit generalizing source with
  | zero => exact absurd early (Nat.not_lt_zero _)
  | succ limit ih =>
    cases made : engine.pass? path source with
    | none =>
      rw [fixWithin_of_none made]
      exact made
    | some applied =>
      rw [fixWithin_of_some made] at early ⊢
      exact ih (Nat.lt_of_succ_lt_succ early)

/-- A run with the sum of two limits is a run with the first one and then one with the second. -/
theorem fixWithin_add (engine : Engine) (path : String) (first second : Nat) (source : Text) :
    engine.fixWithin path (first + second) source =
      (let begun := engine.fixWithin path first source
      let ended := engine.fixWithin path second begun.output
      { ended with
        passes := begun.passes + ended.passes
        fixesApplied := begun.fixesApplied + ended.fixesApplied }) := by
  induction first generalizing source with
  | zero => simp [fixWithin]
  | succ first ih =>
    cases made : engine.pass? path source with
    | none => simp [fixWithin_of_none made]
    | some applied =>
      rw [Nat.succ_add, fixWithin_of_some made, fixWithin_of_some made, ih]
      simp only [FixOutcome.mk.injEq, true_and, and_true]
      omega

/-- A run of the loop is as many passes as it counts. -/
theorem reaches_fixWithin (engine : Engine) (path : String) (limit : Nat) (source : Text) :
    engine.Reaches path (engine.fixWithin path limit source).passes source
      (engine.fixWithin path limit source).output := by
  induction limit generalizing source with
  | zero => exact .done source
  | succ limit ih =>
    cases made : engine.pass? path source with
    | none =>
      rw [fixWithin_of_none made]
      exact .done source
    | some applied =>
      rw [fixWithin_of_some made]
      exact .pass (of_pass? made).1 (ih applied.output)

end Within

/-- The limit has a say only in when to stop. -/
theorem fix_withLimit (engine : Engine) (path : String) {limit : Nat} (positive : 1 ≤ limit)
    (source : Text) :
    (engine.withLimit limit).fix path source = engine.fixWithin path limit source := by
  have same (limit' : Nat) (source : Text) :
      (engine.withLimit limit).fixWithin path limit' source =
        engine.fixWithin path limit' source := by
    induction limit' generalizing source with
    | zero => rfl
    | succ limit' ih =>
      have passes : (engine.withLimit limit).pass? path source = engine.pass? path source := rfl
      cases made : engine.pass? path source with
      | none =>
        rw [fixWithin_of_none made, fixWithin_of_none (passes.trans made)]
        rfl
      | some applied =>
        rw [fixWithin_of_some made, fixWithin_of_some (passes.trans made), ih]
  have passes : (engine.withLimit limit).maxPasses = limit := Nat.max_eq_right positive
  rw [fix, passes, same]

/-- What fixing a source promises. -/
structure FixesAsPromised (engine : Engine) (path : String) (source : Text) : Prop where
  /-- No pass fails: each is a linting and an application of what fits together. -/
  runs : engine.Reaches path (engine.fix path source).passes source (engine.fix path source).output
  applies : ∀ text,
    (applyFixes? text (Diagnostic.fixes (engine.lint path text))).isSome = true
  bounded : (engine.fix path source).passes ≤ max 1 engine.config.engine.maxFixPasses
  counted : (engine.fix path source).passes ≤ (engine.fix path source).fixesApplied
  /-- Without a pass no fix is applied, and the other way round; and then nothing has changed. -/
  unchanged : ((engine.fix path source).passes = 0 ↔ (engine.fix path source).fixesApplied = 0) ∧
    ((engine.fix path source).passes = 0 → (engine.fix path source).output = source)
  remaining : (engine.fix path source).remaining =
    engine.lint path (engine.fix path source).output
  /-- Below the limit nothing is left to mend, and fixing again changes nothing. -/
  settled : (engine.fix path source).passes < max 1 engine.config.engine.maxFixPasses →
    (∀ d ∈ (engine.fix path source).remaining, d.fix = none) ∧
      engine.fix path (engine.fix path source).output =
        ⟨(engine.fix path source).output, 0, 0, (engine.fix path source).remaining⟩
  /-- Two runs one after the other are one run with both limits. -/
  composes : ∀ first second, 1 ≤ first → 1 ≤ second →
    (engine.withLimit (first + second)).fix path source =
      (let begun := (engine.withLimit first).fix path source
      let ended := (engine.withLimit second).fix path begun.output
      { ended with
        passes := begun.passes + ended.passes
        fixesApplied := begun.fixesApplied + ended.fixesApplied })

/-- The fix loop keeps its promises, whatever the rules and the source are. -/
theorem fixesAsPromised (engine : Engine) (path : String) (source : Text) :
    engine.FixesAsPromised path source := by
  obtain ⟨bounded, counted, unchanged⟩ := engine.passes_fixWithin path engine.maxPasses source
  have remaining : (engine.fix path source).remaining =
      engine.lint path (engine.fix path source).output :=
    engine.remaining_fixWithin path engine.maxPasses source
  refine {
    runs := engine.reaches_fixWithin path engine.maxPasses source
    applies := ?applies
    bounded := bounded
    counted := counted
    unchanged := ?unchanged
    remaining := remaining
    settled := ?settled
    composes := ?composes }
  case applies =>
    intro text
    obtain ⟨applied, applies, _⟩ := engine.exists_applied_lint path text
    rw [applies]
    rfl
  case unchanged =>
    refine ⟨⟨fun none => (unchanged none).1, fun none => ?_⟩, fun none => (unchanged none).2⟩
    exact Nat.le_zero.1 (none ▸ counted)
  case settled =>
    intro early
    -- A run that stops before its limit does so because no finding with a fix is left.
    have settled : engine.pass? path (engine.fix path source).output = none := pass?_fixWithin early
    constructor
    · intro d member
      have found : d ∈ engine.lint path (engine.fix path source).output := remaining ▸ member
      exact pass?_eq_none_iff.1 settled d found
    · have again : engine.fix path (engine.fix path source).output = _ := fixWithin_of_none settled
      rw [again, remaining]
  case composes =>
    intro first second positive positive'
    rw [fix_withLimit engine path (by omega), fix_withLimit engine path positive,
      fixWithin_add]
    simp only [fix_withLimit engine path positive']

end Engine
end TagLint
