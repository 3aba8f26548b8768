import TagLint.Proofs.DiagnosticPlaces
import TagLint.Proofs.StableSort

/-!
Rules do not interfere.

Findings are collected rule by rule, and what is dropped of them and where the others come to stand
is decided for each by itself. Sorting is stable, so to pick the findings of one rule out of all is
to run that rule alone (`filter_mergeSort`).
-/
namespace TagLint

namespace Diagnostic

/-- The order of findings: by start, then by end, then by rule. -/
def InOrder (a b : Diagnostic) : Prop :=
  a.span.start < b.span.start ∨ a.span.start = b.span.start ∧
    (a.span.stop < b.span.stop ∨ a.span.stop = b.span.stop ∧ a.ruleId ≤ b.ruleId)

theorem before_iff {a b : Diagnostic} : a.before b = true ↔ a.InOrder b := by
  unfold before InOrder
  by_cases start : a.span.start = b.span.start
  · by_cases stop : a.span.stop = b.span.stop
    · simp [start, stop]
    · simp [start, stop]
  · simp [start]

theorem before_trans (a b c : Diagnostic) (first : a.before b = true) (second : b.before c = true) :
    a.before c = true := by
  rw [before_iff] at first second ⊢
  unfold InOrder at first second ⊢
  rcases first with _ | ⟨_, _ | ⟨_, first⟩⟩ <;> rcases second with _ | ⟨_, _ | ⟨_, second⟩⟩
  case inr.inr.inr.inr => exact Or.inr ⟨by omega, Or.inr ⟨by omega, String.le_trans first second⟩⟩
  all_goals omega

theorem before_total (a b : Diagnostic) : (a.before b || b.before a) = true := by
  rw [Bool.or_eq_true, before_iff, before_iff]
  unfold InOrder
  rcases Nat.lt_trichotomy a.span.start b.span.start with start | start | start
  · exact Or.inl (Or.inl start)
  · rcases Nat.lt_trichotomy a.span.stop b.span.stop with stop | stop | stop
    · exact Or.inl (Or.inr ⟨start, Or.inl stop⟩)
    · rcases String.le_total a.ruleId b.ruleId with ids | ids
      · exact Or.inl (Or.inr ⟨start, Or.inr ⟨stop, ids⟩⟩)
      · exact Or.inr (Or.inr ⟨start.symm, Or.inr ⟨stop.symm, ids⟩⟩)
    · exact Or.inr (Or.inr ⟨start.symm, Or.inl stop⟩)
  · exact Or.inr (Or.inl start)

end Diagnostic

namespace Directive

/-- Whether a directive turns the rule off on the line: it names the rule or all rules, and it is
for the line or for the whole document. -/
def TurnsOff (directives : List Directive) (ruleId : String) (line : Nat) : Prop :=
  ∃ directive ∈ directives,
    (ruleId.toList ∈ directive.rules ∨ "all".toList ∈ directive.rules) ∧
      (directive.line = none ∨ directive.line = some line)

instance (directives : List Directive) (ruleId : String) (line : Nat) :
    Decidable (TurnsOff directives ruleId line) :=
  inferInstanceAs (Decidable (∃ directive ∈ directives,
    (ruleId.toList ∈ directive.rules ∨ "all".toList ∈ directive.rules) ∧
      (directive.line = none ∨ directive.line = some line)))

theorem isDisabled_iff {directives : List Directive} {ruleId : String} {line : Nat} :
    isDisabled directives ruleId line = true ↔ TurnsOff directives ruleId line := by
  have lines (own : Option Nat) : own.all (· == line) = true ↔ own = none ∨ own = some line := by
    cases own <;> simp
  simp only [isDisabled, covers, List.any_eq_true, Bool.and_eq_true, Bool.or_eq_true,
    List.contains_iff_mem, lines]
  rfl

end Directive

/-- The configuration with no rule on but the one with the given id. -/
def Config.only (config : Config) (id : String) : Config :=
  { config with
    rules :=
      { closingTags :=
          { config.rules.closingTags with
            enabled := config.rules.closingTags.enabled && ClosingTags.info.id == id }
        elementNewline :=
          { config.rules.elementNewline with
            enabled := config.rules.elementNewline.enabled && ElementNewline.info.id == id } } }

namespace Engine

variable {engine : Engine} {config : Config}

private theorem closingTagsRule_only {rules : List ActiveRule} (id : String)
    (made : closingTagsRule config = .ok rules) :
    closingTagsRule (config.only id) = .ok (rules.filter fun active => active.id == id) := by
  unfold closingTagsRule at made ⊢
  simp only [Config.only] at made ⊢
  by_cases on : config.rules.closingTags.enabled = true
  · rw [if_pos on] at made
    split at made
    next rule _ =>
      obtain rfl := Except.ok.inj made
      by_cases same : ClosingTags.info.id = id <;> simp [ActiveRule.id, Rule.info, on, same]
    · contradiction
  · rw [if_neg on] at made
    obtain rfl := Except.ok.inj made
    simp [on]

private theorem elementNewlineRule_only {rules : List ActiveRule} (id : String)
    (made : elementNewlineRule config = .ok rules) :
    elementNewlineRule (config.only id) = .ok (rules.filter fun active => active.id == id) := by
  unfold elementNewlineRule at made ⊢
  simp only [Config.only] at made ⊢
  by_cases on : config.rules.elementNewline.enabled = true
  · rw [if_pos on] at made
    split at made
    next rule _ =>
      obtain rfl := Except.ok.inj made
      by_cases same : ElementNewline.info.id = id <;> simp [ActiveRule.id, Rule.info, on, same]
    · contradiction
  · rw [if_neg on] at made
    obtain rfl := Except.ok.inj made
    simp [on]

/-- The engine with one rule alone has of all rules just that one. -/
theorem ofConfig_only (made : ofConfig config = .ok engine) (id : String) :
    ofConfig (config.only id) =
      .ok ⟨config.only id, engine.rules.filter fun active => active.id == id⟩ := by
  unfold ofConfig at made ⊢
  cases closing : closingTagsRule config with
  | error =>
    rw [closing] at made
    contradiction
  | ok first =>
    cases newline : elementNewlineRule config with
    | error =>
      rw [closing, newline] at made
      contradiction
    | ok second =>
      rw [closing, newline] at made
      obtain rfl := Except.ok.inj made
      rw [closingTagsRule_only id closing, elementNewlineRule_only id newline]
      simp only [List.filter_append]
      rfl

/-- What a rule finds has its id. -/
theorem ruleId_of_mem_diagnostics {active : ActiveRule} {path : String} {doc : Document}
    {d : Diagnostic} (member : d ∈ active.diagnostics path doc) : d.ruleId = active.id := by
  obtain ⟨report, _, rfl⟩ := List.mem_map.1 member
  rfl

theorem rawDiagnostics_filter (engine : Engine) (config : Config) (doc : Document) (path : String)
    (id : String) :
    (engine.rawDiagnostics doc path).filter (fun d => d.ruleId == id) =
      rawDiagnostics ⟨config, engine.rules.filter fun active => active.id == id⟩ doc path := by
  simp only [rawDiagnostics]
  induction engine.rules with
  | nil => rfl
  | cons active others ih =>
    rw [List.flatMap_cons, List.filter_append, ih]
    by_cases same : active.id = id
    · have all : (active.diagnostics path doc).filter (fun d => d.ruleId == id) =
          active.diagnostics path doc :=
        List.filter_eq_self.2 fun d member => by simp [ruleId_of_mem_diagnostics member, same]
      simp [all, same]
    · have none : (active.diagnostics path doc).filter (fun d => d.ruleId == id) = [] :=
        List.filter_eq_nil_iff.2 fun d member => by simp [ruleId_of_mem_diagnostics member, same]
      simp [none, same]

/-- To pick the findings of a rule is to have that rule alone. -/
theorem lintDocument_filter (engine : Engine) (config : Config) (doc : Document) (path : String)
    (id : String) :
    (engine.lintDocument doc path).filter (fun d => d.ruleId == id) =
      lintDocument ⟨config, engine.rules.filter fun active => active.id == id⟩ doc path := by
  rw [lintDocument, lintDocument, filter_mergeSort Diagnostic.before_trans Diagnostic.before_total,
    ← rawDiagnostics_filter engine config doc path id, Directive.filter, Directive.filter,
    List.filter_filter, List.filter_filter]
  simp only [Bool.and_comm]

/-- What the engine of a configuration finds in a source, rule by rule. -/
structure KeepsApart (engine : Engine) (config : Config) (path : String) (source : Text) :
    Prop where
  /-- What a rule finds among others is what it finds alone. -/
  alone : ∀ id, ∃ single, ofConfig (config.only id) = .ok single ∧
    (engine.lint path source).filter (fun d => d.ruleId == id) = single.lint path source
  sorted : (engine.lint path source).Pairwise Diagnostic.InOrder
  /-- Of what the rules report, that is dropped which a directive turns off where it starts. -/
  kept : (engine.lint path source).Perm
    ((engine.rules.flatMap fun active => active.diagnostics path (engine.parse source)).filter
      fun d => !decide (Directive.TurnsOff (engine.parse source).directives d.ruleId
        ((LineIndex.ofText source).position d.span.start).line))

/-- The rules of every configuration keep apart. -/
theorem keepsApart (made : ofConfig config = .ok engine) (path : String) (source : Text) :
    engine.KeepsApart config path source := by
  have same : engine.config = config := by
    unfold ofConfig at made
    cases closing : closingTagsRule config <;> cases newline : elementNewlineRule config <;>
      rw [closing, newline] at made
    case ok.ok => exact (Except.ok.inj made) ▸ rfl
    all_goals contradiction
  refine {
    alone := ?alone
    sorted := ?sorted
    kept := ?kept }
  case alone =>
    intro id
    refine ⟨_, ofConfig_only made id, ?_⟩
    rw [lint, lintDocument_filter engine (config.only id)]
    have templates : engine.config.templates = (config.only id).templates := by rw [same]; rfl
    rw [lint, parse, parse, templates]
  case sorted =>
    exact (List.pairwise_mergeSort Diagnostic.before_trans Diagnostic.before_total _).imp
      Diagnostic.before_iff.1
  case kept =>
    refine (List.mergeSort_perm _ _).trans (List.Perm.of_eq ?_)
    rw [Directive.filter]
    refine List.filter_congr fun d member => ?_
    obtain ⟨active, on, reported⟩ := List.mem_flatMap.1 member
    obtain ⟨report, among, rfl⟩ := List.mem_map.1 reported
    -- A finding says the line of its start.
    have line : (report.toDiagnostic active.rule.info active.severity path
        (engine.parse source)).location.line =
          ((LineIndex.ofText source).position report.span.start).line :=
      congrArg (fun extent => extent.start.line)
        (Document.isLocated_of_mem_reports active.rule among).extent
    rw [line, Bool.eq_iff_iff]
    simp only [Bool.not_eq_true', decide_eq_false_iff_not, ← Directive.isDisabled_iff,
      Bool.not_eq_true]
    rfl

theorem keepsApart_sample :
    ∃ engine, ofConfig .initial = .ok engine ∧
      engine.KeepsApart .initial "page.html"
        "<!-- markup-lint-disable-next-line element-newline -->\n<p><i/>a</p><b/>\n<p><b>".toList := by
  have made : ofConfig .initial = .ok ⟨.initial,
      [⟨.closingTags ⟨false, false, [.text ['-']]⟩, .error⟩,
        ⟨.elementNewline ⟨[], []⟩, .warning⟩]⟩ := by
    rfl
  exact ⟨_, made, keepsApart made _ _⟩

end Engine
end TagLint
