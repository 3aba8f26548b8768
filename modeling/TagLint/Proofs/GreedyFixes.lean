import Mathlib.Data.List.Perm.Basic
import TagLint.Engine.FixLoop
import TagLint.Proofs.OrderedEdits

/-!
Fixes are applied greedily.

Each fix is merged into one edit, and an edit is put off just where it starts before, or right at,
the end of the last one taken before it (`Selection.choose_eq_trialed`). What is taken is apart, so
the output is the source with just these ranges replaced; and where no two edits start at one place,
nothing depends on the order of the findings.
-/
namespace TagLint

/-- An edit that was tried, and whether it was taken. -/
structure Trial where
  edit : Edit
  isTaken : Bool
  deriving DecidableEq, Repr

namespace Trial

/-- The edits that were taken, or those that were not, in their order. -/
def edits (isTaken : Bool) (trials : List Trial) : List Edit :=
  (trials.filter fun trial => trial.isTaken == isTaken).map edit

@[simp] theorem edits_nil (isTaken : Bool) : edits isTaken [] = [] := rfl

theorem edits_cons (isTaken : Bool) (trial : Trial) (trials : List Trial) :
    edits isTaken (trial :: trials) =
      if trial.isTaken = isTaken then trial.edit :: edits isTaken trials
      else edits isTaken trials := by
  by_cases same : trial.isTaken = isTaken <;> simp [edits, same]

/-- All that is tried is taken or put off. -/
theorem length_edits (trials : List Trial) :
    (edits true trials).length + (edits false trials).length = trials.length := by
  induction trials with
  | nil => rfl
  | cons trial trials ih =>
    cases taken : trial.isTaken <;> simp [edits_cons, taken] <;> omega

/-- Whether an edit is put off just where it starts no later than the last one taken before it
ends. -/
def Greedy (trials : List Trial) : Prop :=
  ∀ before trial after, trials = before ++ trial :: after →
    (trial.isTaken = false ↔ ∃ last ∈ (edits true before).getLast?, trial.edit.start ≤ last.stop)

end Trial

namespace Selection

/-- The trials of the edits, where `last` is the end of the last edit taken. -/
def trials (last : Option Nat) : List Edit → List Trial
  | [] => []
  | e :: others =>
    if last.any (e.start ≤ ·) then ⟨e, false⟩ :: trials last others
    else ⟨e, true⟩ :: trials (some e.stop) others

/-- What is chosen are the edits that are taken in the trials, and what is left are the others. -/
theorem choose_eq_trialed (last : Option Nat) (edits : List Edit) :
    choose last edits =
      ⟨Trial.edits true (trials last edits), Trial.edits false (trials last edits)⟩ := by
  induction edits generalizing last with
  | nil => rfl
  | cons e others ih =>
    rw [choose, trials]
    split <;> simp [ih, Trial.edits_cons]

theorem map_edit_trials (last : Option Nat) (edits : List Edit) :
    (trials last edits).map Trial.edit = edits := by
  induction edits generalizing last with
  | nil => rfl
  | cons e others ih =>
    rw [trials]
    split <;> simp [ih]

/-- The end of the last edit taken in the trials, or `last` where there is none. -/
private def lastStop (last : Option Nat) (before : List Trial) : Option Nat :=
  ((Trial.edits true before).getLast?.map Edit.stop).or last

private theorem lastStop_cons (last : Option Nat) (trial : Trial) (before : List Trial) :
    lastStop last (trial :: before) =
      lastStop (if trial.isTaken then some trial.edit.stop else last) before := by
  cases taken : trial.isTaken with
  | false => simp [lastStop, Trial.edits_cons, taken]
  | true =>
    cases shown : (Trial.edits true before).getLast? <;>
      simp [lastStop, Trial.edits_cons, taken, List.getLast?_cons, shown]

/-- An edit is put off just where it starts no later than the last one taken ends. -/
private theorem isTaken_of_split {last : Option Nat} {edits : List Edit} {before after : List Trial}
    {trial : Trial} (split : trials last edits = before ++ trial :: after) :
    trial.isTaken = false ↔ ∃ stop ∈ lastStop last before, trial.edit.start ≤ stop := by
  -- `last` is the end of the last edit taken before the first one tried here.
  induction edits generalizing last before with
  | nil => simp [trials] at split
  | cons e others ih =>
    have here : (last.any (e.start ≤ ·)) = true ↔ ∃ stop ∈ last, e.start ≤ stop := by
      cases last <;> simp
    rw [trials] at split
    cases before with
    | nil =>
      have first : trial.isTaken = !(last.any (e.start ≤ ·)) ∧ trial.edit = e := by
        split at split
        next off =>
          obtain ⟨rfl, _⟩ := List.cons.inj split
          exact ⟨by rw [off]; rfl, rfl⟩
        next on =>
          obtain ⟨rfl, _⟩ := List.cons.inj split
          exact ⟨by rw [Bool.eq_false_iff.2 on]; rfl, rfl⟩
      rw [first.1, first.2, Bool.not_eq_false', here]
      rfl
    | cons other before =>
      rw [lastStop_cons]
      split at split
      · obtain ⟨rfl, rest⟩ := List.cons.inj split
        exact ih rest
      · obtain ⟨rfl, rest⟩ := List.cons.inj split
        exact ih rest

theorem greedy_trials (edits : List Edit) : Trial.Greedy (trials none edits) := by
  intro before trial after split
  rw [isTaken_of_split split]
  cases shown : (Trial.edits true before).getLast? <;> simp [lastStop, shown]

end Selection

/-- What is put off touches an edit that is taken, which starts no later. -/
theorem Trial.Greedy.touches {trials : List Trial} (greedy : Greedy trials)
    (sorted : trials.Pairwise fun a b => a.edit.start ≤ b.edit.start) :
    ∀ e ∈ edits false trials, ∃ own ∈ edits true trials,
      own.start ≤ e.start ∧ e.start ≤ own.stop := by
  intro e member
  obtain ⟨trial, among, rfl⟩ := List.mem_map.1 member
  obtain ⟨listed, off⟩ := List.mem_filter.1 among
  obtain ⟨before, after, rfl⟩ := List.append_of_mem listed
  obtain ⟨last, final, touches⟩ := (greedy before trial after rfl).1 (by simpa using off)
  have taken : last ∈ edits true before := List.mem_of_getLast? final
  obtain ⟨own, earlier, rfl⟩ := List.mem_map.1 taken
  have order : own.edit.start ≤ trial.edit.start :=
    (List.pairwise_append.1 sorted).2.2 own (List.mem_filter.1 earlier).1 trial List.mem_cons_self
  refine ⟨own.edit, ?_, order, touches⟩
  rw [edits, List.filter_append, List.map_append]
  exact List.mem_append_left _ taken

/-- Whether the edits of the fix are in source order, fit the source and do not overlap. The order
is the one that every fix is made with (`Fix.isProper_of_made`). -/
structure Fix.IsProper (source : Text) (fix : Fix) : Prop where
  sorted : fix.edits.Pairwise fun a b => a.before b = true
  edits : ∀ e ∈ fix.edits, e.Fits source
  apart : ¬Edit.AnyOverlap fix.edits

/-- A fix made of edits that fit the source and do not overlap is proper. -/
theorem Fix.isProper_of_made {source : Text} {edits : List Edit} {fix : Fix}
    (made : Fix.ofEdits? edits = some fix) (fits : ∀ e ∈ edits, e.Fits source)
    (apart : ¬Edit.AnyOverlap edits) : fix.IsProper source := by
  obtain ⟨_, same, sorted⟩ := ofEdits?_spec made
  refine ⟨sorted, fun e member => fits e (same.subset member), ?_⟩
  rw [Edit.not_anyOverlap_iff] at apart ⊢
  refine apart.perm same.symm fun {a b} clear => ?_
  rwa [Span.overlaps_comm]

/-- A proper fix is merged into an edit that fits; without edits it does nothing at the start. -/
theorem Fix.IsProper.exists_merged {source : Text} {fix : Fix} (proper : fix.IsProper source) :
    ∃ e : Edit, fix.merged? source = some e ∧ e.Fits source := by
  obtain ⟨edits⟩ := fix
  by_cases empty : edits = []
  · subst empty
    have nothing := Text.slice?_append [] [] source
    rw [List.nil_append, List.nil_append] at nothing
    refine ⟨⟨0, 0, []⟩, ?_, Nat.le_refl 0, ⟨[], source, rfl, rfl⟩, [], source, rfl, rfl⟩
    have range : (Fix.mk []).span = ⟨0, 0⟩ := rfl
    rw [merged?, range, if_pos (Nat.le_refl 0), Edit.spliced?]
    exact congrArg (Option.map _) nothing
  · have later : edits.Pairwise fun a b => a.stop ≤ b.start := by
      refine (proper.sorted.and (Edit.not_anyOverlap_iff.1 proper.apart)).imp_of_mem ?_
      intro a b _ member both
      exact (Edit.overlaps_eq_false_iff (proper.edits b member).ordered both.1).1 both.2
    have whole : Fix.Fits source ⟨edits⟩ := ⟨empty, proper.edits, later⟩
    obtain ⟨e, merged, _, fits⟩ := whole.exists_merged
    exact ⟨e, merged, fits⟩

theorem Fix.exists_merged_of_proper {source : Text} {fixes : List Fix}
    (proper : ∀ fix ∈ fixes, fix.IsProper source) :
    ∃ edits : List Edit,
      List.Forall₂ (fun (fix : Fix) e => fix.merged? source = some e) fixes edits ∧
        ∀ e ∈ edits, e.Fits source := by
  induction fixes with
  | nil => exact ⟨[], .nil, by simp⟩
  | cons fix others ih =>
    obtain ⟨e, merged, fits⟩ := (proper fix List.mem_cons_self).exists_merged
    obtain ⟨edits, rest, fit⟩ := ih fun other member =>
      proper other (List.mem_cons_of_mem fix member)
    refine ⟨e :: edits, .cons merged rest, fun own member => ?_⟩
    rcases List.mem_cons.1 member with rfl | later
    · exact fits
    · exact fit own later

theorem Diagnostic.length_fixes (found : List Diagnostic) :
    (fixes found).length = found.countP isFixable := by
  induction found with
  | nil => rfl
  | cons d others ih =>
    cases fix : d.fix <;> simp_all [fixes, isFixable]

/-- Whether applying the fixes of the findings to the source is a greedy merge: `edits` are what the
fixes are merged into, and `trials` are these edits as they were tried. -/
structure Applied.MergesGreedily (source : Text) (found : List Diagnostic) (edits : List Edit)
    (trials : List Trial) (applied : Applied) : Prop where
  merged : List.Forall₂ (fun (fix : Fix) e => fix.merged? source = some e)
    (Diagnostic.fixes found) edits
  /-- The edits are tried in the order of their starts; those with the same start keep their
  order. -/
  tried : (trials.map Trial.edit).Perm edits
  sorted : trials.Pairwise fun a b => a.edit.start ≤ b.edit.start
  ties : ∀ place, (trials.map Trial.edit).filter (fun e => e.start == place) =
    edits.filter fun e => e.start == place
  /-- What is taken and what is put off is told by the trials, which are greedy. -/
  taken : applied.selection.taken = Trial.edits true trials
  deferred : applied.selection.deferred = Trial.edits false trials
  greedy : Trial.Greedy trials
  apart : applied.selection.taken.Pairwise fun a b => a.stop < b.start
  touches : ∀ e ∈ applied.selection.deferred, ∃ own ∈ applied.selection.taken,
    own.start ≤ e.start ∧ e.start ≤ own.stop
  counts : applied.count + applied.deferredCount = found.countP Diagnostic.isFixable
  changed : 0 < applied.count ↔ 0 < found.countP Diagnostic.isFixable
  /-- The output is the source with the ranges of the edits taken replaced, and no others. -/
  rewrites : Edit.Rewrites 0 source applied.selection.taken applied.output
  /-- Where no two edits start at one place, the order of the findings does not matter. -/
  reordered : (edits.map Edit.start).Nodup → ∀ others : List Diagnostic, others.Perm found →
    applyFixes? source (Diagnostic.fixes others) = some applied

private theorem start_trans (a b c : Edit) (first : decide (a.start ≤ b.start) = true)
    (second : decide (b.start ≤ c.start) = true) : decide (a.start ≤ c.start) = true := by
  simp only [decide_eq_true_eq] at first second ⊢
  omega

private theorem start_total (a b : Edit) :
    (decide (a.start ≤ b.start) || decide (b.start ≤ a.start)) = true := by
  simpa using Nat.le_total a.start b.start

/-- Proper fixes are merged greedily. -/
theorem exists_greedyMerge {source : Text} {found : List Diagnostic}
    (proper : ∀ d ∈ found, ∀ fix ∈ d.fix, fix.IsProper source) :
    ∃ applied edits trials, applyFixes? source (Diagnostic.fixes found) = some applied ∧
      applied.MergesGreedily source found edits trials := by
  have listed : ∀ fix ∈ Diagnostic.fixes found, fix.IsProper source := by
    intro fix member
    obtain ⟨d, among, fixed⟩ := List.mem_filterMap.1 member
    exact proper d among fix fixed
  obtain ⟨edits, merged, fits⟩ := Fix.exists_merged_of_proper listed
  let sorted := edits.mergeSort fun a b => decide (a.start ≤ b.start)
  let trials := Selection.trials none sorted
  have chosen : Selection.choose none sorted =
      ⟨Trial.edits true trials, Trial.edits false trials⟩ :=
    Selection.choose_eq_trialed none sorted
  have tried : trials.map Trial.edit = sorted := Selection.map_edit_trials none sorted
  have ascending : sorted.Pairwise fun a b => a.start ≤ b.start :=
    (List.pairwise_mergeSort start_trans start_total edits).imp of_decide_eq_true
  have inOrder : trials.Pairwise fun a b => a.edit.start ≤ b.edit.start := by
    rwa [← tried, List.pairwise_map] at ascending
  have length : trials.length = found.countP Diagnostic.isFixable := by
    rw [← Diagnostic.length_fixes, merged.length_eq, ← List.length_map Trial.edit, tried]
    exact (List.mergeSort_perm _ _).length_eq
  have greedy : Trial.Greedy trials := Selection.greedy_trials sorted
  obtain ⟨output, applies, rewrites, apart⟩ := applyFixes?_of_merged merged fits
  have counts := Trial.length_edits trials
  rw [chosen] at applies rewrites apart
  refine ⟨_, edits, trials, applies, {
    merged := merged
    tried := tried ▸ List.mergeSort_perm _ _
    sorted := inOrder
    ties := ?ties
    taken := rfl
    deferred := rfl
    greedy := greedy
    apart := apart.2
    touches := greedy.touches inOrder
    counts := counts.trans length
    changed := ?changed
    rewrites := rewrites
    reordered := ?reordered }⟩
  case ties =>
    intro place
    rw [tried]
    refine filter_mergeSort_of_alike start_trans start_total (fun a b first second => ?_) edits
    simp only [beq_iff_eq] at first second
    simp [first, second]
  case changed =>
    -- Where there is anything to try, the first edit is taken.
    have none : Trial.edits true trials = [] ↔ sorted = [] := by
      have first : (Selection.choose none sorted).taken = [] ↔ sorted = [] :=
        Selection.taken_choose_eq_nil_iff
      rw [chosen] at first
      exact first
    rw [← length, ← List.length_map Trial.edit, tried, Applied.count, List.length_pos_iff,
      List.length_pos_iff]
    exact not_congr none
  case reordered =>
    intro distinct others same
    obtain ⟨edits', merged', same'⟩ :=
      List.perm_comp_forall₂ (same.filterMap Diagnostic.fix) merged
    -- Edits that all start at different places are sorted in only one way.
    have strictly : sorted.Pairwise fun a b => a.start < b.start := by
      have apart : (sorted.map Edit.start).Nodup :=
        ((List.mergeSort_perm _ _).map Edit.start).nodup_iff.2 distinct
      exact (ascending.and (List.pairwise_map.1 apart)).imp fun both =>
        Nat.lt_of_le_of_ne both.1 both.2
    have sorted' : (edits'.mergeSort fun a b => decide (a.start ≤ b.start)) = sorted :=
      mergeSort_eq_of_perm Edit.start (same'.trans (List.mergeSort_perm _ _).symm) strictly
    have found_ := mapM_eq_some_iff.2 merged
    have found' := mapM_eq_some_iff.2 merged'
    rw [← applies, applyFixes?, applyFixes?, Selection.ofFixes?, Selection.ofFixes?, found_]
    rw [Diagnostic.fixes, found', Option.map_some, Option.map_some, sorted']

/-- A replacement, an insertion right after it that has to wait, a finding without a fix, and a fix
given as two edits in the wrong order. -/
theorem exists_greedyMerge_sample :
    let finding (edits : List Edit) : Diagnostic :=
      ⟨"rule", "id", .warning, "", [], ⟨"page.html", 1, 1, 1, 1⟩, ⟨0, 0⟩, none, none,
        Fix.ofEdits? edits⟩
    let found := [finding [⟨0, 2, ['e']⟩], finding [⟨2, 2, [' ']⟩], finding [],
      finding [⟨5, 5, ['!']⟩, ⟨3, 4, []⟩]]
    (∀ d ∈ found, ∀ fix ∈ d.fix, fix.IsProper ['é', '<', 'b', '>']) ∧
      ∃ applied edits trials,
        applyFixes? ['é', '<', 'b', '>'] (Diagnostic.fixes found) = some applied ∧
          applied.MergesGreedily ['é', '<', 'b', '>'] found edits trials := by
  intro finding found
  have proper (edits : List Edit) (fits : ∀ e ∈ edits, e.Fits ['é', '<', 'b', '>'])
      (apart : edits.Pairwise fun a b : Edit => a.span.overlaps b.span = false) :
      ∀ fix ∈ (finding edits).fix, fix.IsProper ['é', '<', 'b', '>'] :=
    fun fix made => Fix.isProper_of_made made fits (Edit.not_anyOverlap_iff.2 apart)
  have all : ∀ d ∈ found, ∀ fix ∈ d.fix, fix.IsProper ['é', '<', 'b', '>'] := by
    have zero : Text.IsBoundary ['é', '<', 'b', '>'] 0 := ⟨[], _, rfl, rfl⟩
    have two : Text.IsBoundary ['é', '<', 'b', '>'] 2 := ⟨['é'], _, rfl, rfl⟩
    have three : Text.IsBoundary ['é', '<', 'b', '>'] 3 := ⟨['é', '<'], _, rfl, rfl⟩
    have four : Text.IsBoundary ['é', '<', 'b', '>'] 4 := ⟨['é', '<', 'b'], _, rfl, rfl⟩
    have five : Text.IsBoundary ['é', '<', 'b', '>'] 5 := ⟨['é', '<', 'b', '>'], [], rfl, rfl⟩
    simp only [found, List.forall_mem_cons]
    refine ⟨proper _ ?_ (by decide), proper _ ?_ (by decide), proper _ ?_ (by decide),
      proper _ ?_ (by decide), by simp⟩
    · exact List.forall_mem_singleton.2 ⟨by decide, zero, two⟩
    · exact List.forall_mem_singleton.2 ⟨by decide, two, two⟩
    · simp
    · exact List.forall_mem_cons.2 ⟨⟨by decide, five, five⟩,
        List.forall_mem_singleton.2 ⟨by decide, three, four⟩⟩
  exact ⟨all, exists_greedyMerge all⟩

end TagLint
