import TagLint.Engine.FixLoop
import TagLint.Proofs.Mending
import TagLint.Proofs.PlaceOrder
import TagLint.Proofs.Splicing

/-!
One pass of fixes leaves nothing for `element-newline` to report.

Each report carries one insertion of a line feed. The insertions are at different places between
pieces, so all of them are applied, and what is read of the output is the outline of the source
with the line feeds woven into it.
-/
namespace TagLint

open Written (Piece)

/-- Line feeds before pieces rewrite the pieces to what they are with them. -/
theorem rewrites_feedAll (places : Nat → Bool) (offset : Nat) (pieces : List Piece) :
    Edit.Rewrites offset (Piece.renderAll pieces)
      (((Piece.starts offset pieces).filter places).map feedEdit)
      (Piece.feedAll places offset pieces) := by
  induction pieces generalizing offset with
  | nil => exact .keep offset []
  | cons piece others ih =>
    have rest := (ih (offset + piece.width)).keep_left piece.render
    have shown : Piece.renderAll (piece :: others) = piece.render ++ Piece.renderAll others := rfl
    have starts : Piece.starts offset (piece :: others) =
        offset :: Piece.starts (offset + piece.width) others := rfl
    rw [shown, starts, Piece.feedAll]
    cases put : places offset with
    | true =>
      have feed := Edit.Rewrites.replace offset [] ['\n']
      rw [List.filter_cons_of_pos put, List.map_cons, List.append_assoc]
      exact feed.append rest
    | false =>
      rw [List.filter_cons_of_neg (by rw [put]; exact Bool.false_ne_true), List.append_assoc]
      exact rest

theorem exists_cut_of_mem_starts {pieces : List Piece} {place : Nat} (before : Text)
    (member : place ∈ Piece.starts before.byteLength pieces) :
    ∃ first second, before ++ Piece.renderAll pieces = first ++ second ∧
      first.byteLength = place := by
  induction pieces generalizing before with
  | nil => simp [Piece.starts, Piece.spansFrom] at member
  | cons piece others ih =>
    rcases List.mem_cons.1 member with rfl | later
    · exact ⟨before, Piece.renderAll (piece :: others), rfl, rfl⟩
    · have further := ih (before ++ piece.render)
      rw [Text.byteLength_append, List.append_assoc] at further
      exact further later

def feedFix (place : Nat) : Fix :=
  ⟨[feedEdit place]⟩

theorem merged?_feedFix {source first second : Text} {place : Nat}
    (split : source = first ++ second) (here : first.byteLength = place) :
    (feedFix place).merged? source = some (feedEdit place) := by
  subst here
  have feed := Edit.Rewrites.replace first.byteLength [] ['\n']
  have merged := feed.merged?_eq (by simp [Fix.span]) second
  rw [List.append_nil, ← split] at merged
  exact merged

theorem apart_feedEdit {places : List Nat} (ascending : places.Pairwise fun a b => a < b) :
    Edit.Apart (places.map feedEdit) := by
  constructor
  · intro e member
    obtain ⟨place, _, rfl⟩ := List.mem_map.1 member
    exact Nat.le_refl place
  · exact List.pairwise_map.2 ascending

/-- Line feeds at different starts of pieces are all put in. -/
theorem applyFixes?_feedFix {pieces : List Piece} (full : ∀ piece ∈ pieces, piece.render ≠ [])
    {list : List Nat} (distinct : list.Nodup)
    (cuts : ∀ place ∈ list, place ∈ Piece.starts 0 pieces) :
    ∃ selection : Selection, applyFixes? (Piece.renderAll pieces) (list.map feedFix) =
        some ⟨Piece.feedAll list.contains 0 pieces, selection⟩ ∧
      selection.taken.length = list.length ∧ selection.deferred = [] := by
  have chosen : (((Piece.starts 0 pieces).filter list.contains)).Pairwise fun a b => a < b :=
    (Piece.starts_pairwise 0 full).filter _
  -- The fixes come in the order of the reports; sorted, they are in the order of the pieces.
  have same : list.Perm ((Piece.starts 0 pieces).filter list.contains) := by
    apply (List.perm_ext_iff_of_nodup distinct (chosen.imp Nat.ne_of_lt)).2
    intro place
    rw [List.mem_filter, List.contains_iff_mem]
    constructor
    · intro member
      exact ⟨cuts place member, member⟩
    · exact And.right
  have merged : ∀ place ∈ list,
      (feedFix place).merged? (Piece.renderAll pieces) = some (feedEdit place) := by
    intro place member
    obtain ⟨first, second, split, here⟩ := exists_cut_of_mem_starts [] (cuts place member)
    exact merged?_feedFix split here
  have applied := applyFixes?_eq (mapM_merged? merged) (same.map feedEdit) (apart_feedEdit chosen)
    (rewrites_feedAll list.contains 0 pieces)
  refine ⟨_, applied, ?_, rfl⟩
  rw [List.length_map, same.length_eq]

/-- The fixes of findings are the line feeds that their reports put in. -/
theorem fixes_diagnostics {rule : ElementNewline} {doc : Document} {list : List Nat}
    (edits : (rule.reports doc).map Report.edits = list.map fun place => [feedEdit place])
    (severity : Severity) (path : String) :
    Diagnostic.fixes ((ActiveRule.mk (.elementNewline rule) severity).diagnostics path doc) =
      list.map feedFix := by
  let fixOf (edits : List Edit) : Option Fix :=
    (Fix.ofEdits? edits).filter fun fix => !fix.hasOverlap
  have fixed (place : Nat) : fixOf [feedEdit place] = some (feedFix place) := by
    simp [fixOf, Fix.ofEdits?, feedFix, Fix.hasOverlap, Fix.overlapsIn]
  calc Diagnostic.fixes ((ActiveRule.mk (.elementNewline rule) severity).diagnostics path doc)
      = ((rule.reports doc).map Report.edits).filterMap fixOf := by
        rw [Diagnostic.fixes, ActiveRule.diagnostics, List.filterMap_map, List.filterMap_map]
        rfl
    _ = list.map feedFix := by
        rw [edits, List.filterMap_map]
        simp only [Function.comp_def, fixed]
        rw [List.filterMap_eq_map']

/-- With line feeds at cuts of an outline, its source is read as the outline with the line feeds
woven into it. -/
theorem Outline.exists_weaves_of_cut {pairs : List Delimiters} (clear : OpenersClear pairs)
    {outline : Outline} (nested : outline.Nested []) (reads : Piece.Reads pairs outline.pieces)
    {places : Nat → Bool} (cuts : ∀ place, places place = true → outline.Cut place 0) :
    ∃ woven : Outline, outline.Weaves places 0 false woven ∧ woven.Nested [] ∧
      Piece.Reads pairs woven.pieces ∧
      Piece.renderAll woven.pieces = Piece.feedAll places 0 outline.pieces := by
  have full := full_of_reads reads
  have spares : outline.Spares places 0 := by
    apply spares_of_cut full
    intro place put _ _
    exact cuts place put
  have last : places outline.width = false := by
    rw [Bool.eq_false_iff]
    intro put
    have before := ((cuts _ put).bounds full).2
    omega
  obtain ⟨woven, weaves, readsWoven, output⟩ := exists_weaves clear nested reads spares last
  exact ⟨woven, weaves, weaves.nested nested, readsWoven, output⟩

/-- With line feeds at some of the places of an outline that need them, its source is read as an
outline in which so many places fewer need one. -/
theorem Outline.exists_fed {pairs : List Delimiters} (clear : OpenersClear pairs)
    (rule : ElementNewline) {outline : Outline} (nested : outline.Nested [])
    (reads : Piece.Reads pairs outline.pieces) {places : Nat → Bool}
    (among : ∀ place, places place = true → place ∈ outline.breakPlaces rule) :
    ∃ woven : Outline, woven.Nested [] ∧ Piece.Reads pairs woven.pieces ∧
      Piece.renderAll woven.pieces = Piece.feedAll places 0 outline.pieces ∧
      (woven.breakPlaces rule).length + (outline.breakPlaces rule).countP places ≤
        (outline.breakPlaces rule).length := by
  obtain ⟨woven, weaves, nestedWoven, readsWoven, output⟩ :=
    exists_weaves_of_cut clear nested reads fun place put => cut_of_mem rule (among place put)
  exact ⟨woven, nestedWoven, readsWoven, output, weaves.length_breakPlaces⟩

/-- With line feeds at the places of an outline that need them, its source is read as an outline
that needs none. -/
theorem Outline.exists_mended {pairs : List Delimiters} (clear : OpenersClear pairs)
    (rule : ElementNewline) {outline : Outline} (nested : outline.Nested [])
    (reads : Piece.Reads pairs outline.pieces) :
    ∃ woven : Outline, woven.Nested [] ∧ Piece.Reads pairs woven.pieces ∧
      Piece.renderAll woven.pieces =
        Piece.feedAll (outline.breakPlaces rule).contains 0 outline.pieces ∧
      woven.breakPlaces rule = [] := by
  obtain ⟨woven, nestedWoven, readsWoven, output, fewer⟩ :=
    exists_fed clear rule nested reads fun place put => List.contains_iff_mem.1 put
  have all : (outline.breakPlaces rule).countP (outline.breakPlaces rule).contains =
      (outline.breakPlaces rule).length :=
    List.countP_eq_length.2 fun place member => List.contains_iff_mem.2 member
  rw [all] at fewer
  exact ⟨woven, nestedWoven, readsWoven, output, List.length_eq_zero_iff.1 (by omega)⟩

namespace Document

/-- One pass mends all that `element-newline` finds: its fixes are insertions at different places,
all of them are applied, and it finds nothing in the output. -/
theorem fixes_converge {pairs : List Delimiters} (apart : OpenersApart pairs)
    (rule : ElementNewline) (severity : Severity) (path : String) (source : Text) :
    let active : ActiveRule := ⟨.elementNewline rule, severity⟩
    let found := active.diagnostics path (parse pairs source)
    (((Diagnostic.fixes found).flatMap Fix.edits).map Edit.start).Nodup ∧
      ∃ applied, applyFixes? source (Diagnostic.fixes found) = some applied ∧
        applied.deferredCount = 0 ∧ applied.count = found.length ∧
        active.diagnostics path (parse pairs applied.output) = [] := by
  intro active found
  obtain ⟨outline, covers, nested, parsed⟩ := exists_outline pairs source
  have readAll := Piece.reads_scanAll pairs source
  rw [← covers] at readAll
  have full := Outline.full_of_reads readAll
  have shown : Piece.renderAll outline.pieces = source := by
    rw [covers, Piece.renderAll_scanAll]
  let list := outline.breakPlaces rule
  have edits := edits_reports rule source shown nested full
  rw [← parsed] at edits
  have fixes : Diagnostic.fixes found = list.map feedFix := fixes_diagnostics edits severity path
  have count : found.length = list.length := by
    have counted := congrArg List.length edits
    rw [List.length_map, List.length_map] at counted
    exact (List.length_map _).trans counted
  have distinct : list.Nodup := (outline.orderly rule nested full 0 false).distinct
  have starts : ∀ place ∈ list, place ∈ Piece.starts 0 outline.pieces := by
    intro place member
    exact (Outline.cut_of_mem rule member).mem_starts
  obtain ⟨selection, applied, taken, deferred⟩ := applyFixes?_feedFix full distinct starts
  -- What is read of the output is the outline with the line feeds woven into it.
  obtain ⟨woven, nestedAgain, readAgain, output, mended⟩ :=
    Outline.exists_mended apart.clear rule nested readAll
  have parsedAgain := parse_eq_ofOutline pairs _ (Piece.scanAll_renderAll readAgain).symm
    nestedAgain
  have editsAgain := edits_reports rule _ rfl nestedAgain (Outline.full_of_reads readAgain)
  refine ⟨?_, ⟨Piece.feedAll list.contains 0 outline.pieces, selection⟩, ?_, ?_, ?_, ?_⟩
  · have places : ((list.map feedFix).flatMap Fix.edits).map Edit.start = list := by
      simp [List.flatMap_map, List.map_flatMap, feedFix, feedEdit]
    rw [fixes, places]
    exact distinct
  · rw [fixes, ← shown]
    exact applied
  · rw [Applied.deferredCount, deferred]
    rfl
  · rw [count]
    exact taken
  · rw [mended] at editsAgain
    have nothing : rule.reports (parse pairs (Piece.renderAll woven.pieces)) = [] := by
      rw [parsedAgain]
      exact List.map_eq_nil_iff.1 editsAgain
    simp only [list, ← output]
    exact List.map_eq_nil_iff.2 nothing

theorem fixes_converge_sample :
    OpenersApart [⟨"\x7b\x7b".toList, "\x7d\x7d".toList⟩] ∧
      (let active : ActiveRule := ⟨.elementNewline ⟨["b".toList], []⟩, .warning⟩
      let source := "<ul><li>a<b></b></li></p></ul>".toList
      let found := active.diagnostics "list.html"
        (parse [⟨"\x7b\x7b".toList, "\x7d\x7d".toList⟩] source)
      (((Diagnostic.fixes found).flatMap Fix.edits).map Edit.start).Nodup ∧
        ∃ applied, applyFixes? source (Diagnostic.fixes found) = some applied ∧
          applied.deferredCount = 0 ∧ applied.count = found.length ∧
          active.diagnostics "list.html"
            (parse [⟨"\x7b\x7b".toList, "\x7d\x7d".toList⟩] applied.output) = []) := by
  have apart : OpenersApart [⟨"\x7b\x7b".toList, "\x7d\x7d".toList⟩] := by
    unfold OpenersApart
    decide
  exact ⟨apart, fixes_converge apart _ _ _ _⟩

end Document

end TagLint
