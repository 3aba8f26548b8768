import TagLint.Edit.Apply
import TagLint.Proofs.Tiling

/-!
What edits make of a text.

`Edit.Rewrites` says that edits in source order turn one text, which starts at an offset, into
another. It is put together from texts that are kept and texts that are replaced. Where it holds,
splicing the edits into any source around the text gives the other text; so one edit can be made of
them, and so fixes whose edits are apart are all applied.
-/
namespace TagLint

namespace Text

theorem slice?_append (before middle after : Text) :
    slice? (before ++ middle ++ after) before.byteLength (before ++ middle).byteLength =
      some middle := by
  rw [byteLength_append]
  exact select?_append before middle after

end Text

namespace Edit

/-- Whether the edits turn the first text, which starts at the offset, into the second one. -/
inductive Rewrites : Nat → Text → List Edit → Text → Prop where
  | keep (offset : Nat) (t : Text) : Rewrites offset t [] t
  | replace (offset : Nat) (old new : Text) :
      Rewrites offset old [⟨offset, offset + old.byteLength, new⟩] new
  | append {offset : Nat} {s s' t t' : Text} {edits edits' : List Edit}
      (first : Rewrites offset s edits t)
      (second : Rewrites (offset + s.byteLength) s' edits' t') :
      Rewrites offset (s ++ s') (edits ++ edits') (t ++ t')

/-- Where the texts of edits in source order stand in what the edits make of a source, when `done`
bytes of it have been dealt with and have come to be `place` bytes. -/
def landings (done place : Nat) : List Edit → List Span
  | [] => []
  | e :: others =>
    let start := place + (e.start - done)
    ⟨start, start + e.text.byteLength⟩ :: landings e.stop (start + e.text.byteLength) others

/-- What is kept before the edits moves where they land. -/
private theorem landings_kept (kept : Nat) {done : Nat} (place : Nat) {edits : List Edit}
    (later : ∀ e ∈ edits, done + kept ≤ e.start) :
    landings done place edits = landings (done + kept) (place + kept) edits := by
  cases edits with
  | nil => rfl
  | cons e others =>
    have first := later e List.mem_cons_self
    have same : place + (e.start - done) = place + kept + (e.start - (done + kept)) := by omega
    simp only [landings, same]

namespace Rewrites

variable {offset : Nat} {s t : Text} {edits : List Edit}

theorem le_start (rewrites : Rewrites offset s edits t) : ∀ e ∈ edits, offset ≤ e.start := by
  induction rewrites with
  | keep => simp
  | replace => simp
  | append _ _ ihFirst ihSecond =>
    intro e member
    rcases List.mem_append.1 member with before | after
    · exact ihFirst e before
    · exact Nat.le_trans (Nat.le_add_right _ _) (ihSecond e after)

/-- Edits of what comes later land behind what the text has become. -/
theorem landings_append (rewrites : Rewrites offset s edits t) (place : Nat) {others : List Edit}
    (later : ∀ e ∈ others, offset + s.byteLength ≤ e.start) :
    landings offset place (edits ++ others) = landings offset place edits ++
      landings (offset + s.byteLength) (place + t.byteLength) others := by
  -- What is kept has no edits, and is counted by the first edit that comes later.
  induction rewrites generalizing place others with
  | keep offset t => exact landings_kept t.byteLength place later
  | replace offset old new => simp [landings]
  | @append offset s s' t t' edits edits' first second ihFirst ihSecond =>
    rw [Text.byteLength_append, ← Nat.add_assoc] at later
    have beyond : ∀ e ∈ edits' ++ others, offset + s.byteLength ≤ e.start := by
      intro e member
      rcases List.mem_append.1 member with before | after
      · exact second.le_start e before
      · exact Nat.le_trans (Nat.le_add_right _ _) (later e after)
    rw [List.append_assoc, ihFirst place beyond, ihSecond _ later, ihFirst place second.le_start,
      List.append_assoc, Text.byteLength_append, Text.byteLength_append, Nat.add_assoc,
      Nat.add_assoc]

theorem keep_left (u : Text) (rewrites : Rewrites (offset + u.byteLength) s edits t) :
    Rewrites offset (u ++ s) edits (u ++ t) := by
  have joined := (Rewrites.keep offset u).append rewrites
  rwa [List.nil_append] at joined

/-- Splicing comes to the end of the text with what is left to keep; what it has put out by then
and what is left to keep make up the new text. -/
private theorem splices (rewrites : Rewrites offset s edits t) (before kept after : Text)
    (here : (before ++ kept).byteLength = offset) :
    ∃ before' kept' out, before' ++ kept' = before ++ kept ++ s ∧ out ++ kept' = kept ++ t ∧
      ∀ stop later, spliced? (before ++ kept ++ s ++ after) stop before.byteLength
          (edits ++ later) =
        (spliced? (before ++ kept ++ s ++ after) stop before'.byteLength later).map
          fun rest => out ++ rest := by
  -- What is kept since the last edit waits in `kept` until the next edit slices it out.
  induction rewrites generalizing before kept after with
  | keep offset t =>
    refine ⟨before, kept ++ t, [], by simp, rfl, fun stop later => ?_⟩
    simp
  | replace offset old new =>
    refine ⟨before ++ kept ++ old, [], kept ++ new, by simp, by simp, fun stop later => ?_⟩
    have slice := Text.slice?_append before kept (old ++ after)
    have ends : (before ++ kept ++ old).byteLength = offset + old.byteLength := by
      rw [Text.byteLength_append, here]
    rw [← List.append_assoc, here] at slice
    rw [List.singleton_append, spliced?, slice, Option.bind_some, ends]
  | @append offset s s' t t' edits edits' _ _ ihFirst ihSecond =>
    obtain ⟨before', kept', out, joined, shown, first⟩ :=
      ihFirst before kept (s' ++ after) here
    have further : (before' ++ kept').byteLength = offset + s.byteLength := by
      rw [joined, Text.byteLength_append, here]
    obtain ⟨before'', kept'', out', joined', shown', second⟩ :=
      ihSecond before' kept' after further
    refine ⟨before'', kept'', out ++ out', ?_, ?_, fun stop later => ?_⟩
    · rw [joined', joined, List.append_assoc _ s s']
    · rw [List.append_assoc, shown', ← List.append_assoc, shown, List.append_assoc]
    · have same : before ++ kept ++ (s ++ s') ++ after =
          before ++ kept ++ s ++ (s' ++ after) := by simp
      have next : before' ++ kept' ++ s' ++ after =
          before ++ kept ++ s ++ (s' ++ after) := by rw [joined]; simp
      have onward := second stop later
      rw [next] at onward
      rw [same, List.append_assoc edits, first, onward, Option.map_map]
      simp [Function.comp_def]

/-- The edits are spliced into the text where it stands in a source. -/
theorem spliced?_eq {before : Text} (rewrites : Rewrites before.byteLength s edits t)
    (after : Text) :
    spliced? (before ++ s ++ after) (before ++ s).byteLength before.byteLength edits = some t := by
  obtain ⟨before', kept, out, joined, shown, splices⟩ :=
    rewrites.splices before [] after (by rw [List.append_nil])
  have slice := Text.slice?_append before' kept after
  have all := splices (before ++ s).byteLength []
  rw [List.append_nil] at joined
  rw [List.append_nil, List.append_nil] at all
  rw [joined] at slice
  rw [all, spliced?, slice, Option.map_some, shown, List.nil_append]

/-- The edits of a fix that range over the text make one edit of it. -/
theorem merged?_eq {before : Text} (rewrites : Rewrites before.byteLength s edits t)
    (range : (Fix.mk edits).span = ⟨before.byteLength, (before ++ s).byteLength⟩) (after : Text) :
    (Fix.mk edits).merged? (before ++ s ++ after) =
      some ⟨before.byteLength, (before ++ s).byteLength, t⟩ := by
  have ordered : before.byteLength ≤ (before ++ s).byteLength := by
    rw [Text.byteLength_append]
    exact Nat.le_add_right _ _
  rw [Fix.merged?, range, if_pos ordered, rewrites.spliced?_eq after]
  rfl

end Rewrites

/-- Whether the edits are in source order, with something that is kept between them. -/
def Apart (edits : List Edit) : Prop :=
  (∀ e ∈ edits, e.start ≤ e.stop) ∧ edits.Pairwise fun a b => a.stop < b.start

theorem Apart.ascending {edits : List Edit} (apart : Apart edits) :
    edits.Pairwise fun a b => a.start < b.start := by
  refine apart.2.imp_of_mem ?_
  intro a b member _ before
  exact Nat.lt_of_le_of_lt (apart.1 a member) before

end Edit

/-- Edits that are apart do not stand in each other's way. -/
theorem Selection.choose_of_apart {edits : List Edit} (apart : Edit.Apart edits)
    {last : Option Nat} (later : ∀ stop ∈ last, ∀ e ∈ edits, stop < e.start) :
    choose last edits = ⟨edits, []⟩ := by
  induction edits generalizing last with
  | nil => rfl
  | cons e others ih =>
    obtain ⟨first, rest⟩ := List.pairwise_cons.1 apart.2
    have further : Edit.Apart others :=
      ⟨fun other member => apart.1 other (List.mem_cons_of_mem e member), rest⟩
    have free : last.any (fun stop => decide (e.start ≤ stop)) = false := by
      cases last with
      | none => rfl
      | some stop => exact decide_eq_false (Nat.not_le.2 (later stop rfl e List.mem_cons_self))
    have onward : ∀ stop ∈ some e.stop, ∀ other ∈ others, stop < other.start := by
      rintro _ ⟨⟩
      exact first
    rw [choose, if_neg (by rw [free]; exact Bool.false_ne_true), ih further onward]

/-- Each fix of a list is merged into its edit. -/
theorem mapM_merged? {α : Type} {source : Text} {fixOf : α → Fix} {editOf : α → Edit}
    {list : List α} (merged : ∀ x ∈ list, (fixOf x).merged? source = some (editOf x)) :
    ((list.map fixOf).mapM fun fix => fix.merged? source) = some (list.map editOf) := by
  induction list with
  | nil => rfl
  | cons x others ih =>
    rw [List.map_cons, List.mapM_cons, merged x List.mem_cons_self,
      ih fun other member => merged other (List.mem_cons_of_mem x member)]
    rfl

/-- Fixes whose edits are apart are all applied, in whatever order they come. -/
theorem applyFixes?_eq {source output : Text} {fixes : List Fix} {found edits : List Edit}
    (merged : (fixes.mapM fun fix => fix.merged? source) = some found) (same : found.Perm edits)
    (apart : Edit.Apart edits) (rewrites : Edit.Rewrites 0 source edits output) :
    applyFixes? source fixes = some ⟨output, ⟨edits, []⟩⟩ := by
  have sorted : found.mergeSort (fun a b => decide (a.start ≤ b.start)) = edits :=
    mergeSort_eq_of_perm Edit.start same apart.ascending
  have whole : Edit.Rewrites (Text.byteLength []) source edits output := rewrites
  have spliced := whole.spliced?_eq []
  simp only [List.nil_append, List.append_nil, Text.byteLength_nil] at spliced
  rw [applyFixes?, Selection.ofFixes?, merged, Option.map_some, sorted,
    Selection.choose_of_apart apart (by simp), Option.bind_some, spliced]
  rfl

/-- Whether each of the fixes makes one of the edits wherever the text stands at the offset, and
these are apart and turn the text into the other one, with its first character kept; so do the edits
that the fixes are made of. -/
structure Fix.Turn (fixes : List Fix) (offset : Nat) (s : Text) (edits : List Edit) (t : Text) :
    Prop where
  merged : ∀ before after : Text, before.byteLength = offset →
    (fixes.mapM fun fix => fix.merged? (before ++ s ++ after)) = some edits
  rewrites : Edit.Rewrites offset s edits t
  written : Edit.Rewrites offset s (fixes.flatMap Fix.edits) t
  apart : Edit.Apart edits
  within : ∀ e ∈ edits, offset < e.start ∧ e.stop ≤ offset + s.byteLength

namespace Fix.Turn

variable {fixes fixes' : List Fix} {offset : Nat} {s s' t t' : Text} {edits edits' : List Edit}

theorem keep (offset : Nat) (s : Text) : Turn [] offset s [] s :=
  ⟨fun _ _ _ => rfl, .keep offset s, .keep offset s, ⟨by simp, .nil⟩, by simp⟩

theorem append (first : Turn fixes offset s edits t)
    (second : Turn fixes' (offset + s.byteLength) s' edits' t') :
    Turn (fixes ++ fixes') offset (s ++ s') (edits ++ edits') (t ++ t') := by
  refine ⟨?_, first.rewrites.append second.rewrites, ?_, ⟨?_, ?_⟩, ?_⟩
  · intro before after here
    have further : (before ++ s).byteLength = offset + s.byteLength := by
      rw [Text.byteLength_append, here]
    have mergedFirst := first.merged before (s' ++ after) here
    have mergedSecond := second.merged (before ++ s) after further
    simp only [List.append_assoc] at mergedFirst mergedSecond ⊢
    rw [List.mapM_append, mergedFirst, mergedSecond]
    rfl
  · rw [List.flatMap_append]
    exact first.written.append second.written
  · intro e member
    rcases List.mem_append.1 member with before | after
    · exact first.apart.1 e before
    · exact second.apart.1 e after
  · refine List.pairwise_append.2 ⟨first.apart.2, second.apart.2, ?_⟩
    intro a before b after
    exact Nat.lt_of_le_of_lt (first.within a before).2 (second.within b after).1
  · intro e member
    rw [Text.byteLength_append]
    rcases List.mem_append.1 member with before | after
    · have := first.within e before
      omega
    · have := second.within e after
      omega

theorem append_at {place : Nat} (first : Turn fixes offset s edits t)
    (here : place = offset + s.byteLength) (second : Turn fixes' place s' edits' t') :
    Turn (fixes ++ fixes') offset (s ++ s') (edits ++ edits') (t ++ t') := by
  subst here
  exact first.append second

theorem keep_left (u : Text) (turn : Turn fixes (offset + u.byteLength) s edits t) :
    Turn fixes offset (u ++ s) edits (u ++ t) :=
  (keep offset u).append turn

/-- The edits of later fixes land behind what the text has become. -/
theorem landings_append (first : Turn fixes offset s edits t)
    (second : Turn fixes' (offset + s.byteLength) s' edits' t') (place : Nat) :
    Edit.landings offset place ((fixes ++ fixes').flatMap Fix.edits) =
      Edit.landings offset place (fixes.flatMap Fix.edits) ++
        Edit.landings (offset + s.byteLength) (place + t.byteLength)
          (fixes'.flatMap Fix.edits) := by
  rw [List.flatMap_append]
  exact first.written.landings_append place second.written.le_start

theorem keep_right (turn : Turn fixes offset s edits t) (u : Text) :
    Turn fixes offset (s ++ u) edits (t ++ u) := by
  have joined := turn.append (keep (offset + s.byteLength) u)
  rwa [List.append_nil, List.append_nil] at joined

/-- Fixes that turn a whole source into another one are all applied. -/
theorem applyFixes?_eq (turn : Turn fixes 0 s edits t) :
    applyFixes? s fixes = some ⟨t, ⟨edits, []⟩⟩ := by
  have merged := turn.merged [] [] rfl
  rw [List.nil_append, List.append_nil] at merged
  exact TagLint.applyFixes?_eq merged (.refl _) turn.apart turn.rewrites

end Fix.Turn

end TagLint
