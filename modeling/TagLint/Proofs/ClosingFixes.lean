import TagLint.Proofs.ClosingEdits

/-!
One fix of `require-closing-tags` gives its tag the end that it should have.

The pieces before the tag are read again, since no opening delimiter reaches from them into the new
end; the tag is read with its new end, where its last attribute does not take that; and whatever
comes after it, the element stands at the same place with the same attributes.
-/
namespace TagLint

open Written (Piece OpenTag Ending)

/-- The keys and the values of the attributes. -/
def Tag.attributeTexts (tag : Tag) : List (Option Text × Option Text) :=
  tag.attributes.map fun entry => (entry.key.map Content.text, entry.value.map Content.text)

namespace Written.OpenTag

def attributeTexts (tag : OpenTag) : List (Option Text × Option Text) :=
  tag.attributes.map fun entry =>
    (entry.2.key.map Fragment.text, entry.2.assignment.map fun assigned => assigned.value.text)

theorem attributeTexts_bare (tag : OpenTag) : tag.bare.attributeTexts = tag.attributeTexts := by
  simp [attributeTexts, bare, Attribute.bare, Assignment.bare, Fragment.bare, Function.comp_def]

end Written.OpenTag

/-- Whether the piece, if it is an opening tag, ends as it should when its end is written anew. -/
def Written.Piece.admits (pairs : List Delimiters) (ending : Ending) : Piece → Bool
  | .opening tag => tag.admits pairs ending
  | _ => true

theorem LineIndex.attributeTexts_attributesAt (index : LineIndex) (offset : Nat)
    (attributes : List (Text × Written.Attribute)) :
    ((index.attributesAt offset attributes).1.map fun entry =>
      (entry.key.map Content.text, entry.value.map Content.text)) =
        attributes.map fun entry => (entry.2.key.map Fragment.text,
          entry.2.assignment.map fun assigned => assigned.value.text) := by
  induction attributes generalizing offset with
  | nil => rfl
  | cons entry others ih =>
    simp only [attributesAt, List.map_cons, ih, attributeAt, Option.map_map]
    rfl

theorem LineIndex.attributeTexts_tagAt (index : LineIndex) (offset : Nat) (tag : OpenTag)
    (close : Option Token) :
    (index.tagAt offset tag close).attributeTexts = tag.attributeTexts :=
  index.attributeTexts_attributesAt _ tag.attributes

namespace Outline

/-- Every opening tag among the pieces of an outline is that of an element. -/
theorem exists_element (index : LineIndex) (parent id offset : Nat) {outline : Outline}
    {place : Nat} {tag : OpenTag}
    (member : (place, .opening tag) ∈ Piece.locate offset outline.pieces) :
    ∃ tree ∈ (outline.forest index parent id offset).subtrees, ∃ close,
      tree.node.kind = .element (index.tagAt place tag close) := by
  induction outline generalizing parent id offset with
  | nil => simp [Piece.locate] at member
  | single piece next ih =>
    rcases List.mem_cons.1 member with here | later
    · obtain ⟨rfl, rfl⟩ := Prod.mk.inj here
      exact ⟨_, List.mem_cons_self, none, rfl⟩
    · cases kind : piece.kindAt? index offset with
      | none =>
        simp only [forest, kind]
        exact ih parent id (offset + piece.width) later
      | some kind' =>
        obtain ⟨tree, within, shown⟩ := ih parent (id + 1) (offset + piece.width) later
        simp only [forest, kind]
        exact ⟨tree, Forest.mem_subtrees_cons.2 (Or.inr (Or.inr within)), shown⟩
  | element written inside close next ihInside ihNext =>
    rw [forest]
    simp only [Forest.mem_subtrees_cons, OpenElement.finish, List.reverse_reverse,
      Forest.ofTrees_trees]
    rcases mem_locate_element.1 member with here | within | ⟨own, _, closing⟩ | later
    · obtain ⟨rfl, same⟩ := Prod.mk.inj here
      obtain rfl := Piece.opening.inj same
      exact ⟨_, Or.inl rfl, _, rfl⟩
    · obtain ⟨tree, deeper, shown⟩ := ihInside _ _ _ within
      exact ⟨tree, Or.inr (Or.inl deeper), shown⟩
    · simp [ClosingTag.piece] at closing
    · obtain ⟨tree, further, shown⟩ := ihNext _ _ _ later
      exact ⟨tree, Or.inr (Or.inr further), shown⟩

end Outline

namespace Diagnostic

/-- The end that the fix of the finding gives its tag. -/
def newEnding (d : Diagnostic) : Ending :=
  if d.messageId = "MISSING_SELF" then .selfClosing else .plain

theorem newEnding_eq {d : Diagnostic} {ending : Ending} (ends : ending ≠ .unfinished)
    (message : d.messageId = ending.messageId) : d.newEnding = ending := by
  cases ending with
  | unfinished => exact absurd rfl ends
  | plain | selfClosing => simp [newEnding, message, Ending.messageId]

/-- Whether the last attribute of the tag that the finding is about does not go on into the new
end. -/
def AdmitsEnd (pairs : List Delimiters) (source : Text) (d : Diagnostic) : Prop :=
  ∀ read ∈ Piece.locate 0 (Piece.scanAll pairs source),
    read.1 + read.2.width = d.span.stop → read.2.admits pairs d.newEnding = true

/-- Whether the tag that the finding is about is read with its new end: in what the fix makes of the
source no opening delimiter reaches into that end, and the last attribute of the tag does not go on
into it. -/
structure IsMendable (pairs : List Delimiters) (source : Text) (d : Diagnostic) : Prop where
  /-- The new end is what the first edit of a fix writes. An opening delimiter that begins before
  it, or with its first character, ends before it. -/
  openers : ∀ fix, d.fix = some fix → ∀ applied, applyFixes? source [fix] = some applied →
    ∀ span ∈ (Edit.landings 0 0 fix.edits).head?,
      OpenersEndBy pairs applied.output (· ≤ span.start) span.start
  admits : d.AdmitsEnd pairs source

end Diagnostic

namespace Written.Piece

variable {pairs : List Delimiters} {before after : List Piece} {tag : OpenTag} {ending : Ending}

/-- Where the end of a tag is written anew, the pieces before it and the tag are read again,
whatever comes after it. -/
theorem Reads.mend (reads : Reads pairs (before ++ .opening tag :: after))
    (ends : ending ≠ .unfinished) (admits : tag.admits pairs ending = true) {t : Text}
    (spare : OpenersApartFrom pairs (renderAll before ++ tag.head) ending.mended t) :
    ∃ before' tag', scanAll pairs (renderAll before ++ ((tag.mend ending).render ++ t)) =
        before' ++ .opening tag' :: scanAll pairs t ∧
      renderAll before' = renderAll before ∧ tag'.bare = (tag.mend ending).bare := by
  rw [← renderAll_scanAll pairs t] at spare
  obtain ⟨tag', readsAgain, bare⟩ :=
    reads.of_append.mend_tag (reads_scanAll pairs t) ends admits spare
  obtain ⟨before', readsAll, same, _⟩ := Reads.keep_all reads readsAgain
    (quiet_mended spare bare _) (by simp) (readsAgain.endsContent_mended spare bare)
  refine ⟨before', tag', ?_, renderAll_of_bare same, bare⟩
  have whole := scanAll_renderAll readsAll
  have shown : renderAll (.opening tag' :: scanAll pairs t) = (tag.mend ending).render ++ t := by
    rw [renderAll, List.flatMap_cons, ← renderAll, renderAll_scanAll, Piece.render,
      render_of_mended bare, OpenTag.render_mend]
  rwa [renderAll_append, renderAll_of_bare same, shown] at whole

end Written.Piece

namespace Document

/-- A fix that mends a tag is applied as one edit. -/
private theorem applyFixes?_mendsTag {report : Report} {before : Text} {tag : OpenTag}
    {ending : Ending} {kept closing : Text}
    (mends : report.MendsTag before.byteLength tag ending kept closing) (rest : Text) :
    applyFixes? (before ++ (tag.render ++ (kept ++ closing)) ++ rest)
        [⟨tag.mendEdits before.byteLength ending kept closing⟩] =
      some ⟨before ++ ((tag.mend ending).render ++ kept) ++ rest,
        ⟨[tag.mendEdit before.byteLength ending kept closing], []⟩⟩ := by
  have turn := mends.turn
  rw [← Nat.zero_add before.byteLength] at turn
  have whole := (turn.keep_left before).keep_right rest
  rw [Nat.zero_add] at whole
  exact whole.applyFixes?_eq

/-- The new end is written behind the head of the tag. -/
private theorem head?_landings (before : Text) (tag : OpenTag) (ending : Ending)
    (kept closing : Text) :
    (Edit.landings 0 0 (tag.mendEdits before.byteLength ending kept closing)).head? =
      some ⟨(before ++ tag.head).byteLength,
        (before ++ tag.head).byteLength + ending.mended.byteLength⟩ := by
  have beyond : ∀ e ∈ tag.mendEdits before.byteLength ending kept closing,
      0 + before.byteLength ≤ e.start := by
    rw [Nat.zero_add]
    exact (rewrites_render_mendEdits _ _ _ _ _).le_start
  have landed := (Edit.Rewrites.keep 0 before).landings_append 0 beyond
  rw [List.nil_append, Nat.zero_add, landings_mendEdits] at landed
  rw [landed, Text.byteLength_append]
  rfl

/-- In what is parsed of the source with a new end of a tag, the element of the tag stands at the
same place, with that end. -/
private theorem exists_mended {pairs : List Delimiters} {before after : List Piece} {tag : OpenTag}
    (reads : Piece.Reads pairs (before ++ .opening tag :: after)) {ending : Ending}
    (ends : ending ≠ .unfinished) (admits : tag.admits pairs ending = true) {t : Text}
    (spare : OpenersApartFrom pairs (Piece.renderAll before ++ tag.head) ending.mended t) :
    ∃ tree ∈ (parse pairs
        (Piece.renderAll before ++ ((tag.mend ending).render ++ t))).subtrees,
      ∃ tag', tree.node.kind = .element tag' ∧
        tag'.openStart.span.start = (Piece.renderAll before).byteLength ∧ tag'.name = tag.name ∧
        tag'.attributeTexts = tag.attributeTexts ∧ tag'.openEnd.text = ending.render := by
  obtain ⟨before', written, again, same, bare⟩ := reads.mend ends admits spare
  obtain ⟨outline, covers, nested, parsed⟩ := exists_outline pairs
    (Piece.renderAll before ++ ((tag.mend ending).render ++ t))
  have located : ((Piece.renderAll before).byteLength, Piece.opening written) ∈
      Piece.locate 0 outline.pieces := by
    rw [covers, again, Piece.locate_append, same, Nat.zero_add]
    exact List.mem_append_right _ List.mem_cons_self
  obtain ⟨tree, within, close, kind⟩ := outline.exists_element _ 0 1 0 located
  rw [parsed]
  refine ⟨tree, List.mem_cons_of_mem _ within, _, kind, rfl, ?_, ?_, ?_⟩
  · have name : written.bare.name = (tag.mend ending).bare.name := by rw [bare]
    exact name
  · rw [LineIndex.attributeTexts_tagAt, ← OpenTag.attributeTexts_bare, bare,
      OpenTag.attributeTexts_bare]
    rfl
  · have same : written.bare.ending = (tag.mend ending).bare.ending := by rw [bare]
    exact congrArg Ending.render same

/-- Applying the fix of a finding of `require-closing-tags` leaves its element at the same place,
with the same name and attributes, and with the end that the finding asks for. -/
theorem fix_resolves {pairs : List Delimiters} {rule : ClosingTags} {severity : Severity}
    {path : String} {source : Text} {d : Diagnostic}
    (found : d ∈ (ActiveRule.mk (.closingTags rule) severity).diagnostics path
      (parse pairs source)) {fix : Fix} (fixed : d.fix = some fix)
    (mendable : d.IsMendable pairs source) :
    ∃ tree ∈ (parse pairs source).subtrees, ∃ tag, tree.node.kind = .element tag ∧
      d.span = tag.openEnd.span ∧
      ∃ applied, applyFixes? source [fix] = some applied ∧
      ∃ tree' ∈ (parse pairs applied.output).subtrees, ∃ tag', tree'.node.kind = .element tag' ∧
        tag'.openStart.span.start = tag.openStart.span.start ∧ tag'.name = tag.name ∧
        tag'.attributeTexts = tag.attributeTexts ∧
        ((d.messageId = "MISSING_SELF" ∧ tag'.openEnd.text = ['/', '>']) ∨
          (d.messageId = "UNEXPECTED" ∧ tag'.openEnd.text = ['>'])) := by
  obtain ⟨outline, covers, nested, parsed⟩ := exists_outline pairs source
  have reads := Piece.reads_scanAll pairs source
  rw [← covers] at reads
  have full := Outline.full_of_reads reads
  have shown : Piece.renderAll outline.pieces = source := by
    rw [covers, Piece.renderAll_scanAll]
  -- A report with a fix has edits, and so mends one tag of the outline.
  obtain ⟨report, member, rfl⟩ := List.mem_map.1 found
  have made : report.fix? = some fix := fixed
  have edited : report.edits ≠ [] := by
    intro none_made
    simp [Report.fix?, Report.rawFix?, Fix.ofEdits?, none_made] at made
  have among : report ∈ rule.reports (parse pairs source) := member
  rw [parsed, ClosingTags.reports_ofOutline source full] at among
  obtain ⟨before, after, rest, split, follows, mends, within, kind, span⟩ :=
    Outline.mendsIn_of_mem nested full among edited
  rename_i tag ending kept closing tree close
  rw [Nat.zero_add] at mends kind span
  have text : source =
      Piece.renderAll before ++ (tag.render ++ (kept ++ closing)) ++ rest := by
    rw [← shown, split, Piece.renderAll_append]
    simp only [Piece.renderAll, List.flatMap_cons] at follows ⊢
    rw [follows, Piece.render]
    simp
  obtain ⟨openers, admits⟩ := mendable
  rw [Diagnostic.AdmitsEnd, Diagnostic.newEnding_eq mends.ends mends.message] at admits
  have located : ((Piece.renderAll before).byteLength, Piece.opening tag) ∈
      Piece.locate 0 (Piece.scanAll pairs source) := by
    rw [← covers, split, Piece.locate_append, Nat.zero_add]
    exact List.mem_append_right _ List.mem_cons_self
  -- The pieces before the tag and the tag with its new end are read again in the output.
  obtain rfl := Option.some.inj (made.symm.trans mends.fixed)
  have applied := applyFixes?_mendsTag mends rest
  rw [← text] at applied
  have output : Piece.renderAll before ++ ((tag.mend ending).render ++ kept) ++ rest =
      Piece.renderAll before ++ ((tag.mend ending).render ++ (kept ++ rest)) := by simp
  have spare : OpenersApartFrom pairs (Piece.renderAll before ++ tag.head) ending.mended
      (kept ++ rest) := by
    have spared := openers _ made _ applied _ (head?_landings _ tag ending kept closing)
    rw [output, OpenTag.render_mend] at spared
    simpa [OpenersApartFrom] using spared
  obtain ⟨tree', within', tag', kind', start, name, attributes, ended⟩ :=
    exists_mended (split ▸ reads) mends.ends (admits _ located mends.stop.symm) spare
  rw [← output] at within'
  refine ⟨tree, ?_, _, kind, span, _, applied, tree', within', tag', kind', start, name, ?_, ?_⟩
  · rw [parsed]
    exact List.mem_cons_of_mem _ within
  · rw [attributes, LineIndex.attributeTexts_tagAt]
  · have ends := mends.ends
    have message := mends.message
    rw [ended]
    cases ending with
    | unfinished => exact absurd rfl ends
    | plain => exact Or.inr ⟨message, rfl⟩
    | selfClosing => exact Or.inl ⟨message, rfl⟩

/-- The element of `<img src="a.png" />` ends with `>` once its finding is mended. -/
theorem fix_resolves_sample :
    let pairs : List Delimiters := [⟨"\x7b\x7b>".toList, "\x7d\x7d".toList⟩]
    let source := "<p><img src=\"a.png\" /></p>".toList
    let doc := parse pairs source
    ∃ d ∈ (ActiveRule.mk (.closingTags ⟨false, false, []⟩) .warning).diagnostics "page.html" doc,
      ∃ fix, d.fix = some fix ∧ d.IsMendable pairs source ∧
      ∃ tree ∈ doc.subtrees, ∃ tag, tree.node.kind = .element tag ∧ d.span = tag.openEnd.span ∧
        ∃ applied, applyFixes? source [fix] = some applied ∧
        ∃ tree' ∈ (parse pairs applied.output).subtrees, ∃ tag', tree'.node.kind = .element tag' ∧
          tag'.openStart.span.start = tag.openStart.span.start ∧ tag'.name = tag.name ∧
          tag'.attributeTexts = tag.attributeTexts ∧
          ((d.messageId = "MISSING_SELF" ∧ tag'.openEnd.text = ['/', '>']) ∨
            (d.messageId = "UNEXPECTED" ∧ tag'.openEnd.text = ['>'])) := by
  intro pairs source doc
  let found :=
    (ActiveRule.mk (.closingTags ⟨false, false, []⟩) .warning).diagnostics "page.html" doc
  have one : (found.head?.bind Diagnostic.fix).isSome = true := by decide +kernel
  have about : ∀ d ∈ found, d.newEnding = .plain := by decide +kernel
  have tags : ∀ read ∈ Piece.locate 0 (Piece.scanAll pairs source),
      read.2.admits pairs .plain = true := by decide +kernel
  have absent : ∀ d ∈ found, ∀ fix ∈ d.fix, ∀ applied ∈ applyFixes? source [fix],
      ∀ pair ∈ pairs, ¬pair.opening <:+: applied.output := by decide +kernel
  obtain ⟨fix, made⟩ := Option.isSome_iff_exists.1 one
  obtain ⟨d, first, fixed⟩ := Option.bind_eq_some_iff.1 made
  have member : d ∈ found := List.mem_of_mem_head? first
  have mendable : d.IsMendable pairs source := by
    refine ⟨fun fix made applied known span _ => ?_, fun read within _ => ?_⟩
    · exact .of_absent (absent d member fix made applied known) _ _
    · rw [about d member]
      exact tags read within
  exact ⟨d, member, fix, fixed, mendable, fix_resolves member fixed mendable⟩

/-- A slash at the end of the last key is taken for that of the new end: the fix of `<br a//>`
writes `<br a/>`, which closes itself still. -/
theorem fix_takes_slash :
    let source := "<br a//>".toList
    let found := (ActiveRule.mk (.closingTags ⟨false, false, []⟩) .warning).diagnostics "page.html"
      (parse [] source)
    found.map Diagnostic.messageId = ["UNEXPECTED"] ∧
      (applyFixes? source (Diagnostic.fixes found)).map Applied.output =
        some "<br a/>".toList ∧
      ((parse [] "<br a/>".toList).nodes.filterMap fun node =>
        node.kind.tag?.map fun tag => (tag.openEnd.text, tag.attributeTexts)) =
          [("/>".toList, [(some ['a'], none)])] := by
  decide +kernel

end Document

end TagLint
