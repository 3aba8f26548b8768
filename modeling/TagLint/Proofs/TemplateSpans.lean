import TagLint.Proofs.ExactSpans
import TagLint.Proofs.SkimmedParts

/-!
The template spans of a document.

Every content of a document is cut into regions and plain text, as byte offsets: where no opening
delimiter stands in it there is nothing to cut, and plain text has none in it. In a text, in a key
and in a value of an attribute the regions are moreover those that the scanner passed over when it
looked for the end (`Document.hasTemplates_parse`).
-/
namespace TagLint

open Written (Piece OpenTag Construct)
open Template (IsPlainAt IsRegion skim)

theorem Covers.stop_le {lo hi : Nat} {spans : List Span} (covers : Covers lo hi spans) :
    lo ≤ hi ∧ ∀ span ∈ spans, span.stop ≤ hi := by
  induction spans generalizing lo with
  | nil => exact ⟨Nat.le_of_eq covers, by simp⟩
  | cons span others ih =>
    obtain ⟨_, long, further⟩ := covers
    obtain ⟨ordered, within⟩ := ih further
    exact ⟨Nat.le_trans (Nat.le_of_lt long) ordered, List.forall_mem_cons.2 ⟨ordered, within⟩⟩

/-- Spans that cover a range have each of its offsets in one of them. -/
theorem Covers.exists_span {lo hi : Nat} {spans : List Span} (covers : Covers lo hi spans)
    {place : Nat} (start : lo ≤ place) (stop : place < hi) :
    ∃ span ∈ spans, span.start ≤ place ∧ place < span.stop := by
  induction spans generalizing lo with
  | nil =>
    have same : lo = hi := covers
    omega
  | cons span others ih =>
    obtain ⟨rfl, _, further⟩ := covers
    by_cases here : place < span.stop
    · exact ⟨span, List.mem_cons_self, start, here⟩
    · obtain ⟨other, member, inside⟩ := ih further (Nat.le_of_not_lt here)
      exact ⟨other, List.mem_cons_of_mem span member, inside⟩

/-- Whether a region starts where the template span does, or, if it is plain text, nowhere in it. -/
structure TemplateSpan.IsDue (pairs : List Delimiters) (source : Text) (part : TemplateSpan) :
    Prop where
  opens : part.isTemplate = true → ¬IsPlainAt pairs source part.span.start
  plain : part.isTemplate = false →
    ∀ place, part.span.start ≤ place → place < part.span.stop → IsPlainAt pairs source place

/-- Whether the template spans of the content are its regions with the plain text between them. -/
structure Content.IsPartitioned (pairs : List Delimiters) (source : Text) (content : Content) :
    Prop where
  /-- A content without a region is not cut. -/
  empty : content.templates = [] ↔
    ∀ place, content.span.start ≤ place → place < content.span.stop → IsPlainAt pairs source place
  covers : content.templates = [] ∨
    Covers content.span.start content.span.stop (content.templates.map TemplateSpan.span)
  /-- Plain text does not come right after plain text. -/
  maximal : (content.templates.map TemplateSpan.isTemplate).IsChain fun a b => a = true ∨ b = true
  due : ∀ part ∈ content.templates, part.IsDue pairs source

/-- Whether the content is what a scanner skims that looks for `stops`, and its regions are those
that the scanner passes over. -/
structure Content.IsScanned (pairs : List Delimiters) (source : Text) (stops : Text → Bool)
    (content : Content) : Prop extends content.IsPartitioned pairs source where
  skimmed : ∃ before t : Text, source = before ++ t ∧
    content.span = ⟨before.byteLength, before.byteLength + content.text.byteLength⟩ ∧
    content.text = (skim pairs stops t).1 ∧ Part.join (Part.skimmed pairs stops t) = content.text ∧
    content.templates.filter TemplateSpan.isTemplate =
      ((LineIndex.ofText source).templateSpans before.byteLength
        (Part.skimmed pairs stops t)).filter TemplateSpan.isTemplate
  regions : ∀ part ∈ content.templates, part.isTemplate = true → IsRegion pairs source part.span

/-- What the end of a value is looked for with: a bare value ends before white space or a bracket, a
quoted one before its quote. -/
inductive Written.IsValueEnd (pairs : List Delimiters) : (Text → Bool) → Prop where
  | bare : IsValueEnd pairs (endsValue pairs)
  | quoted (quote : Char) (either : quote = '"' ∨ quote = '\'') :
      IsValueEnd pairs fun t => t.head? == some quote

/-- Whether the key and the value of the attribute have the regions that the scanner passed over. -/
structure Attribute.HasTemplates (pairs : List Delimiters) (source : Text) (part : Attribute) :
    Prop where
  key : ∀ key ∈ part.key, key.IsScanned pairs source (Written.endsKey pairs)
  value : ∀ value ∈ part.value, ∃ stops, Written.IsValueEnd pairs stops ∧
    value.IsScanned pairs source stops

/-- Whether the contents of the node, and of its attributes, are cut into regions and plain text. -/
structure Kind.HasTemplates (pairs : List Delimiters) (source : Text) (kind : Kind) : Prop where
  contents : ∀ content ∈ kind.contents, content.IsPartitioned pairs source
  text : ∀ content, kind = .text content →
    content.IsScanned pairs source (Written.endsContent pairs)
  attributes : ∀ tag ∈ kind.tags, ∀ part ∈ tag.attributes, part.HasTemplates pairs source

section Parts

variable (pairs : List Delimiters) {source : Text} (index : LineIndex)

theorem LineIndex.map_isTemplate_templateSpans (offset : Nat) (parts : List Part) :
    (index.templateSpans offset parts).map TemplateSpan.isTemplate = parts.map Part.isTemplate := by
  induction parts generalizing offset with
  | nil => rfl
  | cons part parts ih => simp [templateSpans, ih]

theorem LineIndex.any_isTemplate_templateSpans (offset : Nat) (parts : List Part) :
    (index.templateSpans offset parts).any TemplateSpan.isTemplate = parts.any Part.isTemplate := by
  induction parts generalizing offset with
  | nil => rfl
  | cons part parts ih => simp [templateSpans, ih]

/-- A plain character makes the plain span after it longer, or has one of its own. -/
theorem LineIndex.templateSpans_consPlain (before : Text) (c : Char) (parts : List Part) :
    ∃ stop extent others,
      index.templateSpans before.byteLength (Part.consPlain c parts) =
        ⟨false, ⟨before.byteLength, stop⟩, extent⟩ :: others ∧
      (stop = (before ++ [c]).byteLength ∧
          index.templateSpans (before ++ [c]).byteLength parts = others ∨
        ∃ extent', index.templateSpans (before ++ [c]).byteLength parts =
          ⟨false, ⟨(before ++ [c]).byteLength, stop⟩, extent'⟩ :: others) := by
  unfold Part.consPlain
  split
  next text others =>
    have longer : before.byteLength + Text.byteLength (c :: text) =
        (before ++ [c]).byteLength + Text.byteLength text := by
      rw [← Text.byteLength_append, ← Text.byteLength_append]
      simp
    rw [templateSpans]
    simp only [longer]
    exact ⟨_, _, _, rfl, Or.inr ⟨_, rfl⟩⟩
  · rw [templateSpans]
    simp only [← Text.byteLength_append]
    exact ⟨_, _, _, rfl, Or.inl ⟨rfl, rfl⟩⟩

/-- What a text is divided into is due in the source. -/
theorem LineIndex.due_divide {before own after : Text}
    (source_ : source = before ++ (own ++ after)) :
    ∀ part ∈ index.templateSpans before.byteLength (Part.divide pairs after own),
      part.IsDue pairs source := by
  -- What is before the text grows by what is cut off from it, a region or a plain character.
  fun_induction Part.divide pairs after own generalizing before with
  | case1 => simp [templateSpans]
  | case2 c t region rest found ih =>
    have joined := Template.region?_append found
    rw [templateSpans, List.forall_mem_cons]
    refine ⟨⟨fun _ plain => ?_, by simp⟩, ?_⟩
    · rw [source_, Template.isPlainAt_iff, ← Template.opener?_append] at plain
      simp [Template.region?, plain] at found
    · simp only
      rw [← Text.byteLength_append]
      exact ih (by rw [source_, ← joined]; simp)
  | case3 c t plain ih =>
    have onward : source = before ++ [c] ++ (t ++ after) := by
      rw [source_]
      simp
    have others := ih onward
    have here (place : Nat) (start : before.byteLength ≤ place)
        (stop : place < (before ++ [c]).byteLength) : IsPlainAt pairs source place := by
      rw [Text.byteLength_append] at stop
      rw [source_]
      refine Template.isPlainAt_of_char ?_ start stop
      change Template.opener? pairs (c :: t ++ after) [] = none
      rw [← Template.opener?_append]
      simpa [Template.region?] using plain
    obtain ⟨stop, extent, rest, shown, ⟨rfl, same⟩ | ⟨extent', same⟩⟩ :=
      index.templateSpans_consPlain before c (Part.divide pairs after t)
    · rw [shown, List.forall_mem_cons, ← same]
      exact ⟨⟨by simp, fun _ => here⟩, others⟩
    · -- The plain span has the character in front of what was plain before.
      rw [same, List.forall_mem_cons] at others
      rw [shown, List.forall_mem_cons]
      refine ⟨⟨by simp, fun _ place start last => ?_⟩, others.2⟩
      by_cases first : place < (before ++ [c]).byteLength
      · exact here place start first
      · exact others.1.plain rfl place (Nat.le_of_not_lt first) last

/-- A text that is cut out of the source is cut into regions and plain text. -/
theorem LineIndex.isPartitioned_contentAt {before own after : Text}
    (source_ : source = before ++ (own ++ after)) :
    (index.contentAt before.byteLength (Fragment.ofText pairs own after)).IsPartitioned pairs
      source := by
  let parts := Part.divide pairs after own
  have due := index.due_divide pairs source_
  have stands : source.StandsAt before.byteLength (Part.join parts) :=
    ⟨before, after, by rw [source_, Part.join_divide, List.append_assoc], rfl⟩
  have covers := (index.templateSpans_exact stands Part.text_ne_nil_of_mem_divide).1
  rw [Part.join_divide] at covers
  have templates : (index.contentAt before.byteLength
      (Fragment.ofText pairs own after)).templates =
        if parts.any Part.isTemplate then index.templateSpans before.byteLength parts else [] := by
    simp only [contentAt, Fragment.ofText]
    split <;> rfl
  have chain := Part.isChain_divide pairs after own
  rw [← index.map_isTemplate_templateSpans before.byteLength] at chain
  have any := index.any_isTemplate_templateSpans before.byteLength parts
  -- The parts are kept only where one of them is a region.
  by_cases cut : parts.any Part.isTemplate = true
  · rw [if_pos cut] at templates
    rw [← any] at cut
    obtain ⟨part, member, isTemplate⟩ := List.any_eq_true.1 cut
    have spanned := List.mem_map_of_mem (f := TemplateSpan.span) member
    refine ⟨?_, Or.inr (templates ▸ covers), templates ▸ chain, templates ▸ due⟩
    rw [templates]
    constructor
    · intro empty
      rw [empty] at member
      contradiction
    · intro plain
      -- The region starts somewhere in the content.
      refine absurd (plain part.span.start (covers.pairwise_lt.2 _ spanned) ?_)
        ((due part member).opens isTemplate)
      exact Nat.lt_of_lt_of_le (covers.ordered _ spanned) (covers.stop_le.2 _ spanned)
  · rw [if_neg cut] at templates
    refine ⟨?_, Or.inl templates, by simp [templates], by simp [templates]⟩
    rw [templates]
    -- Every offset lies in some part, and all parts are plain.
    refine iff_of_true rfl fun place start stop => ?_
    obtain ⟨span, spanned, first, last⟩ := covers.exists_span start stop
    obtain ⟨part, member, rfl⟩ := List.mem_map.1 spanned
    have isPlain : part.isTemplate = false := by
      rw [← any] at cut
      exact Bool.eq_false_iff.2 fun isTemplate =>
        cut (List.any_eq_true.2 ⟨part, member, isTemplate⟩)
    exact (due part member).plain isPlain place first last

/-- What is passed over is a region of the source. -/
theorem LineIndex.isRegion_skimmed (stops : Text → Bool) {before t : Text}
    (source_ : source = before ++ t) :
    ∀ part ∈ index.templateSpans before.byteLength (Part.skimmed pairs stops t),
      part.isTemplate = true → IsRegion pairs source part.span := by
  -- Plain characters join the plain part after them and leave the regions as they are.
  fun_induction Part.skimmed pairs stops t generalizing before with
  | case1 => simp [templateSpans]
  | case2 => simp [templateSpans]
  | case3 c t _ region rest found ih =>
    have joined := Template.region?_append found
    rw [templateSpans, List.forall_mem_cons]
    refine ⟨fun _ => ?_, ?_⟩
    · rw [source_]
      exact Template.isRegion_of_region? found
    · simp only
      rw [← Text.byteLength_append]
      exact ih (by rw [source_, ← joined, List.append_assoc])
  | case4 c t _ _ ih =>
    have onward : source = before ++ [c] ++ t := by
      rw [source_]
      simp
    have others := ih onward
    obtain ⟨stop, extent, rest, shown, ⟨rfl, same⟩ | ⟨extent', same⟩⟩ :=
      index.templateSpans_consPlain before c (Part.skimmed pairs stops t)
    · rw [shown, List.forall_mem_cons, ← same]
      exact ⟨by simp, others⟩
    · rw [same, List.forall_mem_cons] at others
      rw [shown, List.forall_mem_cons]
      exact ⟨by simp, others.2⟩

end Parts

section Scan

variable (pairs : List Delimiters) {source before t : Text}

/-- What a scanner skims has the regions that it passes over. -/
theorem Content.isScanned_skim (stops : Text → Bool) (source_ : source = before ++ t) :
    ((LineIndex.ofText source).contentAt before.byteLength
      (Fragment.ofText pairs (skim pairs stops t).1 (skim pairs stops t).2)).IsScanned pairs source
        stops := by
  have regions := (LineIndex.ofText source).isRegion_skimmed pairs stops source_
  have parts := Part.divide_skim pairs stops t
  refine {
    toIsPartitioned := LineIndex.isPartitioned_contentAt pairs _
      (by rw [source_, Template.skim_append])
    skimmed := ⟨before, t, source_, rfl, rfl, Part.join_skimmed pairs stops t, ?skimmed⟩
    regions := ?regions }
  case skimmed =>
    simp only [LineIndex.contentAt, Fragment.ofText, parts]
    split
    · rfl
    next uncut =>
      -- Without a region there is nothing among the parts that is one.
      rw [LineIndex.templateSpans, List.filter_nil, eq_comm, List.filter_eq_nil_iff]
      intro part member isTemplate
      rw [← (LineIndex.ofText source).any_isTemplate_templateSpans before.byteLength] at uncut
      exact uncut (List.any_eq_true.2 ⟨part, member, isTemplate⟩)
  case regions =>
    simp only [LineIndex.contentAt, Fragment.ofText, parts]
    split
    · exact regions
    · simp [LineIndex.templateSpans]

namespace Written

/-- A key is skimmed. -/
theorem Attribute.isScanned_key (source_ : source = before ++ t) :
    ∀ key ∈ (scanKey pairs t).1,
      ((LineIndex.ofText source).contentAt before.byteLength key).IsScanned pairs source
        (endsKey pairs) := by
  unfold scanKey
  split
  · simp
  · simpa using Content.isScanned_skim pairs (endsKey pairs) source_

/-- A value is skimmed after its quote, if there is one. -/
theorem Assignment.isScanned_value (source_ : source = before ++ t) :
    ∃ stops, IsValueEnd pairs stops ∧
      ((LineIndex.ofText source).contentAt
        (before.byteLength + Text.byteLength (scanValue pairs t).1.toList)
        (scanValue pairs t).2.1).IsScanned pairs source stops := by
  unfold scanValue
  split
  · refine ⟨_, .bare, ?_⟩
    have skimmed := Content.isScanned_skim pairs (endsValue pairs) source_
    simpa [skim] using skimmed
  next c r =>
    split
    next quoted =>
      simp only [Bool.or_eq_true, beq_iff_eq] at quoted
      refine ⟨_, .quoted c quoted, ?_⟩
      simp only [Option.toList_some]
      rw [← Text.byteLength_append]
      exact Content.isScanned_skim pairs _ (by rw [source_]; simp)
    · exact ⟨_, .bare, Content.isScanned_skim pairs _ source_⟩

end Written

theorem Attribute.hasTemplates_scan (source_ : source = before ++ t) :
    ((LineIndex.ofText source).attributeAt before.byteLength
      (Written.Attribute.scan pairs t).1).HasTemplates pairs source := by
  have joined := Written.Attribute.scanKey_append pairs t
  have keys := Written.Attribute.isScanned_key pairs source_
  have spaces := List.takeWhile_append_dropWhile (p := isMarkupSpace)
    (l := (Written.Attribute.scanKey pairs t).2)
  unfold Written.Attribute.scan
  simp only
  split
  next r sign =>
    refine ⟨?_, ?_⟩
    · intro key among
      obtain ⟨fragment, shown, rfl⟩ := Option.map_eq_some_iff.1 among
      exact keys fragment shown
    · -- The value comes after the key, the sign and the white space around it.
      let lead : Text := ((Written.Attribute.scanKey pairs t).1.map Fragment.text).getD []
      let before' : Text := (Written.Attribute.scanKey pairs t).2.takeWhile isMarkupSpace
      have reach : source =
          before ++ (lead ++ before' ++ '=' :: r.takeWhile isMarkupSpace) ++
            r.dropWhile isMarkupSpace := by
        rw [sign, ← List.takeWhile_append_dropWhile (p := isMarkupSpace) (l := r)] at spaces
        rw [source_, List.append_assoc, List.append_assoc, List.append_assoc, List.cons_append,
          spaces, joined]
      have size : (before ++ (lead ++ before' ++ '=' :: r.takeWhile isMarkupSpace)).byteLength =
          before.byteLength + lead.byteLength + before'.byteLength + 1 +
            Text.byteLength (r.takeWhile isMarkupSpace) := by
        have one : '='.utf8Size = 1 := by decide
        simp only [Text.byteLength_append, Text.byteLength_cons, one]
        omega
      obtain ⟨stops, ends, scanned⟩ := Written.Assignment.isScanned_value pairs reach
      rw [size] at scanned
      intro value among
      obtain rfl := Option.some.inj among
      exact ⟨stops, ends, scanned⟩
  · refine ⟨?_, by simp [LineIndex.attributeAt]⟩
    intro key among
    obtain ⟨fragment, shown, rfl⟩ := Option.map_eq_some_iff.1 among
    exact keys fragment shown

theorem LineIndex.hasTemplates_attributes (source_ : source = before ++ t) :
    ∀ part ∈ ((LineIndex.ofText source).attributesAt before.byteLength
      (OpenTag.scanAttributes pairs t).1).1, part.HasTemplates pairs source := by
  fun_induction OpenTag.scanAttributes pairs t generalizing before with
  | case1 => simp [attributesAt]
  | case2 t _ first others =>
    rename_i ih
    have gap := Written.splitGap_append t
    have read := Written.Attribute.render_scan pairs (Written.splitGap t).2
    have start : source = before ++ (Written.splitGap t).1 ++ (Written.splitGap t).2 := by
      rw [List.append_assoc, gap, source_]
    have stop : source = before ++ (Written.splitGap t).1 ++ first.1.render ++ first.2 := by
      rw [List.append_assoc, read, start]
    have here := Attribute.hasTemplates_scan pairs start
    have later := ih stop
    simp only [Text.byteLength_append] at here later
    exact List.forall_mem_cons.2 ⟨here, later⟩

/-- The attributes of a tag that is read have the regions that the scanner passed over. -/
theorem LineIndex.hasTemplates_tag (source_ : source = before ++ '<' :: t) (close : Option Token) :
    ∀ part ∈ ((LineIndex.ofText source).tagAt before.byteLength (OpenTag.scan pairs t).1
      close).attributes, part.HasTemplates pairs source := by
  have name := List.takeWhile_append_dropWhile (p := fun c => !Written.isNameEnd c) (l := t)
  have start : source = before ++ ('<' :: t.takeWhile fun c => !Written.isNameEnd c) ++
      t.dropWhile fun c => !Written.isNameEnd c := by
    rw [List.append_assoc, List.cons_append, name, source_]
  have read := LineIndex.hasTemplates_attributes pairs start
  rw [Text.byteLength_append] at read
  exact read

/-- The body of a raw element is cut out of the source. -/
theorem Written.RawBody.isPartitioned_scan (name : Text) (source_ : source = before ++ t) :
    ((LineIndex.ofText source).contentAt before.byteLength
      (scan pairs name t).1.content).IsPartitioned pairs source := by
  unfold scan
  split
  · exact LineIndex.isPartitioned_contentAt pairs _ (by rw [source_, List.append_nil])
  next body after found =>
    exact LineIndex.isPartitioned_contentAt pairs _ (by rw [source_, Text.breakAt?_append found])

theorem Written.Piece.hasTemplates_text (plain : Construct.of? t = none)
    (source_ : source = before ++ t) :
    ∀ kind ∈ (scan pairs t).1.kindAt? (LineIndex.ofText source) before.byteLength,
      kind.HasTemplates pairs source := by
  intro kind found
  simp only [scan, plain, kindAt?, Option.mem_some_iff] at found
  subst found
  have scanned := Content.isScanned_skim pairs (endsContent pairs) source_
  refine ⟨by simpa [Kind.contents] using scanned.toIsPartitioned, ?_, by simp [Kind.tags]⟩
  rintro content same
  obtain rfl := Kind.text.inj same
  exact scanned

theorem Written.Piece.hasTemplates_raw {tag : OpenTag} {body : Option RawBody}
    (attributes : ∀ close, ∀ part ∈ ((LineIndex.ofText source).tagAt before.byteLength tag
      close).attributes, part.HasTemplates pairs source)
    (content : ∀ own ∈ body, ((LineIndex.ofText source).contentAt
      (before.byteLength + tag.render.byteLength) own.content).IsPartitioned pairs source) :
    ∀ kind ∈ (raw tag body).kindAt? (LineIndex.ofText source) before.byteLength,
      kind.HasTemplates pairs source := by
  intro kind found
  simp only [kindAt?, Option.mem_some_iff] at found
  subst found
  have held : ∀ held ∈ body.map fun body => (LineIndex.ofText source).contentAt
      (before.byteLength + tag.render.byteLength) body.content,
        held.IsPartitioned pairs source := by
    intro held among
    obtain ⟨own, rfl, rfl⟩ := Option.map_eq_some_iff.1 among
    exact content own rfl
  split
  · exact ⟨by simpa [Kind.contents] using held, by simp, by simpa [Kind.tags] using attributes _⟩
  · exact ⟨by simpa [Kind.contents] using held, by simp, by simpa [Kind.tags] using attributes _⟩

/-- What a piece that is read is in a document has its templates. -/
theorem Written.Piece.hasTemplates_scan (source_ : source = before ++ t) :
    ∀ kind ∈ (scan pairs t).1.kindAt? (LineIndex.ofText source) before.byteLength,
      kind.HasTemplates pairs source := by
  cases construct : Construct.of? t with
  | none => exact hasTemplates_text pairs construct source_
  | some construct' =>
    have opens := Construct.opens_of_of? construct
    cases construct' with
    | comment =>
      obtain ⟨r, rfl⟩ := opens
      have lead : Text.byteLength "<!--".toList = 4 := by decide
      have inside : source = before ++ "<!--".toList ++
          ((splitBefore "-->".toList r).1 ++ (splitBefore "-->".toList r).2) := by
        rw [source_, splitBefore_append, List.append_assoc]
      have cut := (LineIndex.ofText source).isPartitioned_contentAt pairs inside
      rw [Text.byteLength_append, lead] at cut
      simp only [scan, construct, kindAt?, Option.mem_some_iff, forall_eq']
      exact ⟨by simpa [Kind.contents] using cut, by simp, by simp [Kind.tags]⟩
    | doctype =>
      obtain ⟨r, rfl⟩ := doctype_lead opens
      have lead : Text.byteLength ['<', '!'] = 2 := by decide
      have inside : source = before ++ ['<', '!'] ++
          ((splitBefore ['>'] r).1 ++ (splitBefore ['>'] r).2) := by
        rw [source_, splitBefore_append, List.append_assoc]
        rfl
      have cut := (LineIndex.ofText source).isPartitioned_contentAt pairs inside
      rw [Text.byteLength_append, lead] at cut
      simp only [scan, construct, kindAt?, Option.mem_some_iff, forall_eq',
        splitBefore_cons (show '<' ≠ '>' by decide), splitBefore_cons (show '!' ≠ '>' by decide)]
      exact ⟨by simpa [Kind.contents] using cut, by simp, by simp [Kind.tags]⟩
    | closing => simp [scan, construct, kindAt?]
    | opening =>
      obtain ⟨r, rfl, _⟩ := opens
      have attributes := LineIndex.hasTemplates_tag pairs source_
      have joined := OpenTag.render_scan pairs r
      -- Only a raw element that does not close itself has content of its own.
      cases isRaw : (OpenTag.scan pairs r).1.isRaw with
      | false =>
        simp only [scan, construct, List.tail_cons, isRaw, Bool.false_eq_true, if_false, kindAt?,
          Option.mem_some_iff, forall_eq']
        exact ⟨by simp [Kind.contents], by simp, by simpa [Kind.tags] using attributes none⟩
      | true =>
        cases closes : (OpenTag.scan pairs r).1.isSelfClosing with
        | true =>
          simp only [scan, construct, List.tail_cons, isRaw, closes, if_true]
          exact hasTemplates_raw pairs attributes (by simp)
        | false =>
          simp only [scan, construct, List.tail_cons, isRaw, closes, if_true, Bool.false_eq_true,
            if_false]
          refine hasTemplates_raw pairs attributes ?_
          simp only [Option.mem_some_iff, forall_eq']
          rw [← Text.byteLength_append]
          exact RawBody.isPartitioned_scan pairs _ (by rw [source_, List.append_assoc, joined])

end Scan

namespace Document

/-- Whether every content of the document is cut into its regions and the plain text between
them. -/
def HasTemplates (pairs : List Delimiters) (source : Text) (doc : Document) : Prop :=
  ∀ node ∈ doc.nodes, node.kind.HasTemplates pairs source

/-- A located piece has its templates in the document. -/
theorem hasTemplates_of_mem_locate {pairs : List Delimiters} {source : Text} {place : Nat}
    {piece : Piece} (read : (place, piece) ∈ Piece.locate 0 (Piece.scanAll pairs source)) :
    ∀ kind ∈ piece.kindAt? (LineIndex.ofText source) place, kind.HasTemplates pairs source := by
  obtain ⟨before, after, split, rfl⟩ := Piece.exists_of_mem_locate read
  have reads := Piece.reads_scanAll pairs source
  rw [split] at reads
  have whole : source = Piece.renderAll before ++ (piece.render ++ Piece.renderAll after) := by
    rw [← Piece.renderAll_cons, ← Piece.renderAll_append, ← split, Piece.renderAll_scanAll]
  have here := Piece.hasTemplates_scan pairs whole
  rw [reads.of_append.2.1] at here
  rwa [Nat.zero_add]

/-- In every document the template spans are the regions of the source. -/
theorem hasTemplates_parse (pairs : List Delimiters) (source : Text) :
    (parse pairs source).HasTemplates pairs source := by
  intro node member
  obtain ⟨tree, within, rfl⟩ := List.mem_map.1 member
  rcases List.mem_cons.1 within with rfl | below
  · constructor <;> simp [parse, Kind.contents, Kind.tags]
  obtain ⟨_, comes, _⟩ := comesFrom_parse pairs source below
  cases comes with
  | single place piece next read stands kind span inside =>
    exact hasTemplates_of_mem_locate read _ kind
  | element place written inside close opening closing nested kind start stop content =>
    have read := (hasTemplates_of_mem_locate opening _ rfl).attributes
    rw [kind]
    refine ⟨by simp [Kind.contents], by simp, fun tag among part => ?_⟩
    obtain rfl := List.mem_singleton.1 among
    exact read _ List.mem_cons_self part

end Document
end TagLint
