import TagLint.Proofs.TagShape

/-!
Where the content of scripts and styles ends.

The body of a raw element is read up to the first place at which `</` and the name of the element
stand, whatever comes after the name; a closing tag of any other element has its name read to the
end. So a raw element ends at its closing tag unless the start of a longer name comes before
(`Document.endsRawElements_parse`).
-/
namespace TagLint

open Written (Piece OpenTag RawBody isNameEnd)

namespace Text

/-- Whether the text begins with a closing tag of the given name, in any case of letters. -/
def startsClosing (name : Text) : Text → Bool
  | '<' :: '/' :: t => sameName (t.takeWhile fun c => !isNameEnd c) name
  | _ => false

/-- What begins with a closing tag begins with `</` and the name. -/
theorem startsWithName_of_startsClosing {name t : Text} (closes : startsClosing name t = true) :
    startsWithName ('<' :: '/' :: name) t = true := by
  unfold startsClosing at closes
  split at closes
  next r =>
    have length : (r.takeWhile fun c => !isNameEnd c).length = name.length := by
      have lengths := congrArg List.length (beq_iff_eq.1 closes)
      simpa [lower] using lengths
    have named : r.take name.length = r.takeWhile fun c => !isNameEnd c := by
      rw [← length]
      exact (List.prefix_iff_eq_take.1 (List.takeWhile_prefix _)).symm
    simp only [sameName, lower, beq_iff_eq] at closes
    simp [startsWithName, sameName, lower, named, closes]
  · contradiction

/-- Whether the text is all up to and with the first bracket of `rest`, or all of `rest` where it
has none. -/
def IsUpToBracket (t rest : Text) : Prop :=
  ∃ inner, '>' ∉ inner ∧ (t = inner ++ ['>'] ∧ t <+: rest ∨ t = inner ∧ rest = inner)

end Text

/-- What the body of a raw element is read as. -/
theorem Written.RawBody.scan_spec (pairs : List Delimiters) (name t : Text) :
    ∃ rest, t = (scan pairs name t).1.content.text ++ rest ∧
      (∀ c r, c :: r <:+ (scan pairs name t).1.content.text →
        Text.startsWithName ('<' :: '/' :: name) (c :: r ++ rest) = false) ∧
      ((scan pairs name t).1.close = none → rest = []) ∧
      ∀ close ∈ (scan pairs name t).1.close,
        Text.startsWithName ('<' :: '/' :: name) rest = true ∧ close.IsUpToBracket rest := by
  unfold scan
  split
  next missing =>
    refine ⟨[], by simp, fun c r suffix => ?_, by simp, by simp⟩
    rw [Fragment.text_ofText] at suffix
    rw [List.append_nil]
    exact Text.breakAt?_eq_none_iff.1 missing c r suffix
  next body after found =>
    simp only [Fragment.text_ofText]
    refine ⟨after, (Text.breakAt?_append found).symm, Text.breakAt?_runs found, by simp, ?_⟩
    rintro close ⟨⟩
    refine ⟨Text.breakAt?_found found, (scanBracket after).1,
      Piece.bracket_not_mem_splitBefore after, ?_⟩
    have joined := scanBracket_append after
    -- A closing tag runs through its bracket, or through the rest of the source without one.
    cases closed : (scanBracket after).2.1 with
    | true =>
      rw [closed] at joined
      exact Or.inl ⟨rfl, _, joined⟩
    | false =>
      have empty : (splitBefore ['>'] after).2 = [] := by simpa [scanBracket] using closed
      have rest : (scanBracket after).2.2 = [] := by simp [scanBracket, empty]
      rw [closed, rest] at joined
      exact Or.inr ⟨by simp [Piece.bracket], by simpa [Piece.bracket] using joined.symm⟩

/-- Whether the content of the raw element goes from its opening tag to the first place where
something that satisfies `found` begins, which is where `rest` does. -/
structure Tag.RawUpTo (found : Text → Bool) (source : Text) (tag : Tag) (content : Content)
    (rest : Text) : Prop where
  /-- The content comes after the opening tag, and `rest` is all that comes after it. -/
  stands : source.StandsAt tag.openEnd.span.stop (content.text ++ rest)
  ends : tag.openEnd.span.stop + (content.text ++ rest).byteLength = source.byteLength
  span : content.span =
    ⟨tag.openEnd.span.stop, tag.openEnd.span.stop + content.text.byteLength⟩
  first : ∀ c r, c :: r <:+ content.text → found (c :: r ++ rest) = false
  /-- Without a closing tag the content goes on to the end of the source. -/
  missing : tag.close = none → rest = []
  /-- A closing tag comes right after the content, and goes on to its bracket. -/
  close : ∀ token ∈ tag.close, found rest = true ∧ token.text.IsUpToBracket rest ∧
    token.span = ⟨content.span.stop, content.span.stop + token.text.byteLength⟩

/-- Whether the raw element ends where something that satisfies `found` first begins. -/
def Tag.EndsRaw (found : Text → Bool) (source : Text) (tag : Tag) (content : Content) : Prop :=
  ∃ rest, tag.RawUpTo found source content rest

/-- Whether `</` and the name come in the raw element before any closing tag of the name. -/
def Tag.IsMimicked (source : Text) (tag : Tag) : Prop :=
  ∃ body rest, source.StandsAt tag.openEnd.span.stop (body ++ rest) ∧
    tag.openEnd.span.stop + (body ++ rest).byteLength = source.byteLength ∧
    Text.startsWithName ('<' :: '/' :: tag.name) rest = true ∧
    Text.startsClosing tag.name rest = false ∧
    ∀ c r, c :: r <:+ body → Text.startsClosing tag.name (c :: r ++ rest) = false

section Mimicked

variable {source : Text} {tag : Tag} {content : Content} {rest : Text}

/-- What stands at a place and goes on to the end of the source is one text. -/
theorem Text.StandsAt.eq_of_ends {place : Nat} {s t : Text} (first : source.StandsAt place s)
    (firstEnds : place + s.byteLength = source.byteLength) (second : source.StandsAt place t)
    (secondEnds : place + t.byteLength = source.byteLength) : s = t := by
  have one := first.select?
  have two := second.select?
  rw [firstEnds] at one
  rw [secondEnds] at two
  exact Option.some.inj (one.symm.trans two)

/-- A raw element that ends at the first `</` with its name ends at the first closing tag of its
name unless something else begins so before. -/
theorem Tag.RawUpTo.endsRaw_iff
    (raw : tag.RawUpTo (Text.startsWithName ('<' :: '/' :: tag.name)) source content rest) :
    tag.EndsRaw (Text.startsClosing tag.name) source content ↔ ¬tag.IsMimicked source := by
  -- A closing tag does not begin before `</` and the name do.
  have apart {t : Text} (other : Text.startsWithName ('<' :: '/' :: tag.name) t = false) :
      Text.startsClosing tag.name t = false := by
    rw [Bool.eq_false_iff] at other ⊢
    exact fun closes => other (Text.startsWithName_of_startsClosing closes)
  constructor
  · rintro ⟨rest', ends⟩ ⟨body, later, stands, upto, starts, other, before⟩
    obtain rfl : rest = rest' :=
      List.append_cancel_left (raw.stands.eq_of_ends raw.ends ends.stands ends.ends)
    have same : content.text ++ rest = body ++ later :=
      raw.stands.eq_of_ends raw.ends stands upto
    rcases Nat.lt_or_ge body.byteLength content.text.byteLength with late | early
    · -- The content would go on past a place where `</` and the name stand.
      obtain ⟨middle, split, rfl⟩ := Text.exists_middle same.symm (Nat.le_of_lt late)
      cases middle with
      | nil => simp [split] at late
      | cons c r =>
        rw [raw.first c r (split ▸ List.suffix_append body (c :: r))] at starts
        contradiction
    · -- The element ends with a closing tag, and none begins up to the place of the other name.
      obtain ⟨middle, rfl, shown⟩ := Text.exists_middle same early
      cases closed : tag.close with
      | none =>
        rw [(List.append_eq_nil_iff.1 (shown.symm.trans (raw.missing closed))).2] at starts
        simp [Text.startsWithName, Text.sameName, Text.lower] at starts
      | some token =>
        have closes := (ends.close token closed).1
        rw [shown] at closes
        cases middle with
        | nil =>
          rw [List.nil_append, other] at closes
          contradiction
        | cons c r =>
          rw [before c r (List.suffix_append content.text (c :: r))] at closes
          contradiction
  · intro clear
    refine ⟨rest, raw.stands, raw.ends, raw.span, fun c r suffix => apart (raw.first c r suffix),
      raw.missing, fun token closed => ?_⟩
    obtain ⟨starts, bracket, span⟩ := raw.close token closed
    refine ⟨?_, bracket, span⟩
    by_contra other
    exact clear ⟨content.text, rest, raw.stands, raw.ends, starts, by simpa using other,
      fun c r suffix => apart (raw.first c r suffix)⟩

end Mimicked

namespace Document

variable {pairs : List Delimiters} {source : Text}

/-- A raw element of a document ends where `</` and its name first come. -/
theorem exists_rawUpTo {tree : Tree} (member : tree ∈ (parse pairs source).root.inside.subtrees)
    {tag : Tag} {content : Option Content}
    (kind : tree.node.kind = .script tag content ∨ tree.node.kind = .style tag content)
    (goesOn : tag.isSelfClosing = false) :
    ∃ own rest, content = some own ∧
      tag.RawUpTo (Text.startsWithName ('<' :: '/' :: tag.name)) source own rest := by
  obtain ⟨_, comes, _⟩ := comesFrom_parse pairs source member
  obtain ⟨written, body, located, _, shown, same⟩ := comes.exists_raw kind
  obtain ⟨others, reads, stands, ends⟩ := exists_reads_of_mem_locate located
  have closes : tag.isSelfClosing = written.isSelfClosing := by
    rw [same]
    rfl
  -- Reading the body of the tag gives the body again and leaves the pieces after it.
  rcases reads.raw_formed.2 with ⟨alone, _⟩ | ⟨_, body, rfl, read⟩
  · rw [closes, alone] at goesOn
    contradiction
  · obtain ⟨rest, split, first, missing, close⟩ :=
      RawBody.scan_spec pairs written.name (body.render ++ Piece.renderAll others)
    rw [read] at split first missing close
    have name : tag.name = written.name := by
      rw [same]
      rfl
    have stop : tag.openEnd.span.stop = tree.node.span.start + written.render.byteLength := by
      rw [same, LineIndex.tagAt_stop]
    rw [Piece.render, List.append_assoc, Option.map_some, Option.getD_some, split] at stands ends
    rw [Text.byteLength_append, ← Nat.add_assoc, ← stop] at ends
    refine ⟨_, rest, shown, ?_⟩
    rw [name]
    refine {
      stands := ?stands
      ends := ends
      span := ?span
      first := first
      missing := ?missing
      close := ?closing }
    case stands =>
      rw [stop]
      exact stands.right
    case span =>
      simp [LineIndex.contentAt, stop]
    case missing =>
      intro none
      refine missing ?_
      rw [same] at none
      simpa [LineIndex.tagAt] using none
    case closing =>
      intro token closed
      rw [same] at closed
      obtain ⟨text, own, rfl⟩ := Option.map_eq_some_iff.1 closed
      obtain ⟨starts, bracket⟩ := close text own
      exact ⟨starts, bracket, rfl⟩

/-- Whether every raw element of a document ends where `</` and its name first come; and this is the
first closing tag of its name unless the start of another name comes before. -/
def EndsRawElements (source : Text) (doc : Document) : Prop :=
  ∀ node ∈ doc.nodes, ∀ tag content,
    (node.kind = .script tag content ∨ node.kind = .style tag content) →
    tag.isSelfClosing = false → ∃ own, content = some own ∧
      tag.EndsRaw (Text.startsWithName ('<' :: '/' :: tag.name)) source own ∧
      (tag.EndsRaw (Text.startsClosing tag.name) source own ↔ ¬tag.IsMimicked source)

/-- The raw elements of every document end in this way. -/
theorem endsRawElements_parse (pairs : List Delimiters) (source : Text) :
    (parse pairs source).EndsRawElements source := by
  intro node member tag content kind goesOn
  obtain ⟨tree, within, rfl⟩ := List.mem_map.1 member
  rcases List.mem_cons.1 within with rfl | below
  · simp [parse] at kind
  · obtain ⟨own, rest, shown, raw⟩ := exists_rawUpTo below kind goesOn
    exact ⟨own, shown, ⟨rest, raw⟩, raw.endsRaw_iff⟩

/-- A script ends at `</scripture>`, before its closing tag. -/
theorem raw_ends_at_longer_name :
    let source : Text := "<script></scripture></script>".toList
    ∃ node ∈ (parse [⟨['\x7b', '\x7b'], ['\x7d', '\x7d']⟩] source).nodes, ∃ tag content,
      node.kind = .script tag (some content) ∧ tag.isSelfClosing = false ∧
        tag.close.map Token.text = some "</scripture>".toList ∧
        ¬tag.EndsRaw (Text.startsClosing tag.name) source content := by
  intro source
  let index := LineIndex.ofText source
  let tag := index.tagAt 0 ⟨"script".toList, [], [], .plain⟩
    (some (index.tokenAt 8 "</scripture>".toList))
  let content := index.contentAt 8 ⟨[], []⟩
  let node : Node := ⟨1, some 0, ⟨0, 20⟩, index.extent ⟨0, 20⟩, .script tag (some content)⟩
  have member : node ∈ (parse [⟨['\x7b', '\x7b'], ['\x7d', '\x7d']⟩] source).nodes := by
    decide +kernel
  refine ⟨node, member, tag, content, rfl, rfl, rfl, ?_⟩
  -- The content is empty, so it would be the closing tag of a longer name that closes the script.
  rintro ⟨rest, raw⟩
  have known : source.StandsAt tag.openEnd.span.stop "</scripture></script>".toList :=
    ⟨"<script>".toList, [], by decide, by decide⟩
  have same : rest = "</scripture></script>".toList :=
    raw.stands.eq_of_ends raw.ends known (by decide)
  have closes := (raw.close _ rfl).1
  rw [same] at closes
  exact absurd closes (by decide)

end Document

end TagLint
