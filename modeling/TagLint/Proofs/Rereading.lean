import TagLint.Proofs.TagRereading

/-!
Reading a piece again when what comes after it has changed.

A scanner looks at what it takes and only a little further: past the end of what it takes it may
meet a construct or an opening delimiter that began before. A change after a piece that brings up
neither can not end the piece or make it longer, unless it is text; a text goes on into what it can
take, such as line feeds.
-/
namespace TagLint

open Written (Piece OpenTag Construct isNameEnd)

/-- What matches a name is as long as the name, so nothing after it matters. -/
theorem Text.startsWithName_of_prefix {needle s t : Text}
    (starts : startsWithName needle t = true) (alike : t.take needle.length <+: s) :
    startsWithName needle s = true := by
  have named : startsWithName needle (t.take needle.length) = true := by
    rw [startsWithName, List.take_take, Nat.min_self]
    exact starts
  obtain ⟨r, rfl⟩ := alike
  exact Text.startsWithName_append named r

/-! ### Constructs that begin in what was changed -/

namespace Written

namespace Construct

variable {s t : Text}

private theorem letter_of_fed (lead : Text) {r : Text} (free : '\n' ∉ lead)
    (fed : Fed s (lead ++ r)) (letter : Text.startsWithLetter r = true) :
    ∃ r', s = lead ++ r' ∧ Text.startsWithLetter r' = true := by
  cases r with
  | nil => simp [Text.startsWithLetter] at letter
  | cons c r =>
    have other : '\n' ≠ c := by
      rintro rfl
      simp [Text.startsWithLetter] at letter
    have starts : lead ++ [c] <+: lead ++ c :: r := ⟨r, by simp⟩
    obtain ⟨r', rfl⟩ := Fed.of_prefix fed (by simp [free, other]) starts
    exact ⟨c :: r', by simp, letter⟩

/-- Only what began with a construct before line feeds were put in begins with one. -/
theorem isSome_of_fed (fed : Fed s t) (found : (of? t).isSome = true) : (of? s).isSome = true := by
  obtain ⟨construct, begins⟩ := Option.isSome_iff_exists.1 found
  cases construct with
  | comment =>
    obtain ⟨r, rfl⟩ := Fed.of_prefix fed (by decide) (opens_of_of? begins)
    rw [of?_commentStart]
    rfl
  | doctype =>
    have starts : Text.startsWithName "<!doctype".toList t = true := opens_of_of? begins
    have free := Text.not_mem_of_startsWithName (c := '\n') (by decide) (by decide)
      (by decide) starts
    have again := Text.startsWithName_of_prefix starts
      (Fed.of_prefix fed free (List.take_prefix _ t))
    rw [of?_doctypeName again]
    rfl
  | closing =>
    obtain ⟨r, rfl, letter⟩ := opens_of_of? begins
    obtain ⟨r', rfl, letter'⟩ := letter_of_fed "</".toList (by decide) fed letter
    exact Option.isSome_of_eq_some (of?_letter letter').2
  | opening =>
    obtain ⟨r, rfl, letter⟩ := opens_of_of? begins
    obtain ⟨r', rfl, letter'⟩ := letter_of_fed ['<'] (by decide) fed letter
    exact Option.isSome_of_eq_some (of?_letter letter').1

/-- What begins before an angle bracket, and goes on into it, ends before it. -/
private theorem prefix_of_bracket {needle : Text} {c : Char} {r : Text}
    (bracket : ∀ d ∈ t.head?, d = '<') (free : '<' ∉ needle.tail)
    (starts : needle <+: c :: r ++ t) : needle <+: c :: r := by
  rcases List.prefix_or_prefix_of_prefix starts (List.prefix_append (c :: r) t) with within | beyond
  · exact within
  · obtain ⟨q, rfl⟩ := beyond
    have further : q <+: t := (List.prefix_append_right_inj _).1 starts
    cases q with
    | nil => simp
    | cons d q =>
      obtain ⟨rest, rfl⟩ := further
      have : d = '<' := bracket d rfl
      simp [this] at free

private theorem letter_of_bracket (lead : Text) {c : Char} {r u : Text}
    (bracket : ∀ d ∈ t.head?, d = '<') (shown : c :: r ++ t = lead ++ u) (free : '<' ∉ lead.tail)
    (letter : Text.startsWithLetter u = true) :
    ∃ u', c :: r = lead ++ u' ∧ Text.startsWithLetter u' = true := by
  cases u with
  | nil => simp [Text.startsWithLetter] at letter
  | cons d u =>
    have alpha : d.isAlpha = true := letter
    have other : '<' ≠ d := by
      rintro rfl
      simp at alpha
    have starts : lead ++ [d] <+: c :: r ++ t := ⟨u, by rw [shown]; simp⟩
    have apart : '<' ∉ (lead ++ [d]).tail := by
      cases lead with
      | nil => simp
      | cons e lead => simpa [other] using free
    obtain ⟨u', within⟩ := prefix_of_bracket bracket apart starts
    exact ⟨d :: u', by simp [← within], letter⟩

/-- An angle bracket only begins what matches the start of a doctype. -/
private theorem bracket_not_mem_doctype
    (starts : Text.startsWithName "<!doctype".toList t = true) :
    '<' ∉ (t.take "<!doctype".toList.length).tail := by
  intro member
  have lowered := congrArg List.tail (beq_iff_eq.1 starts)
  have within : '<' ∈ (Text.lower (t.take "<!doctype".toList.length)).tail := by
    rw [Text.lower, ← List.map_tail]
    exact List.mem_map.2 ⟨'<', member, by decide⟩
  rw [lowered] at within
  exact absurd within (by decide)

/-- A construct that begins right before an angle bracket, or the end of the source, does so
whatever comes there. -/
theorem isSome_of_bracket {c : Char} {r : Text} (bracket : ∀ d ∈ t.head?, d = '<')
    (found : (of? (c :: r ++ t)).isSome = true) (s : Text) : (of? (c :: r ++ s)).isSome = true := by
  obtain ⟨construct, begins⟩ := Option.isSome_iff_exists.1 found
  -- No construct has a bracket after its first character, so each of them ends before `t`.
  cases construct with
  | comment =>
    obtain ⟨u, shown⟩ := prefix_of_bracket bracket (by decide) (opens_of_of? begins)
    rw [← shown, List.append_assoc, of?_commentStart]
    rfl
  | doctype =>
    have starts : Text.startsWithName "<!doctype".toList (c :: r ++ t) = true :=
      opens_of_of? begins
    have within := prefix_of_bracket bracket (bracket_not_mem_doctype starts) (List.take_prefix _ _)
    have again := Text.startsWithName_of_prefix starts (within.trans (List.prefix_append _ s))
    rw [of?_doctypeName again]
    rfl
  | closing =>
    obtain ⟨u, shown, letter⟩ := opens_of_of? begins
    obtain ⟨u', within, letter'⟩ :=
      letter_of_bracket "</".toList bracket shown (by decide) letter
    rw [within, List.append_assoc]
    exact Option.isSome_of_eq_some (of?_letter (Text.startsWithLetter_append letter' s)).2
  | opening =>
    obtain ⟨u, shown, letter⟩ := opens_of_of? begins
    obtain ⟨u', within, letter'⟩ := letter_of_bracket ['<'] bracket shown (by decide) letter
    rw [within, List.append_assoc]
    exact Option.isSome_of_eq_some (of?_letter (Text.startsWithLetter_append letter' s)).1

end Construct

/-! ### Pieces other than text -/

namespace Piece

variable {pairs : List Delimiters} {s t w : Text} {piece : Piece}

private theorem comment_stable (left : s ≠ []) (found : Construct.of? (w ++ s) = some .comment)
    (read : scan pairs (w ++ s) = (piece, s)) :
    ∃ piece', scan pairs (w ++ t) = (piece', t) ∧ piece'.bare = piece.bare := by
  obtain ⟨body, whole⟩ := Construct.opens_of_of? found
  rw [← whole] at found read
  have body_eq : ("<!--".toList ++ body).drop 4 = body := rfl
  simp only [scan, found, body_eq, Prod.mk.injEq] at read
  obtain ⟨rfl, rest⟩ := read
  have nonempty : (splitBefore "-->".toList body).2 ≠ [] := by
    intro empty
    rw [empty] at rest
    exact left rest.symm
  obtain ⟨after, shown⟩ := splitBefore_prefix _ _ nonempty
  rw [← shown] at rest
  have same : after = s := rest
  subst same
  -- The comment is closed, since the text goes on after it.
  obtain ⟨b, split⟩ : ∃ b, Text.find? "-->".toList body = some (b, "-->".toList ++ after) := by
    unfold splitBefore at nonempty shown
    cases place : Text.find? "-->".toList body with
    | none =>
      rw [place] at nonempty
      exact absurd rfl nonempty
    | some sides =>
      rw [place] at shown
      exact ⟨sides.1, congrArg some (Prod.ext rfl shown.symm)⟩
  obtain rfl := Text.find?_append split
  have again := Text.find?_stable split t
  have written : w = "<!--".toList ++ (b ++ "-->".toList) := by
    rw [← List.append_assoc, ← List.append_assoc] at whole
    rw [← List.append_assoc]
    exact (List.append_cancel_right whole).symm
  have text : w ++ t = "<!--".toList ++ (b ++ ("-->".toList ++ t)) := by
    rw [written]
    simp
  have body_eq : ("<!--".toList ++ (b ++ ("-->".toList ++ t))).drop 4 =
    b ++ ("-->".toList ++ t) := rfl
  refine ⟨.comment (Fragment.ofText pairs b ("-->".toList ++ t)) true, ?_, ?_⟩
  · rw [text]
    simp only [scan, Construct.of?_commentStart, body_eq, splitBefore, again, Option.getD_some]
    rfl
  · simp only [splitBefore, split, Option.getD_some]
    rfl

private theorem doctype_stable (left : s ≠ []) (found : Construct.of? (w ++ s) = some .doctype)
    (read : scan pairs (w ++ s) = (piece, s)) :
    ∃ piece', scan pairs (w ++ t) = (piece', t) ∧ piece'.bare = piece.bare := by
  have starts : Text.startsWithName "<!doctype".toList (w ++ s) = true :=
    Construct.opens_of_of? found
  simp only [scan, found, Prod.mk.injEq] at read
  obtain ⟨rfl, rest⟩ := read
  obtain ⟨before, isClosed, tail⟩ : ∃ before isClosed, scanBracket (w ++ s) =
    (before, isClosed, s) := ⟨_, _, Prod.ext rfl (Prod.ext rfl rest)⟩
  obtain ⟨whole, rfl, apart, again⟩ := bracket_stable left tail
  have text (z : Text) : w ++ z = before ++ '>' :: z := by
    have bracket : before ++ '>' :: s = before ++ ['>'] ++ s := by simp
    rw [List.append_cancel_right (whole.trans bracket)]
    simp
  -- The name has no closing bracket in it, so it matches what comes before the bracket.
  have named : Text.startsWithName "<!doctype".toList (before ++ '>' :: t) = true := by
    rw [whole] at starts
    have fits := Text.length_le_of_startsWithName (by decide) starts
    rw [Text.startsWithName, List.take_append_of_le_length fits] at starts ⊢
    exact starts
  have split (z : Text) : splitBefore ['>'] (before ++ '>' :: z) = (before, '>' :: z) :=
    splitBefore_bracket apart z
  refine ⟨.doctype (Fragment.ofText pairs (before.drop 2) ('>' :: t)) true, ?_, ?_⟩
  · rw [text]
    simp only [scan, Construct.of?_doctypeName named, split]
    rfl
  · rw [text]
    simp only [split]
    rfl

theorem closing_stable (left : s ≠ []) (found : Construct.of? (w ++ s) = some .closing)
    (read : scan pairs (w ++ s) = (piece, s)) :
    ∃ piece', scan pairs (w ++ t) = (piece', t) ∧ piece'.bare = piece.bare := by
  obtain ⟨r, whole, letter⟩ := Construct.opens_of_of? found
  rw [whole] at found read
  simp only [scan, found, List.drop_succ_cons, List.drop_zero, Prod.mk.injEq] at read
  obtain ⟨rfl, rest⟩ := read
  obtain ⟨tail, isClosed, scanned⟩ : ∃ tail isClosed,
      scanBracket (r.dropWhile fun c => !isNameEnd c) = (tail, isClosed, s) :=
    ⟨_, _, Prod.ext rfl (Prod.ext rfl rest)⟩
  obtain ⟨dropped, rfl, apart, again⟩ := bracket_stable left scanned
  have name := List.takeWhile_append_dropWhile (p := fun c => !isNameEnd c) (l := r)
  rw [dropped] at name
  have spans := span_bracket dropped t
  have text :
      w ++ t = '<' :: '/' :: (r.takeWhile (fun c => !isNameEnd c) ++ (tail ++ '>' :: t)) := by
    have shown : w ++ s =
        '<' :: '/' :: (r.takeWhile (fun c => !isNameEnd c) ++ (tail ++ ['>'])) ++ s := by
      rw [whole]
      conv => lhs; rw [← name]
      simp
    rw [List.append_cancel_right shown]
    simp
  -- What decides that a tag is closed is the letter its name begins with.
  have letterAgain : Text.startsWithLetter
      (r.takeWhile (fun c => !isNameEnd c) ++ (tail ++ '>' :: t)) = true := by
    rw [← List.append_assoc, startsWithLetter_bracket _ t s, List.append_assoc, name]
    exact letter
  refine ⟨_, ?_, rfl⟩
  rw [text]
  simp only [scan, (Construct.of?_letter letterAgain).2, List.drop_succ_cons, List.drop_zero, spans,
    again, scanned]

private theorem opening_stable (quiet : Quiet pairs w s t) (left : s ≠ [])
    (found : Construct.of? (w ++ s) = some .opening) (read : scan pairs (w ++ s) = (piece, s)) :
    ∃ piece', scan pairs (w ++ t) = (piece', t) ∧ piece'.bare = piece.bare := by
  obtain ⟨r, whole, letter⟩ := Construct.opens_of_of? found
  obtain ⟨tag, x, tagRead⟩ : ∃ tag x, OpenTag.scan pairs r = (tag, x) := ⟨_, _, rfl⟩
  rw [whole] at found read
  simp only [scan, found, List.tail_cons, tagRead] at read
  -- The rest after the tag ends like the rest after the piece.
  obtain ⟨u, rfl⟩ : ∃ u, x = u ++ s := by
    split at read
    · split at read
      · exact ⟨[], (Prod.mk.inj read).2⟩
      · have body := RawBody.render_scan pairs tag.name x
        rw [(Prod.mk.inj read).2] at body
        exact ⟨_, body.symm⟩
    · exact ⟨[], (Prod.mk.inj read).2⟩
  obtain ⟨own, rfl, rfl⟩ : ∃ own, r = own ++ (u ++ s) ∧ w = '<' :: (own ++ u) := by
    obtain ⟨own, shown⟩ : ∃ own, tag.render = '<' :: own := ⟨_, rfl⟩
    have written := OpenTag.render_scan pairs r
    rw [tagRead, shown] at written
    have same : own ++ (u ++ s) = r := (List.cons.inj written).2
    refine ⟨own, same.symm, (List.append_left_inj s).1 ?_⟩
    rw [whole, ← same]
    simp
  have within : Quiet pairs (own ++ u) s t := quiet.within (List.suffix_cons '<' _)
  obtain ⟨before, tag', rfl, tagAgain, bare⟩ :=
    openTag_stable within.append_left (by simp [left]) tagRead
  have name := OpenTag.name_of_bare bare
  have raw : tag'.isRaw = tag.isRaw := by simpa using congrArg OpenTag.isRaw bare
  have closes := OpenTag.isSelfClosing_of_bare bare
  have text : '<' :: (before ++ ['>'] ++ u) ++ t = '<' :: (before ++ '>' :: (u ++ t)) := by simp
  have letterAgain : Text.startsWithLetter (before ++ '>' :: (u ++ t)) = true := by
    rw [startsWithLetter_bracket before (u ++ t) (u ++ s)]
    simpa using letter
  have begins := (Construct.of?_letter letterAgain).1
  rw [text]
  simp only [scan, begins, List.tail_cons, tagAgain, raw, closes]
  split at read
  next isRaw =>
    rw [if_pos isRaw]
    split at read
    next alone =>
      obtain ⟨rfl, same⟩ := Prod.mk.inj read
      have nothing : u = [] := List.append_left_eq_self.1 same
      rw [if_pos alone, nothing]
      exact ⟨_, rfl, by simp only [Piece.bare, bare, Option.map_none]⟩
    next waits =>
      obtain ⟨rfl, same⟩ := Prod.mk.inj read
      have free : '>' ∉ tag.name := by
        obtain ⟨rfl, _⟩ := Prod.mk.inj tagRead
        intro member
        exact absurd (List.all_eq_true.1 List.all_takeWhile '>' member) (by decide)
      obtain ⟨v, body', split, bodyAgain, bodyBare⟩ := rawBody_stable (y := t) left free
        (Prod.ext rfl same)
      obtain rfl : u = v := List.append_cancel_right split
      rw [if_neg waits, name, bodyAgain]
      exact ⟨_, rfl, by simp only [Piece.bare, bare, Option.map_some, bodyBare]⟩
  next plain =>
    obtain ⟨rfl, same⟩ := Prod.mk.inj read
    have nothing : u = [] := List.append_left_eq_self.1 same
    rw [if_neg plain, nothing]
    exact ⟨_, rfl, by simp only [Piece.bare, bare]⟩

/-- A piece that is not text is read again whatever comes after it. -/
theorem scan_stable (quiet : Quiet pairs piece.render s t) (left : s ≠ [])
    (solid : piece.isText = false) (read : scan pairs (piece.render ++ s) = (piece, s)) :
    ∃ piece', scan pairs (piece.render ++ t) = (piece', t) ∧ piece'.bare = piece.bare := by
  cases found : Construct.of? (piece.render ++ s) with
  | none =>
    have text := isText_scan pairs (piece.render ++ s)
    rw [read, found, solid] at text
    contradiction
  | some construct =>
    cases construct with
    | comment => exact comment_stable left found read
    | doctype => exact doctype_stable left found read
    | closing => exact closing_stable left found read
    | opening => exact opening_stable quiet left found read

/-! ### Texts -/

theorem endsContent_of_isSome (plain : OpenersPlain pairs)
    (begins : (Construct.of? t).isSome = true) : endsContent pairs t = true := by
  have unopened : Template.opener? pairs t [] = none := by
    apply Template.opener?_eq_none_iff.2
    intro pair member nonempty starts
    obtain ⟨rest, rfl⟩ := starts
    rw [plain pair member nonempty rest] at begins
    contradiction
  simp only [endsContent, begins, unopened, Option.isNone_none, Bool.and_self]

theorem skim_feedIf (clear : OpenersClear pairs) (put : Bool) (t : Text) :
    Template.skim pairs (endsContent pairs) (feedIf put ++ t) =
      (feedIf put ++ (Template.skim pairs (endsContent pairs) t).1,
        (Template.skim pairs (endsContent pairs) t).2) := by
  cases put with
  | false => rfl
  | true =>
    have plain : Construct.of? ('\n' :: t) = none := Construct.of?_plain (by decide) t
    have unopened : Template.opener? pairs ('\n' :: t) [] = none := by
      apply Template.opener?_eq_none_iff.2
      intro pair member nonempty starts
      obtain ⟨c, opening, shown⟩ := List.exists_cons_of_ne_nil nonempty
      rw [shown, List.cons_prefix_cons] at starts
      exact clear.unfed pair member (by rw [shown, starts.1]; exact List.mem_cons_self)
    have runs : endsContent pairs ('\n' :: t) = false := by simp [endsContent, plain]
    have shown : feedIf true ++ t = '\n' :: t := rfl
    rw [shown, Template.skim_char runs (Template.region?_eq_none_iff.2 unopened)]
    rfl

/-- A line feed before a construct is a text. -/
theorem scan_feed (clear : OpenersClear pairs) (stops : endsContent pairs t = true) :
    ∃ content, scan pairs ('\n' :: t) = (.text content, t) ∧ content.text = ['\n'] := by
  have plain : Construct.of? ('\n' :: t) = none := Construct.of?_plain (by decide) t
  have skimmed := skim_feedIf clear true t
  rw [Template.skim_stop pairs stops] at skimmed
  have shown : feedIf true ++ t = '\n' :: t := rfl
  rw [shown] at skimmed
  simp only [scan, plain, skimmed]
  exact ⟨_, rfl, rfl⟩

/-- A text that was read is what skimming passes over, and does not begin with a construct. -/
theorem skim_of_scan_text {content : Fragment}
    (read : scan pairs (content.text ++ s) = (.text content, s)) :
    Construct.of? (content.text ++ s) = none ∧
      Template.skim pairs (endsContent pairs) (content.text ++ s) = (content.text, s) := by
  have plain : Construct.of? (content.text ++ s) = none := by
    have text := isText_scan pairs (content.text ++ s)
    rw [read] at text
    exact Option.isNone_iff_eq_none.1 text.symm
  refine ⟨plain, ?_⟩
  simp only [scan, plain, Prod.mk.injEq] at read
  have joined := Template.skim_append pairs (endsContent pairs) (content.text ++ s)
  rw [read.2] at joined
  exact Prod.ext (List.append_cancel_right joined) read.2

/-- Skimming passes over a text and goes on into what comes after it, where the change brings up no
construct that begins in the text. -/
theorem skim_text_stable {x : Text} (quiet : Quiet pairs x s t) (left : s ≠ [])
    (begins : ∀ c r, c :: r <:+ x → (Construct.of? (c :: r ++ t)).isSome = true →
      (Construct.of? (c :: r ++ s)).isSome = true)
    (read : Template.skim pairs (endsContent pairs) (x ++ s) = (x, s)) :
    Template.skim pairs (endsContent pairs) (x ++ t) =
      (x ++ (Template.skim pairs (endsContent pairs) t).1,
        (Template.skim pairs (endsContent pairs) t).2) := by
  refine Template.skim_stable quiet (fun last => absurd last left) (fun c r suffix same runs => ?_)
    read
  simp only [endsContent] at runs ⊢
  rw [← Option.not_isSome] at runs ⊢
  rw [← same]
  rw [Bool.and_eq_false_iff] at runs ⊢
  apply runs.imp_left
  intro unmarked
  rw [Bool.eq_false_iff] at unmarked ⊢
  exact fun here => unmarked (begins c r suffix here)

/-- A text takes the line feeds that are put right before and right after it. -/
theorem scan_text_stable (clear : OpenersClear pairs) (fed : Fed s t) {content : Fragment}
    (lead tail : Bool) (stops : s ≠ [] → endsContent pairs t = true)
    (ends : s = [] → feedIf tail ++ t = [])
    (read : scan pairs (content.text ++ s) = (.text content, s)) :
    ∃ content',
      scan pairs (feedIf lead ++ content.text ++ feedIf tail ++ t) = (.text content', t) ∧
        content'.text = feedIf lead ++ content.text ++ feedIf tail := by
  have onward : Fed s (feedIf tail ++ t) := fed.feedIf tail
  have whole : feedIf lead ++ content.text ++ feedIf tail ++ t =
      feedIf lead ++ (content.text ++ (feedIf tail ++ t)) := by
    simp
  obtain ⟨plain, skimmed⟩ := skim_of_scan_text read
  have plainAgain : Construct.of? (feedIf lead ++ (content.text ++ (feedIf tail ++ t))) = none := by
    rw [← Option.not_isSome_iff_eq_none] at plain ⊢
    intro begins
    exact plain (Construct.isSome_of_fed ((onward.append_left content.text).feedIf lead) begins)
  have again : Template.skim pairs (endsContent pairs) (content.text ++ (feedIf tail ++ t)) =
      (content.text ++ feedIf tail, t) := by
    by_cases left : s = []
    · -- The text ends the source, and nothing is put in after it.
      have nothing := List.append_eq_nil_iff.1 (ends left)
      rw [nothing.1, nothing.2, List.append_nil, List.append_nil]
      rwa [left, List.append_nil] at skimmed
    · -- A place inside the text begins no construct now, so it begins none with line feeds.
      rw [skim_text_stable (onward.quiet clear _) left (fun c r _ begins =>
        Construct.isSome_of_fed ((onward.append_left r).keep c) begins) skimmed,
        skim_feedIf clear, Template.skim_stop pairs (stops left), List.append_nil]
  rw [whole]
  simp only [scan, plainAgain, skim_feedIf clear, again, List.append_assoc]
  exact ⟨_, rfl, rfl⟩

/-- A list of pieces that does not begin with text begins with a construct. -/
theorem Reads.begins {pieces : List Piece} (reads : Reads pairs pieces) (full : pieces ≠ [])
    (other : ∀ piece ∈ pieces.head?, piece.isText = false) :
    (Construct.of? (renderAll pieces)).isSome = true := by
  obtain ⟨piece, others, rfl⟩ := List.exists_cons_of_ne_nil full
  have text := isText_scan pairs (piece.render ++ renderAll others)
  rw [reads.2.1, other piece rfl] at text
  have found : (!(Construct.of? (piece.render ++ renderAll others)).isNone) = true := by
    rw [← text]
    rfl
  rwa [Option.not_isNone] at found

/-- A text that others come after ends where a construct begins, and no template region. -/
theorem Reads.stops {content : Fragment} {others : List Piece}
    (reads : Reads pairs (.text content :: others)) (left : renderAll others ≠ []) :
    endsContent pairs (renderAll others) = true := by
  have ended := Template.skim_stops pairs (endsContent pairs) (content.text ++ renderAll others)
  rw [(skim_of_scan_text reads.2.1).2] at ended
  exact ended left

/-- What ended a text ends it with the change, if it begins with no text. -/
theorem Reads.endsContent_of_quiet {w : Text} {pieces : List Piece} (reads : Reads pairs pieces)
    (other : ∀ first ∈ pieces.head?, first.isText = false) (shown : renderAll pieces = w ++ t)
    (full : w ≠ []) (quiet : Quiet pairs w s t) (ended : endsContent pairs (w ++ s) = true) :
    endsContent pairs (renderAll pieces) = true := by
  have begins : (Construct.of? (renderAll pieces)).isSome = true := by
    refine reads.begins ?_ other
    rintro rfl
    exact full (List.append_eq_nil_iff.1 shown.symm).1
  have unopened := (Bool.and_eq_true_iff.1 ended).2
  rw [Option.isNone_iff_eq_none] at unopened
  rw [endsContent, begins, shown, Template.opener?_eq_none_of_quiet quiet full unopened]
  rfl

/-- A text ends where the pieces that come after it have changed, if these end it. -/
private theorem text_stable {content : Fragment} {others others' : List Piece}
    (reads : Reads pairs (.text content :: others))
    (quiet : Quiet pairs content.text (renderAll others) (renderAll others'))
    (left : renderAll others ≠ []) (stops : endsContent pairs (renderAll others') = true) :
    ∃ content', scan pairs (content.text ++ renderAll others') =
        (.text content', renderAll others') ∧ content'.text = content.text := by
  obtain ⟨plain, skimmed⟩ := skim_of_scan_text reads.2.1
  have begins : (Construct.of? (renderAll others')).isSome = true :=
    (Bool.and_eq_true_iff.1 stops).1
  have bracket : ∀ d ∈ (renderAll others').head?, d = '<' := by
    intro d first
    have head := Construct.head_of_isSome begins
    rw [Option.mem_def.1 first] at head
    exact Option.some.inj head
  have again : Template.skim pairs (endsContent pairs) (content.text ++ renderAll others') =
      (content.text, renderAll others') := by
    rw [skim_text_stable quiet left
      (fun c r _ begins => Construct.isSome_of_bracket bracket begins _) skimmed,
      Template.skim_stop pairs stops, List.append_nil]
  have plainAgain : Construct.of? (content.text ++ renderAll others') = none := by
    obtain ⟨c, r, own⟩ := List.exists_cons_of_ne_nil reads.1
    have own : content.text = c :: r := own
    rw [← Option.not_isSome_iff_eq_none] at plain ⊢
    rw [own] at plain ⊢
    exact fun begins => plain (Construct.isSome_of_bracket bracket begins _)
  refine ⟨Fragment.ofText pairs content.text (renderAll others'), ?_, rfl⟩
  simp only [scan, plainAgain, again]

/-! ### Pieces before others -/

/-- A piece is read again before other pieces, where these bring up no opening delimiter, and end a
text that those before ended. -/
theorem Reads.keep {others others' : List Piece} (reads : Reads pairs (piece :: others))
    (reads' : Reads pairs others')
    (quiet : Quiet pairs piece.render (renderAll others) (renderAll others'))
    (ends : others = [] → others' = [])
    (stops : piece.isText = true → endsContent pairs (renderAll others) = true →
      endsContent pairs (renderAll others') = true) :
    ∃ piece', Reads pairs (piece' :: others') ∧ piece'.bare = piece.bare := by
  obtain ⟨nonempty, read, further⟩ := reads
  by_cases last : others = []
  · -- At the end of the source a piece may be unfinished, but nothing comes after it now either.
    obtain rfl := last
    rw [ends rfl]
    exact ⟨piece, ⟨nonempty, read, trivial⟩, rfl⟩
  · have left : renderAll others ≠ [] := fun empty => last (further.eq_nil empty)
    cases text : piece.isText with
    | true =>
      cases piece with
      | text content =>
        have whole : Reads pairs (.text content :: others) := ⟨nonempty, read, further⟩
        obtain ⟨content', again, own⟩ :=
          text_stable whole quiet left (stops text (whole.stops left))
        exact ⟨.text content', reads'.cons own nonempty again,
          congrArg (fun own => Piece.text ⟨own, []⟩) own⟩
      | _ => contradiction
    | false =>
      obtain ⟨piece', again, bare⟩ := scan_stable quiet left text read
      exact ⟨piece', reads'.cons (render_of_bare bare) nonempty again, bare⟩

theorem Reads.keep_opening {tag : OpenTag} {others others' : List Piece}
    (reads : Reads pairs (.opening tag :: others)) (reads' : Reads pairs others')
    (quiet : Quiet pairs tag.render (renderAll others) (renderAll others'))
    (ends : others = [] → others' = []) :
    ∃ tag' : OpenTag, Reads pairs (.opening tag' :: others') ∧ tag'.bare = tag.bare := by
  obtain ⟨piece', readsPiece, same⟩ := reads.keep reads' quiet ends fun text =>
    absurd text Bool.false_ne_true
  cases piece' with
  | opening tag' => exact ⟨tag', readsPiece, Piece.opening.inj same⟩
  | _ => simp [Piece.bare] at same

theorem renderAll_of_bare {pieces pieces' : List Piece}
    (bare : pieces'.map Piece.bare = pieces.map Piece.bare) :
    renderAll pieces' = renderAll pieces := by
  have shown (pieces : List Piece) : renderAll pieces = renderAll (pieces.map Piece.bare) := by
    simp [renderAll, List.flatMap_map, render_bare]
  rw [shown, bare, ← shown]

/-- What is read again ends a text as before. -/
theorem Reads.endsContent_of_bare {piece' : Piece} {others others' : List Piece}
    (reads : Reads pairs (piece :: others)) (reads' : Reads pairs (piece' :: others'))
    (bare : piece'.bare = piece.bare)
    (quiet : Quiet pairs piece.render (renderAll others) (renderAll others'))
    (ended : endsContent pairs (renderAll (piece :: others)) = true) :
    endsContent pairs (renderAll (piece' :: others')) = true := by
  refine reads'.endsContent_of_quiet ?_ ?_ reads.1 quiet ended
  · rintro _ ⟨⟩
    have begins := (Bool.and_eq_true_iff.1 ended).1
    have text := isText_scan pairs (piece.render ++ renderAll others)
    rw [reads.2.1, ← isText_bare, ← bare, isText_bare] at text
    rw [renderAll_cons, ← Option.isNone_eq_false_iff] at begins
    exact text.trans begins
  · rw [renderAll_cons, render_of_bare bare]

/-- Pieces are read again before others that end a text where those before did. -/
theorem Reads.keep_all {before others others' : List Piece}
    (reads : Reads pairs (before ++ others)) (reads' : Reads pairs others')
    (quiet : Quiet pairs (renderAll before) (renderAll others) (renderAll others'))
    (ends : others = [] → others' = [])
    (stops : endsContent pairs (renderAll others) = true →
      endsContent pairs (renderAll others') = true) :
    ∃ before', Reads pairs (before' ++ others') ∧
      before'.map Piece.bare = before.map Piece.bare ∧
      (endsContent pairs (renderAll (before ++ others)) = true →
        endsContent pairs (renderAll (before' ++ others')) = true) := by
  -- From the last piece to the first: each is read before those that are already read again.
  induction before with
  | nil => exact ⟨[], reads', rfl, stops⟩
  | cons piece before ih =>
    rw [renderAll_cons] at quiet
    obtain ⟨before', readsBefore, bare, stopsBefore⟩ :=
      ih reads.2.2 (quiet.within (List.suffix_append _ _))
    have onward : Quiet pairs piece.render (renderAll (before ++ others))
        (renderAll (before' ++ others')) := by
      rw [renderAll_append, renderAll_append, renderAll_of_bare bare]
      exact quiet.append_left
    have finished : before ++ others = [] → before' ++ others' = [] := by
      intro empty
      obtain ⟨rfl, none_left⟩ := List.append_eq_nil_iff.1 empty
      simp_all
    obtain ⟨piece', readsPiece, samePiece⟩ :=
      Reads.keep reads readsBefore onward finished fun _ => stopsBefore
    exact ⟨piece' :: before', readsPiece, by simp [samePiece, bare],
      reads.endsContent_of_bare readsPiece samePiece onward⟩

end Piece

end Written

end TagLint
