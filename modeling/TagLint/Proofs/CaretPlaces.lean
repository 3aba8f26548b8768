import TagLint.Output.TextForm
import TagLint.Proofs.ContentLines
import TagLint.Proofs.DiagnosticPlaces

/-!
Where the carets stand.

Two lines show a finding in its source: the line that it starts on, behind a number and a bar, and
carets behind a margin and a bar. The carets stand below what is reported if the bars stand below
each other and the first caret comes as many characters after its bar as the report after the other
one. The margin fits numbers of up to four digits, and the blanks before the carets are as many as
there are bytes before the report, so that neither holds of every finding; what they need is proved
of every engine and source (`Engine.isShown_of_mem_lint`).
-/
namespace TagLint

namespace Text

/-! ### Places in a line -/

/-- The number of characters before the bar. -/
def barColumn (t : Text) : Nat :=
  (t.takeWhile (· != '|')).length

/-- The number of characters before the first caret. -/
def caretColumn (t : Text) : Nat :=
  (t.takeWhile (· != '^')).length

/-- The number of characters between the bar, with the blank after it, and the first caret. -/
def caretGap (t : Text) : Nat :=
  (((t.dropWhile (· != '|')).drop 2).takeWhile (· != '^')).length

section Absent

variable {c : Char} {s : Text}

theorem forall_bne_of_notMem (absent : c ∉ s) : ∀ d ∈ s, (d != c) = true := by
  intro d member
  rw [bne_iff_ne]
  rintro rfl
  exact absent member

theorem takeWhile_bne_append (absent : c ∉ s) (t : Text) :
    (s ++ c :: t).takeWhile (· != c) = s := by
  simp [List.takeWhile_append_of_pos (forall_bne_of_notMem absent)]

/-- A text starts with one line only. -/
theorem line_unique {line line' rest rest' : Text} (unbroken : '\n' ∉ line)
    (unbroken' : '\n' ∉ line') (same : line ++ '\n' :: rest = line' ++ '\n' :: rest') :
    line = line' ∧ rest = rest' := by
  have first := congrArg (List.takeWhile (· != '\n')) same
  rw [takeWhile_bne_append unbroken, takeWhile_bne_append unbroken'] at first
  subst first
  simpa using same

end Absent

/-! ### Bytes and characters -/

theorem length_le_byteLength (t : Text) : t.length ≤ t.byteLength := by
  induction t with
  | nil => exact Nat.le_refl _
  | cons c t ih =>
    have := Char.utf8Size_pos c
    rw [List.length_cons, byteLength_cons]
    omega

/-- There are as many bytes as characters if each character is one byte. -/
theorem byteLength_eq_length_iff (t : Text) :
    t.byteLength = t.length ↔ ∀ c ∈ t, c.utf8Size = 1 := by
  induction t with
  | nil => simp
  | cons c t ih =>
    have := Char.utf8Size_pos c
    have := length_le_byteLength t
    rw [List.forall_mem_cons, ← ih, byteLength_cons, List.length_cons]
    omega

theorem eq_nil_of_byteLength {t : Text} (none : t.byteLength = 0) : t = [] := by
  by_contra some
  have := byteLength_pos some
  omega

/-- A place divides a text in one way. -/
theorem append_inj_of_byteLength {s s' t t' : Text} (joined : s ++ t = s' ++ t')
    (size : s.byteLength = s'.byteLength) : s = s' := by
  rcases List.append_eq_append_iff.1 joined with ⟨gap, rfl, _⟩ | ⟨gap, rfl, _⟩
  all_goals
    rw [byteLength_append] at size
    obtain rfl := eq_nil_of_byteLength (t := gap) (by omega)
    simp

/-! ### The line of a place -/

/-- The line that a place is on is what stands since the last line feed before it, and up to the
next one. -/
theorem eq_of_hasLineAt {source before after line : Text} (divided : source = before ++ after)
    (stands : source.HasLineAt before.byteLength line) :
    line = before.sinceFeed ++ after.takeWhile (· != '\n') := by
  obtain ⟨earlier, later, split, begins, unbroken, ends, lower, upper⟩ := stands
  rw [divided, List.append_assoc] at split
  -- The place is not before the line and not after it, so it divides the line.
  obtain ⟨left, rfl, rest⟩ : ∃ left, before = earlier ++ left ∧ line ++ later = left ++ after := by
    rcases List.append_eq_append_iff.1 split with ⟨gap, rfl, rest⟩ | ⟨left, shown, rest⟩
    · rw [byteLength_append] at lower
      obtain rfl := eq_nil_of_byteLength (t := gap) (by omega)
      exact ⟨[], by simp, by simpa using rest.symm⟩
    · exact ⟨left, shown, rest⟩
  obtain ⟨right, rfl, rfl⟩ : ∃ right, line = left ++ right ∧ after = right ++ later := by
    rcases List.append_eq_append_iff.1 rest with ⟨gap, rfl, rest⟩ | ⟨right, shown, rest⟩
    · rw [byteLength_append, byteLength_append] at upper
      obtain rfl := eq_nil_of_byteLength (t := gap) (by omega)
      exact ⟨[], by simp, by simpa using rest.symm⟩
    · exact ⟨right, shown, rest⟩
  rw [List.mem_append, not_or] at unbroken
  have since : (earlier ++ left).sinceFeed = left := by
    rw [sinceFeed_append_of_notMem earlier unbroken.1]
    rcases begins with rfl | ⟨lines, rfl⟩
    · rfl
    · rw [sinceFeed_feed, List.nil_append]
  have upto : (right ++ later).takeWhile (· != '\n') = right := by
    rcases ends with rfl | ⟨others, rfl⟩
    · rw [List.append_nil, List.takeWhile_eq_self_iff]
      exact forall_bne_of_notMem unbroken.2
    · exact takeWhile_bne_append unbroken.2 others
  rw [since, upto]

theorem dropFinal_append_of_ne_nil (c : Char) (s : Text) {t : Text} (some : t ≠ []) :
    (s ++ t).dropFinal c = s ++ t.dropFinal c := by
  unfold dropFinal
  rw [List.getLast?_append_of_ne_nil s some, List.dropLast_append_of_ne_nil some]
  split <;> rfl

theorem length_dropFinal_lt {c : Char} {t : Text} (final : t.getLast? = some c) :
    (t.dropFinal c).length < t.length := by
  have some : t ≠ [] := by
    rintro rfl
    cases final
  have := List.length_pos_iff.2 some
  rw [dropFinal, if_pos final, List.length_dropLast]
  omega

/-- Unless the final character stands right before a place at the end, dropping it leaves the part
before that place whole. -/
theorem dropFinal_append {c : Char} {s t : Text} (kept : ¬(s.getLast? = some c ∧ t = [])) :
    (s ++ t).dropFinal c = s ++ t.dropFinal c := by
  by_cases none : t = []
  · subst none
    have other : s.getLast? ≠ some c := fun final => kept ⟨final, rfl⟩
    rw [List.append_nil, dropFinal, if_neg other]
    exact (List.append_nil s).symm
  · exact dropFinal_append_of_ne_nil c s none

/-- The part before a place is all there after dropping a final character, unless that stands right
before the place at the end. -/
theorem length_le_dropFinal_iff {c : Char} {s t : Text} :
    s.length ≤ ((s ++ t).dropFinal c).length ↔ ¬(s.getLast? = some c ∧ t = []) := by
  constructor
  · rintro within ⟨final, rfl⟩
    have := length_dropFinal_lt final
    rw [List.append_nil] at within
    omega
  · intro kept
    rw [dropFinal_append kept, List.length_append]
    exact Nat.le_add_right _ _

end Text

/-! ### The two lines of a finding -/

/-- The two lines that show where a finding is, as they are printed below its headline, and the
place in the source that they tell of. -/
structure SourceView (form : TextForm) (source : Text) (d : Diagnostic) where
  /-- The source before the start of the finding. -/
  before : Text
  after : Text
  /-- The source line without its number. -/
  line : Text
  /-- The source line as it is printed. -/
  numbered : Text
  carets : Text
  remarks : Text
  source_eq : source = before ++ after
  start : before.byteLength = d.span.start
  sourceLine : d.sourceLine = some line
  printed : form.diagnosticText d =
    form.headline d ++ (numbered ++ '\n' :: (carets ++ '\n' :: remarks))
  unbroken : '\n' ∉ numbered ∧ '\n' ∉ carets

namespace TextForm

theorem notMem_decimal {c : Char} (other : c.isDigit = false) (n : Nat) : c ∉ decimal n := by
  intro member
  have digit := Nat.isDigit_of_mem_toDigits (by omega) (by omega) member
  rw [other] at digit
  cases digit

theorem notMem_lineNumber {c : Char} (other : c.isDigit = false) (inked : c ≠ ' ') (n : Nat) :
    c ∉ lineNumber n := by
  simp [lineNumber, List.mem_replicate, inked, notMem_decimal other]

/-- Only numbers with more than four digits are wider. -/
theorem length_lineNumber_eq_iff (n : Nat) : (lineNumber n).length = 4 ↔ n < 10000 := by
  have digits : (decimal n).length ≤ 4 ↔ n < 10 ^ 4 :=
    Nat.length_toDigits_le_iff (by decide) (by decide)
  rw [lineNumber, List.length_append, List.length_replicate]
  omega

/-- The source line behind its number. -/
def numberedLine (d : Diagnostic) (line : Text) : Text :=
  lineNumber d.location.line ++ ' ' :: '|' :: ' ' :: line

/-- The carets behind the margin. -/
def caretLine (d : Diagnostic) : Text :=
  List.replicate 5 ' ' ++ '|' :: ' ' :: List.replicate (d.location.column - 1) ' ' ++
    List.replicate (max d.location.length 1) '^'

theorem barColumn_numberedLine (d : Diagnostic) (line : Text) :
    (numberedLine d line).barColumn = (lineNumber d.location.line).length + 1 := by
  have absent : '|' ∉ lineNumber d.location.line ++ [' '] := by
    simp [notMem_lineNumber (c := '|') (by decide) (by decide)]
  have first := Text.takeWhile_bne_append absent (' ' :: line)
  rw [List.append_assoc] at first
  rw [Text.barColumn, numberedLine]
  exact (congrArg List.length first).trans List.length_append

theorem barColumn_caretLine (d : Diagnostic) : (caretLine d).barColumn = 5 := rfl

theorem takeWhile_carets {margin : Text} (absent : '^' ∉ margin) (n : Nat) :
    (margin ++ List.replicate n '^').takeWhile (· != '^') = margin := by
  rw [List.takeWhile_append_of_pos (Text.forall_bne_of_notMem absent)]
  simp

theorem caretGap_caretLine (d : Diagnostic) : (caretLine d).caretGap = d.location.column - 1 := by
  have absent : '^' ∉ List.replicate (d.location.column - 1) ' ' := by simp [List.mem_replicate]
  have blanks := takeWhile_carets absent (max d.location.length 1)
  exact (congrArg List.length blanks).trans List.length_replicate

theorem caretColumn_caretLine (d : Diagnostic) :
    (caretLine d).caretColumn = 7 + (d.location.column - 1) := by
  have absent : '^' ∉ List.replicate 5 ' ' ++ '|' :: ' ' ::
      List.replicate (d.location.column - 1) ' ' := by
    simp [List.mem_replicate]
  have margin := takeWhile_carets absent (max d.location.length 1)
  rw [Text.caretColumn, caretLine, margin]
  simp
  omega

theorem unbroken_caretLine (d : Diagnostic) : '\n' ∉ caretLine d := by
  simp [caretLine, List.mem_replicate]

theorem unbroken_numberedLine (d : Diagnostic) {line : Text} (unbroken : '\n' ∉ line) :
    '\n' ∉ numberedLine d line := by
  simp [numberedLine, unbroken, notMem_lineNumber (c := '\n') (by decide) (by decide)]

/-- Without color the two lines are printed as they are. -/
theorem exists_diagnosticText {form : TextForm} {d : Diagnostic} {line : Text}
    (plain : form.isColored = false) (shows : form.showsSource = true)
    (placed : 0 < d.location.column) (sourceLine : d.sourceLine = some line) :
    ∃ remarks, form.diagnosticText d =
      form.headline d ++ (numberedLine d line ++ '\n' :: (caretLine d ++ '\n' :: remarks)) := by
  simp only [diagnosticText, sourceLine, shows, if_true, sourceText, caretText, gt_iff_lt, placed,
    bar, paint, TextStyle.paint, plain, Bool.false_eq_true, if_false, numberedLine, caretLine,
    List.append_assoc, List.cons_append, List.nil_append]
  exact ⟨_, rfl⟩

end TextForm

theorem Text.notMem_dropFinal {c : Char} (d : Char) {t : Text} (absent : c ∉ t) :
    c ∉ t.dropFinal d := by
  unfold dropFinal
  split
  · exact fun member => absent (List.mem_of_mem_dropLast member)
  · exact absent

namespace SourceView

variable {form : TextForm} {path : String} {source : Text} {d : Diagnostic}

/-- Whether the two bars stand below each other. -/
def AlignsBars (view : SourceView form source d) : Prop :=
  view.numbered.barColumn = view.carets.barColumn

/-- Whether the first caret comes as many characters after its bar as the finding starts after the
bar of the source line. -/
def PointsAtStart (view : SourceView form source d) : Prop :=
  view.carets.caretGap = (view.line.take view.before.sinceFeed.length).length

/-- Whether the finding starts after a carriage return at the end of its line, which is not
printed. -/
def IsAfterReturn (view : SourceView form source d) : Prop :=
  view.before.sinceFeed.getLast? = some '\r' ∧ view.after.takeWhile (· != '\n') = []

/-- How the two lines of a finding stand to each other. -/
structure IsShown (view : SourceView form source d) : Prop where
  /-- The printed line is what stands before and after the start on its line. -/
  line : view.line =
    (view.before.sinceFeed ++ view.after.takeWhile (· != '\n')).dropFinal '\r'
  /-- It is printed after a bar, the first of the line, and a blank. -/
  numbered : ∃ number, '|' ∉ number ∧ view.numbered = number ++ '|' :: ' ' :: view.line
  /-- The bars stand below each other for line numbers of up to four digits. -/
  bars : view.AlignsBars ↔ d.location.line < 10000
  /-- The first caret comes where the finding starts if what is before it on its line has one byte
  for each character and is printed. -/
  carets : view.PointsAtStart ↔
    (∀ c ∈ view.before.sinceFeed, c.utf8Size = 1) ∧ ¬view.IsAfterReturn
  /-- If both are so, what the finding starts with stands above the first caret, or nothing at the
  end of the line. -/
  above : view.AlignsBars → view.PointsAtStart →
    view.numbered.drop view.carets.caretColumn =
      Text.dropFinal '\r' (view.after.takeWhile (· != '\n'))

/-- The printed line of a finding that is shown where it is. -/
theorem line_eq (view : SourceView form source d) (coherent : d.IsCoherent path source) :
    view.line = (view.before.sinceFeed ++ view.after.takeWhile (· != '\n')).dropFinal '\r' := by
  obtain ⟨line, stands, shown⟩ := coherent.sourceLine
  rw [← view.start] at stands
  have same : some view.line = some (line.dropFinal '\r') := view.sourceLine.symm.trans shown
  rw [← Text.eq_of_hasLineAt view.source_eq stands]
  exact Option.some.inj same

theorem unbroken_line (view : SourceView form source d) (coherent : d.IsCoherent path source) :
    '\n' ∉ view.line := by
  obtain ⟨line, ⟨_, _, _, _, unbroken, _⟩, shown⟩ := coherent.sourceLine
  have same : some view.line = some (line.dropFinal '\r') := view.sourceLine.symm.trans shown
  rw [Option.some.inj same]
  exact Text.notMem_dropFinal '\r' unbroken

/-- The blanks before the carets count the bytes before the finding. -/
theorem column_eq (view : SourceView form source d) (coherent : d.IsCoherent path source) :
    d.location.column = view.before.sinceFeed.byteLength + 1 := by
  obtain ⟨before, after, split, size, _, column⟩ := coherent.start
  have same : before = view.before := Text.append_inj_of_byteLength
    (split.symm.trans view.source_eq) (size.trans view.start.symm)
  rw [column, same]

/-- The lines are what the form makes of the finding. -/
theorem lines_eq (view : SourceView form source d) (coherent : d.IsCoherent path source)
    (plain : form.isColored = false) (shows : form.showsSource = true) :
    view.numbered = TextForm.numberedLine d view.line ∧ view.carets = TextForm.caretLine d := by
  have placed : 0 < d.location.column := by
    rw [view.column_eq coherent]
    exact Nat.succ_pos _
  obtain ⟨remarks, printed⟩ := TextForm.exists_diagnosticText plain shows placed view.sourceLine
  have below := List.append_cancel_left (view.printed.symm.trans printed)
  obtain ⟨numbered, below⟩ := Text.line_unique view.unbroken.1
    (TextForm.unbroken_numberedLine d (view.unbroken_line coherent)) below
  exact ⟨numbered, (Text.line_unique view.unbroken.2 (TextForm.unbroken_caretLine d) below).1⟩

theorem alignsBars_iff (view : SourceView form source d) (coherent : d.IsCoherent path source)
    (plain : form.isColored = false) (shows : form.showsSource = true) :
    view.AlignsBars ↔ d.location.line < 10000 := by
  obtain ⟨numbered, carets⟩ := view.lines_eq coherent plain shows
  rw [AlignsBars, numbered, carets, TextForm.barColumn_numberedLine, TextForm.barColumn_caretLine,
    ← TextForm.length_lineNumber_eq_iff]
  omega

theorem pointsAtStart_iff (view : SourceView form source d) (coherent : d.IsCoherent path source)
    (plain : form.isColored = false) (shows : form.showsSource = true) :
    view.PointsAtStart ↔
      (∀ c ∈ view.before.sinceFeed, c.utf8Size = 1) ∧ ¬view.IsAfterReturn := by
  have bytes := Text.length_le_byteLength view.before.sinceFeed
  rw [PointsAtStart, (view.lines_eq coherent plain shows).2, TextForm.caretGap_caretLine,
    view.column_eq coherent, List.length_take, ← Text.byteLength_eq_length_iff, IsAfterReturn,
    ← Text.length_le_dropFinal_iff, ← view.line_eq coherent]
  omega

/-- Under an aligned bar a caret that comes where the finding starts stands under its text. -/
theorem drop_caretColumn (view : SourceView form source d) (coherent : d.IsCoherent path source)
    (plain : form.isColored = false) (shows : form.showsSource = true)
    (aligned : view.AlignsBars) (points : view.PointsAtStart) :
    view.numbered.drop view.carets.caretColumn =
      Text.dropFinal '\r' (view.after.takeWhile (· != '\n')) := by
  obtain ⟨numbered, carets⟩ := view.lines_eq coherent plain shows
  have number := (TextForm.length_lineNumber_eq_iff _).2
    ((view.alignsBars_iff coherent plain shows).1 aligned)
  obtain ⟨narrow, kept⟩ := (view.pointsAtStart_iff coherent plain shows).1 points
  have column : view.carets.caretColumn =
      (TextForm.lineNumber d.location.line ++ [' ', '|', ' ']).length +
        view.before.sinceFeed.length := by
    rw [carets, TextForm.caretColumn_caretLine, view.column_eq coherent, List.length_append, number,
      (Text.byteLength_eq_length_iff _).2 narrow]
    rfl
  have parts : view.numbered =
      (TextForm.lineNumber d.location.line ++ [' ', '|', ' ']) ++ view.line := by
    rw [numbered, TextForm.numberedLine]
    simp
  rw [column, parts, List.drop_append, view.line_eq coherent, Text.dropFinal_append kept]
  simp

end SourceView

namespace Diagnostic.IsCoherent

variable {form : TextForm} {path : String} {source : Text} {d : Diagnostic}

/-- A finding that is shown where it is is shown by two lines. -/
theorem exists_sourceView (coherent : d.IsCoherent path source)
    (plain : form.isColored = false) (shows : form.showsSource = true) :
    Nonempty (SourceView form source d) := by
  obtain ⟨before, after, split, size, _, column⟩ := coherent.start
  obtain ⟨line, ⟨_, _, _, _, unbroken, _⟩, sourceLine⟩ := coherent.sourceLine
  have placed : 0 < d.location.column := by
    rw [column]
    exact Nat.succ_pos _
  obtain ⟨remarks, printed⟩ := TextForm.exists_diagnosticText plain shows placed sourceLine
  exact ⟨{
    before := before
    after := after
    line := line.dropFinal '\r'
    numbered := TextForm.numberedLine d (line.dropFinal '\r')
    carets := TextForm.caretLine d
    remarks := remarks
    source_eq := split
    start := size
    sourceLine := sourceLine
    printed := printed
    unbroken := ⟨TextForm.unbroken_numberedLine d (Text.notMem_dropFinal '\r' unbroken),
      TextForm.unbroken_caretLine d⟩ }⟩

theorem isShown (coherent : d.IsCoherent path source) (plain : form.isColored = false)
    (shows : form.showsSource = true) (view : SourceView form source d) : view.IsShown where
  line := view.line_eq coherent
  numbered := by
    refine ⟨TextForm.lineNumber d.location.line ++ [' '], ?_, ?_⟩
    · simp [TextForm.notMem_lineNumber (c := '|') (by decide) (by decide)]
    · rw [(view.lines_eq coherent plain shows).1, TextForm.numberedLine]
      simp
  bars := view.alignsBars_iff coherent plain shows
  carets := view.pointsAtStart_iff coherent plain shows
  above := view.drop_caretColumn coherent plain shows

end Diagnostic.IsCoherent

namespace Engine

/-- Every finding is shown by two lines, which stand to each other in one way. -/
theorem isShown_of_mem_lint {engine : Engine} {path : String} {source : Text} {form : TextForm}
    {d : Diagnostic} (found : d ∈ engine.lint path source) (plain : form.isColored = false)
    (shows : form.showsSource = true) :
    Nonempty (SourceView form source d) ∧
      ∀ view : SourceView form source d, view.IsShown := by
  obtain ⟨active, _, report, reported, rfl⟩ := exists_report found
  have coherent : (report.toDiagnostic active.rule.info active.severity path
      (engine.parse source)).IsCoherent path source :=
    (Document.isLocated_of_mem_reports active.rule reported).isCoherent _ _ path rfl
  exact ⟨coherent.exists_sourceView plain shows, coherent.isShown plain shows⟩

/-- The place of a finding on a line of narrow characters; those of earlier lines do not count. -/
theorem isShown_of_mem_lint_narrow :
    let engine : Engine := ⟨.initial, [⟨.closingTags ⟨false, false, []⟩, .error⟩]⟩
    let source : Text := "<p>é</p>\n  <foo>é".toList
    ∃ d ∈ engine.lint "page.html" source, (TextForm.plain false).isColored = false ∧
      (TextForm.plain false).showsSource = true ∧
      Nonempty (SourceView (TextForm.plain false) source d) ∧
      ∀ view : SourceView (TextForm.plain false) source d, view.IsShown := by
  intro engine source
  obtain ⟨d, found⟩ := List.exists_mem_of_ne_nil (engine.lint "page.html" source)
    (by decide +kernel)
  exact ⟨d, found, rfl, rfl, isShown_of_mem_lint found rfl rfl⟩

/-- Behind a character of two bytes the first caret comes one character too late. -/
theorem caret_behind_start :
    let engine : Engine := ⟨.initial, [⟨.closingTags ⟨false, false, []⟩, .error⟩]⟩
    let source : Text := "é<foo>".toList
    ∃ d ∈ engine.lint "page.html" source,
      ∃ view : SourceView (TextForm.plain false) source d,
        view.numbered = "   1 | é<foo>".toList ∧ view.carets = "     |   ^^^^^".toList ∧
          ¬view.PointsAtStart := by
  intro engine source
  obtain ⟨d, found⟩ := List.exists_mem_of_ne_nil (engine.lint "page.html" source)
    (by decide +kernel)
  have each : ∀ d ∈ engine.lint "page.html" source, Text.byteLength "é".toList = d.span.start ∧
      d.sourceLine = some source ∧
      (TextForm.plain false).diagnosticText d = (TextForm.plain false).headline d ++
        ("   1 | é<foo>".toList ++ '\n' :: ("     |   ^^^^^".toList ++ '\n' :: [])) := by
    decide +kernel
  obtain ⟨start, sourceLine, printed⟩ := each d found
  let view : SourceView (TextForm.plain false) source d :=
    { before := "é".toList
      after := "<foo>".toList
      line := source
      numbered := "   1 | é<foo>".toList
      carets := "     |   ^^^^^".toList
      remarks := []
      source_eq := rfl
      start := start
      sourceLine := sourceLine
      printed := printed
      unbroken := by decide }
  -- The carets stand as far in as the bytes before the element, and the letter has two of them.
  have apart : Text.caretGap "     |   ^^^^^".toList ≠
      (source.take (Text.sinceFeed "é".toList).length).length := by
    decide +kernel
  exact ⟨d, found, view, rfl, rfl, apart⟩

end Engine
end TagLint
