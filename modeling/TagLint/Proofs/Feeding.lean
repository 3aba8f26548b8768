import TagLint.Proofs.Reads

/-!
Texts that are changed from some place on, and what is found before that place again.

`Quiet` says that the change brings up no opening delimiter that begins before it. What is skimmed
of a text up to the change is then skimmed in the same way. An opening delimiter without a line
feed in it cannot come to stand where a line feed is put in, so line feeds are such a change.
-/
namespace TagLint

open Written (Construct)

/-- Whether no opening delimiter starts like markup or has a line feed in it. -/
def OpenersApart (pairs : List Delimiters) : Prop :=
  ∀ pair ∈ pairs, pair.opening.head? ≠ some '<' ∧ '\n' ∉ pair.opening

/-- Whether no construct begins with an opening delimiter. -/
def OpenersPlain (pairs : List Delimiters) : Prop :=
  ∀ pair ∈ pairs, pair.opening ≠ [] → ∀ t : Text, Construct.of? (pair.opening ++ t) = none

/-- Whether no construct begins with an opening delimiter, and none has a line feed in it. -/
structure OpenersClear (pairs : List Delimiters) : Prop where
  plain : OpenersPlain pairs
  unfed : ∀ pair ∈ pairs, '\n' ∉ pair.opening

theorem OpenersApart.clear {pairs : List Delimiters} (apart : OpenersApart pairs) :
    OpenersClear pairs := by
  refine ⟨fun pair member nonempty t => ?_, fun pair member => (apart pair member).2⟩
  obtain ⟨c, opening, shown⟩ := List.exists_cons_of_ne_nil nonempty
  rw [shown]
  refine Construct.of?_plain (fun bracket => ?_) _
  exact (apart pair member).1 (by rw [shown, bracket, List.head?_cons])

/-- Whether the second text is the first one with line feeds put in. -/
inductive Fed : Text → Text → Prop where
  | nil : Fed [] []
  | keep (c : Char) {s t : Text} : Fed s t → Fed (c :: s) (c :: t)
  | feed {s t : Text} : Fed s t → Fed s ('\n' :: t)

/-- A line feed, if one is put in. -/
def feedIf (put : Bool) : Text :=
  if put then ['\n'] else []

namespace Fed

variable {s t : Text}

theorem refl (s : Text) : Fed s s := by
  induction s with
  | nil => exact nil
  | cons c s ih => exact keep c ih

theorem append {u v : Text} (first : Fed s t) (second : Fed u v) : Fed (s ++ u) (t ++ v) := by
  induction first with
  | nil => exact second
  | keep c _ ih => exact keep c ih
  | feed _ ih => exact feed ih

theorem append_left (u : Text) (fed : Fed s t) : Fed (u ++ s) (u ++ t) :=
  (refl u).append fed

theorem feedIf (put : Bool) (fed : Fed s t) : Fed s (feedIf put ++ t) := by
  cases put with
  | false => exact fed
  | true => exact fed.feed

theorem eq_nil (fed : Fed s []) : s = [] := by
  cases fed
  rfl

/-- What begins the fed text and has no line feed began the text before. -/
theorem of_prefix {needle : Text} (fed : Fed s t) (free : '\n' ∉ needle) (starts : needle <+: t) :
    needle <+: s := by
  induction fed generalizing needle with
  | nil => exact starts
  | keep c _ ih =>
    cases needle with
    | nil => exact List.nil_prefix
    | cons d needle =>
      obtain ⟨rfl, further⟩ := List.cons_prefix_cons.1 starts
      exact List.cons_prefix_cons.2
        ⟨rfl, ih (fun member => free (List.mem_cons_of_mem _ member)) further⟩
  | feed _ _ =>
    cases needle with
    | nil => exact List.nil_prefix
    | cons d needle =>
      obtain ⟨rfl, _⟩ := List.cons_prefix_cons.1 starts
      exact absurd List.mem_cons_self free

end Fed

/-- Whether each opening delimiter that begins in `w`, with the second text after it, also begins
there with the first text after it. -/
def Quiet (pairs : List Delimiters) (w s t : Text) : Prop :=
  ∀ pair ∈ pairs, ∀ x : Text, x <:+ w → x ≠ [] → pair.opening <+: x ++ t → pair.opening <+: x ++ s

namespace Quiet

variable {pairs : List Delimiters} {w s t : Text}

theorem refl (pairs : List Delimiters) (w s : Text) : Quiet pairs w s s :=
  fun _ _ _ _ _ starts => starts

/-- What stands in `w` stands there before any text. -/
theorem of_nil (quiet : Quiet pairs w [] t) (s : Text) : Quiet pairs w s t := by
  intro pair member x suffix full starts
  have inside := quiet pair member x suffix full starts
  rw [List.append_nil] at inside
  exact inside.trans (List.prefix_append x s)

theorem append_left {u : Text} (quiet : Quiet pairs (w ++ u) s t) :
    Quiet pairs w (u ++ s) (u ++ t) := by
  intro pair member x suffix full starts
  rw [← List.append_assoc] at starts ⊢
  obtain ⟨front, rfl⟩ := suffix
  exact quiet pair member (x ++ u) ⟨front, by simp⟩ (by simp [full]) starts

theorem within {u : Text} (quiet : Quiet pairs w s t) (suffix : u <:+ w) : Quiet pairs u s t :=
  fun pair member x inside => quiet pair member x (inside.trans suffix)

end Quiet

/-- Line feeds bring up no opening delimiter. -/
theorem Fed.quiet {pairs : List Delimiters} (clear : OpenersClear pairs) {s t : Text}
    (fed : Fed s t) (w : Text) : Quiet pairs w s t := by
  intro pair member x _ _ starts
  exact Fed.of_prefix (fed.append_left x) (clear.unfed pair member) starts

namespace Text

theorem find?_stable {needle b t : Text}
    (found : find? needle (b ++ (needle ++ t)) = some (b, needle ++ t)) (u : Text) :
    find? needle (b ++ (needle ++ u)) = some (b, needle ++ u) := by
  unfold find? at found ⊢
  split at found
  · simp at found
  next full =>
    rw [if_neg full]
    have nonempty : needle ≠ [] := by simpa using full
    refine breakAt?_eq (fun c r suffix => ?_) (by simp [nonempty])
      (List.isPrefixOf_iff_prefix.2 (List.prefix_append needle u))
    -- The needle is no longer than what is looked at here, so the test cannot change.
    have before := breakAt?_runs found c r suffix
    rw [Bool.eq_false_iff, Ne, List.isPrefixOf_iff_prefix] at before ⊢
    intro starts
    apply before
    have lead : needle <+: c :: r ++ needle :=
      List.prefix_of_prefix_length_le starts ⟨u, by simp⟩ (by simp; omega)
    exact lead.trans ⟨t, by simp⟩

/-- What matches a needle has no character that is its own lower case and not in the needle. -/
theorem not_mem_of_startsWithName {c : Char} (plain : c.toNat < 97) (own : c.toLower = c)
    {needle t : Text} (free : c ∉ needle) (starts : startsWithName needle t = true) :
    c ∉ t.take needle.length := by
  intro member
  have lowered := beq_iff_eq.1 starts
  have within : c ∈ lower needle := by
    rw [← lowered]
    exact List.mem_map.2 ⟨c, member, own⟩
  obtain ⟨d, among, same⟩ := List.mem_map.1 within
  exact free (Written.eq_of_toLower_eq plain same ▸ among)

/-- A needle without a bracket matches before the bracket. -/
theorem length_le_of_startsWithName {needle before x : Text} (free : '>' ∉ needle)
    (starts : startsWithName needle (before ++ '>' :: x) = true) :
    needle.length ≤ before.length := by
  apply Nat.le_of_not_lt
  intro shorter
  apply not_mem_of_startsWithName (by decide) (by decide) free starts
  rw [List.take_append, List.mem_append]
  right
  obtain ⟨more, positive⟩ : ∃ more, needle.length - before.length = more + 1 :=
    ⟨_, (Nat.succ_pred_eq_of_pos (Nat.sub_pos_of_lt shorter)).symm⟩
  -- A longer needle would have the bracket among the characters that it matches.
  rw [positive]
  exact List.mem_cons_self

end Text

namespace Template

variable {pairs : List Delimiters} {w s t u : Text}

theorem opener?_eq_none_iff :
    opener? pairs t [] = none ↔ ∀ pair ∈ pairs, pair.opening ≠ [] → ¬pair.opening <+: t := by
  simp only [opener?, List.find?_eq_none, Bool.and_eq_true, Bool.not_eq_true',
    List.isEmpty_eq_false_iff, not_and]
  constructor <;> intro none_starts pair member nonempty
  · intro starts
    exact none_starts pair member nonempty (startsAcross_iff.2 (by simpa using starts))
  · intro starts
    exact none_starts pair member nonempty (by simpa using startsAcross_iff.1 starts)

theorem opener?_eq_none_of_quiet (quiet : Quiet pairs w s t) (full : w ≠ [])
    (plain : opener? pairs (w ++ s) [] = none) : opener? pairs (w ++ t) [] = none := by
  rw [opener?_eq_none_iff] at plain ⊢
  intro pair member nonempty starts
  exact plain pair member nonempty (quiet pair member w List.suffix_rfl full starts)

/-- A search in a list finds the same when fewer members pass and the one found still does. -/
private theorem find?_of_imp {α : Type} {f g : α → Bool} {list : List α} {a : α}
    (found : list.find? f = some a) (fewer : ∀ x ∈ list, g x = true → f x = true)
    (passes : g a = true) : list.find? g = some a := by
  induction list with
  | nil => simp at found
  | cons x list ih =>
    by_cases here : f x = true
    · rw [List.find?_cons_of_pos here] at found
      cases found
      exact List.find?_cons_of_pos passes
    · rw [List.find?_cons_of_neg here] at found
      have not_here : ¬g x = true := fun other => here (fewer x List.mem_cons_self other)
      rw [List.find?_cons_of_neg not_here]
      exact ih found fun y member => fewer y (List.mem_cons_of_mem x member)

/-- An opening delimiter that still stands at the front is found again. -/
theorem opener?_of_quiet (quiet : Quiet pairs w s t) (full : w ≠ []) {pair : Delimiters}
    (found : opener? pairs (w ++ s) [] = some pair) (stands : pair.opening <+: w ++ t) :
    opener? pairs (w ++ t) [] = some pair := by
  have nonempty := (opener?_spec found).2.1
  refine find?_of_imp found (fun other member passes => ?_) ?_
  · simp only [Bool.and_eq_true, Bool.not_eq_true', List.isEmpty_eq_false_iff] at passes ⊢
    refine ⟨passes.1, startsAcross_iff.2 ?_⟩
    have starts : other.opening <+: w ++ t := by simpa using startsAcross_iff.1 passes.2
    simpa using quiet other member w List.suffix_rfl full starts
  · simp only [Bool.and_eq_true, Bool.not_eq_true', List.isEmpty_eq_false_iff]
    exact ⟨nonempty, startsAcross_iff.2 (by simpa using stands)⟩

/-- Whether the region at the start of the text has its closing delimiter. -/
def closes (pairs : List Delimiters) (t : Text) : Bool :=
  (opener? pairs t []).any fun pair => (Text.find? pair.closing (t.drop pair.opening.length)).isSome

/-- Whether a text ends inside a region. -/
def endsInside (pairs : List Delimiters) : Text → Bool
  | [] => false
  | c :: t =>
    match _found : region? pairs (c :: t) [] with
    | some (_, rest) => if rest.isEmpty then !closes pairs (c :: t) else endsInside pairs rest
    | none => endsInside pairs t
termination_by t => t.length
decreasing_by
  · exact region?_rest_lt (by assumption)
  · simp

/-- A region runs through the first closing delimiter of its pair, or takes all of the text. -/
theorem region?_spec {region rest : Text} (found : region? pairs t [] = some (region, rest)) :
    ∃ pair, opener? pairs t [] = some pair ∧
      ((∃ body, region = pair.opening ++ body ++ pair.closing ∧
        Text.find? pair.closing (body ++ (pair.closing ++ rest)) =
          some (body, pair.closing ++ rest)) ∨
      region = t ∧ rest = [] ∧ Text.find? pair.closing (t.drop pair.opening.length) = none) := by
  have joined := region?_append found
  obtain ⟨pair, opens, same⟩ := Option.map_eq_some_iff.1 found
  have starts := (opener?_spec opens).2.2
  rw [List.append_nil] at starts
  refine ⟨pair, opens, ?_⟩
  rw [if_pos starts.length_le] at same
  split at same
  next body after place =>
    obtain ⟨last, rfl⟩ := Text.find?_prefix place
    rw [List.drop_left, Prod.mk.injEq] at same
    obtain ⟨rfl, rfl⟩ := same
    rw [← joined, List.append_assoc, List.append_assoc, List.drop_left] at place
    exact Or.inl ⟨body, rfl, place⟩
  next missing =>
    obtain ⟨rfl, rfl⟩ := Prod.mk.inj same
    exact Or.inr ⟨rfl, rfl, missing⟩

/-- What stands between an opening delimiter and the first closing one makes a region with them. -/
theorem region?_closed {pair : Delimiters} {body rest following : Text}
    (opens : opener? pairs (pair.opening ++ body ++ pair.closing ++ rest) following = some pair)
    (place : Text.find? pair.closing (body ++ (pair.closing ++ rest)) =
      some (body, pair.closing ++ rest)) :
    region? pairs (pair.opening ++ body ++ pair.closing ++ rest) following =
      some (pair.opening ++ body ++ pair.closing, rest) := by
  have fits : pair.opening.length ≤ (pair.opening ++ body ++ pair.closing ++ rest).length := by
    simp only [List.length_append]
    omega
  have dropped : (pair.opening ++ body ++ pair.closing ++ rest).drop pair.opening.length =
      body ++ (pair.closing ++ rest) := by
    rw [List.append_assoc, List.append_assoc, List.drop_left]
  simp only [region?, opens, Option.map_some, fits, if_true, dropped, place, List.drop_left]

/-- A region with its closing delimiter is the same region whatever comes after it. -/
theorem region?_stable {region r : Text} (quiet : Quiet pairs (region ++ r) s t)
    (closed : r ++ s = [] → closes pairs region = true)
    (found : region? pairs (region ++ (r ++ s)) [] = some (region, r ++ s)) :
    region? pairs (region ++ (r ++ t)) [] = some (region, r ++ t) ∧
      (opener? pairs (region ++ (r ++ t)) []).isSome = true := by
  obtain ⟨pair, opens, ⟨body, rfl, place⟩ | ⟨_, last, missing⟩⟩ := region?_spec found
  · have full : pair.opening ++ body ++ pair.closing ≠ [] := by simp [(opener?_spec opens).2.1]
    have opens_again := opener?_of_quiet quiet.append_left full opens
      ⟨body ++ (pair.closing ++ (r ++ t)), by simp⟩
    exact ⟨region?_closed opens_again (Text.find?_stable place (r ++ t)),
      Option.isSome_of_eq_some opens_again⟩
  · -- A region without a closing delimiter would take all of the text.
    have fits := closed last
    rw [last, List.append_nil] at opens missing
    simp [closes, opens, missing] at fits

theorem region?_eq_none_iff : region? pairs t [] = none ↔ opener? pairs t [] = none := by
  simp [region?]

theorem isSome_opener?_of_region? {region rest : Text}
    (found : region? pairs t [] = some (region, rest)) : (opener? pairs t []).isSome = true := by
  obtain ⟨pair, opens, _⟩ := Option.map_eq_some_iff.1 found
  exact Option.isSome_of_eq_some opens

theorem endsInside_char {c : Char} (plain : region? pairs (c :: t) [] = none) :
    endsInside pairs (c :: t) = endsInside pairs t := by
  rw [endsInside]
  split
  next found =>
    rw [plain] at found
    contradiction
  · rfl

theorem endsInside_region {c : Char} {region rest : Text}
    (begins : region? pairs (c :: t) [] = some (region, rest)) :
    endsInside pairs (c :: t) =
      if rest.isEmpty then !closes pairs (c :: t) else endsInside pairs rest := by
  rw [endsInside]
  split
  next found =>
    rw [begins] at found
    cases found
    rfl
  next found =>
    rw [begins] at found
    contradiction

/-- A region that skimming passes over is passed over after what comes later has changed. -/
private theorem region?_skimmed {stops : Text → Bool} {x region rest : Text}
    (quiet : Quiet pairs x s t) (closed : s = [] → endsInside pairs x = false) (full : x ≠ [])
    (found : region? pairs (x ++ s) [] = some (region, rest))
    (joined : region ++ (skim pairs stops rest).1 = x) (after : (skim pairs stops rest).2 = s) :
    ∃ r, x = region ++ r ∧ r.length < x.length ∧ skim pairs stops (r ++ s) = (r, s) ∧
      (s = [] → endsInside pairs r = false) ∧
      region? pairs (x ++ t) [] = some (region, r ++ t) ∧
      (opener? pairs (x ++ s) []).isSome = (opener? pairs (x ++ t) []).isSome := by
  have whole := skim_append pairs stops rest
  obtain ⟨r, passed⟩ : ∃ r, (skim pairs stops rest).1 = r := ⟨_, rfl⟩
  rw [passed] at joined
  rw [passed, after] at whole
  subst whole
  subst joined
  -- At the end of the source a region without its closing delimiter would leave `x` open.
  have inside : s = [] → endsInside pairs r = false ∧ (r = [] → closes pairs region = true) := by
    rintro rfl
    have ends := closed rfl
    rw [List.append_nil, List.append_nil] at found
    obtain ⟨c, u, shown⟩ := List.exists_cons_of_ne_nil full
    rw [shown] at found ends
    rw [endsInside_region found] at ends
    cases r with
    | nil =>
      rw [List.append_nil] at shown
      exact ⟨by simp [endsInside], fun _ => by simpa [shown] using ends⟩
    | cons d r => exact ⟨ends, by simp⟩
  have positive := List.length_pos_iff.2
    (region?_ne_nil (fun empty => full (List.append_eq_nil_iff.1 empty).1) found)
  rw [List.append_assoc] at found
  obtain ⟨stable, opens⟩ := region?_stable quiet (fun last => by
    obtain ⟨none_left, ended⟩ := List.append_eq_nil_iff.1 last
    exact (inside ended).2 none_left) found
  refine ⟨r, rfl, ?_, Prod.ext passed after, fun ended => (inside ended).1, ?_, ?_⟩
  · rw [List.length_append]
    omega
  · rw [List.append_assoc]
    exact stable
  · rw [List.append_assoc, List.append_assoc, opens]
    exact isSome_opener?_of_region? found

/-- Skimming passes over a text in the same way when what comes later has changed, where its test
asks for openings in the same way; it then goes on from there. At the end of the source the text
must not end inside a region, since the region would go on too. -/
theorem skim_stable {stops : Text → Bool} {x : Text} (quiet : Quiet pairs x s t)
    (closed : s = [] → endsInside pairs x = false)
    (asks : ∀ c r, c :: r <:+ x → (opener? pairs (c :: r ++ s) []).isSome =
      (opener? pairs (c :: r ++ t) []).isSome → stops (c :: r ++ s) = false →
        stops (c :: r ++ t) = false)
    (read : skim pairs stops (x ++ s) = (x, s)) :
    skim pairs stops (x ++ t) = (x ++ (skim pairs stops t).1, (skim pairs stops t).2) := by
  -- Strong induction on what is passed over: a region takes several characters at once.
  induction size : x.length using Nat.strongRecOn generalizing x with
  | ind bound ih =>
    cases x with
    | nil => rfl
    | cons c x =>
      have asksHere := asks c x (List.suffix_refl _)
      have further {r : Text} (suffix : r <:+ c :: x) (shorter : r.length < bound)
          (inside : s = [] → endsInside pairs r = false)
          (again : skim pairs stops (r ++ s) = (r, s)) :=
        ih r.length shorter (quiet.within suffix) inside
          (fun d u within => asks d u (within.trans suffix)) again rfl
      rw [List.cons_append] at read
      cases runs : stops (c :: (x ++ s)) with
      | true =>
        rw [skim_stop pairs runs] at read
        simp at read
      | false =>
        cases found : region? pairs (c :: (x ++ s)) [] with
        | some taken =>
          obtain ⟨region, rest⟩ := taken
          rw [skim_region runs found, Prod.mk.injEq] at read
          -- What is passed over after the region is passed over from there by itself.
          obtain ⟨r, joined, shorter, again, inside, stable, asked⟩ :=
            region?_skimmed quiet closed (by simp) found read.1 read.2
          have runsAgain : stops (c :: (x ++ t)) = false := asksHere asked runs
          rw [List.cons_append, skim_region runsAgain stable,
            further ⟨region, joined.symm⟩ (size ▸ shorter) inside again, joined,
            List.append_assoc]
        | none =>
          rw [skim_char runs found, Prod.mk.injEq, List.cons.injEq] at read
          have plain := region?_eq_none_iff.1 found
          -- No region starts here before the change, so none does after it.
          have plainAgain : opener? pairs (c :: (x ++ t)) [] = none :=
            opener?_eq_none_of_quiet quiet (by simp) plain
          have runsAgain : stops (c :: (x ++ t)) = false := by
            refine asksHere ?_ runs
            rw [List.cons_append, List.cons_append, plain, plainAgain]
          have again : skim pairs stops (x ++ s) = (x, s) := Prod.ext read.1.2 read.2
          have shorter : x.length < bound := by
            simp only [List.length_cons] at size
            omega
          have inside : s = [] → endsInside pairs x = false := by
            intro ended
            rw [ended, List.append_nil] at found
            rw [← endsInside_char found]
            exact closed ended
          rw [List.cons_append, skim_char runsAgain (region?_eq_none_iff.2 plainAgain),
            further (List.suffix_cons c x) shorter inside again, List.cons_append]

/-- Skimming that stops where the text changes takes the same. -/
theorem skim_stable_stop {stops : Text → Bool} {x : Text} (quiet : Quiet pairs x s t)
    (closed : s = [] → endsInside pairs x = false)
    (asks : ∀ c r, c :: r <:+ x → (opener? pairs (c :: r ++ s) []).isSome =
      (opener? pairs (c :: r ++ t) []).isSome → stops (c :: r ++ s) = false →
        stops (c :: r ++ t) = false)
    (ends : stops t = true) (read : skim pairs stops (x ++ s) = (x, s)) :
    skim pairs stops (x ++ t) = (x, t) := by
  rw [skim_stable quiet closed asks read, skim_stop pairs ends, List.append_nil]

end Template

end TagLint
