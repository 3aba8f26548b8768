import TagLint.Proofs.BreakPlaces
import TagLint.Proofs.Tiling
import TagLint.Proofs.Weaving

/-!
The places that need a line break are different places, and each of them is a cut between pieces.

Places inside an element lie between its tags, and places between neighbours lie between the
neighbours, so no two places meet; no place is between the tags of an element with nothing inside.
-/
namespace TagLint

open Written (Piece OpenTag)
open ElementNewline (Neighbour pairPlace pairPlaces edgePlaces)

/-- Where the pieces start, of which the first starts at `offset`. -/
def Written.Piece.starts (offset : Nat) (pieces : List Piece) : List Nat :=
  (spansFrom offset pieces).map Span.start

theorem Written.Piece.starts_pairwise (offset : Nat) {pieces : List Piece}
    (full : ∀ piece ∈ pieces, piece.render ≠ []) :
    (starts offset pieces).Pairwise fun a b => a < b :=
  List.pairwise_map.2 (covers_spansFrom offset pieces full).pairwise_lt.1

/-- Whether the places are different, and each lies after the start of the first neighbour, which
is at `lo` or after it, and before `hi`. -/
structure Orderly (lo hi : Nat) (first : Option Neighbour) (places : List Nat) : Prop where
  distinct : places.Nodup
  begins : ∀ neighbour ∈ first, lo ≤ neighbour.start ∧ neighbour.start < hi
  after : ∀ place ∈ places, ∃ neighbour ∈ first, neighbour.start < place ∧ place < hi

namespace Orderly

variable {lo hi : Nat} {first : Option Neighbour} {places : List Nat}

theorem within (orderly : Orderly lo hi first places) {place : Nat} (member : place ∈ places) :
    lo < place ∧ place < hi := by
  obtain ⟨neighbour, started, later, before⟩ := orderly.after place member
  have := (orderly.begins neighbour started).1
  omega

theorem lower (orderly : Orderly lo hi first places) {start : Nat} (less : start ≤ lo) :
    Orderly start hi first places := by
  refine ⟨orderly.distinct, ?_, orderly.after⟩
  intro neighbour member
  obtain ⟨later, before⟩ := orderly.begins neighbour member
  exact ⟨Nat.le_trans less later, before⟩

end Orderly

theorem nodup_append_of_lt {first second : List Nat} (bound : Nat) (one : first.Nodup)
    (two : second.Nodup) (before : ∀ place ∈ first, place < bound)
    (after : ∀ place ∈ second, bound ≤ place) : (first ++ second).Nodup := by
  apply List.nodup_append.2
  refine ⟨one, two, ?_⟩
  intro a low b high same
  have := before a low
  have := after b high
  omega

namespace ElementNewline

theorem mem_pairPlace {a b : Neighbour} {place : Nat} (member : place ∈ pairPlace a b) :
    place = a.stop ∨ place = b.start := by
  unfold pairPlace at member
  split at member
  · rw [List.mem_singleton.1 member]
    split
    · exact Or.inl rfl
    · exact Or.inr rfl
  · simp at member

theorem nodup_pairPlace (a b : Neighbour) : (pairPlace a b).Nodup := by
  unfold pairPlace
  split <;> simp

theorem mem_edgePlaces {within stop : Nat} {isClosed broken : Bool} {content : List Neighbour}
    {place : Nat} (member : place ∈ edgePlaces within stop isClosed broken content) :
    content ≠ [] ∧ (place = within ∨ place = stop ∧ isClosed = true) := by
  unfold edgePlaces at member
  rcases List.mem_append.1 member with first | last
  · split at first
    next starts =>
      refine ⟨?_, Or.inl (List.mem_singleton.1 first)⟩
      rintro rfl
      simp at starts
    · simp at first
  · split at last
    next ends =>
      simp only [Bool.and_eq_true] at ends
      refine ⟨?_, Or.inr ⟨List.mem_singleton.1 last, ends.1.1⟩⟩
      rintro rfl
      simp at ends
    · simp at last

end ElementNewline

open ElementNewline

/-- A neighbour with its own places goes before those after it. -/
theorem Orderly.cons (neighbour : Neighbour) {others : List Neighbour} (own : List Nat)
    {places : List Nat} {hi : Nat} (long : neighbour.start < neighbour.stop) (distinct : own.Nodup)
    (inner : ∀ place ∈ own, neighbour.start < place ∧ place < neighbour.stop)
    (fits : neighbour.stop ≤ hi)
    (rest : Orderly neighbour.stop hi others.head? (places ++ pairPlaces others)) :
    Orderly neighbour.start hi (some neighbour)
      ((own ++ places) ++ pairPlaces (neighbour :: others)) := by
  have between : ∀ place ∈ others.head?.toList.flatMap (pairPlace neighbour),
      ∃ next ∈ others.head?, neighbour.stop ≤ place ∧ place ≤ next.start := by
    intro place member
    obtain ⟨next, first, here⟩ := List.mem_flatMap.1 member
    rw [Option.mem_toList] at first
    have bounds := rest.begins next first
    refine ⟨next, first, ?_⟩
    rcases mem_pairPlace here with rfl | rfl
    · exact ⟨Nat.le_refl _, bounds.1⟩
    · exact ⟨bounds.1, Nat.le_refl _⟩
  -- In the order of the source: inside the neighbour, after it, and in what comes later.
  have arranged : ((own ++ places) ++ pairPlaces (neighbour :: others)).Perm
      (own ++ (others.head?.toList.flatMap (pairPlace neighbour) ++
        (places ++ pairPlaces others))) := by
    rw [pairPlaces_cons, List.append_assoc, ← List.append_assoc places]
    refine List.Perm.append_left own ?_
    rw [← List.append_assoc]
    exact List.perm_append_comm.append_right _
  refine ⟨arranged.nodup_iff.2 ?_, ?_, ?_⟩
  · refine nodup_append_of_lt neighbour.stop distinct ?_
      (fun place member => (inner place member).2) ?_
    · cases shown : others.head? with
      | none =>
        rw [shown] at rest
        simpa using rest.distinct
      | some next =>
        rw [shown] at between rest
        refine nodup_append_of_lt (next.start + 1) ?_ rest.distinct ?_ ?_
        · simpa using nodup_pairPlace neighbour next
        · intro place member
          obtain ⟨_, ⟨⟩, _, upto⟩ := between place member
          omega
        · intro place member
          obtain ⟨_, ⟨⟩, later, _⟩ := rest.after place member
          exact later
    · intro place member
      rcases List.mem_append.1 member with pair | later
      · obtain ⟨_, _, from_, _⟩ := between place pair
        exact from_
      · exact Nat.le_of_lt (rest.within later).1
  · rintro _ ⟨⟩
    exact ⟨Nat.le_refl _, by omega⟩
  · intro place member
    refine ⟨neighbour, rfl, ?_⟩
    rw [arranged.mem_iff] at member
    rcases List.mem_append.1 member with mine | later
    · have := inner place mine
      omega
    · rcases List.mem_append.1 later with pair | further
      · obtain ⟨next, first, from_, upto⟩ := between place pair
        have := rest.begins next first
        omega
      · have := rest.within further
        omega

/-- The places at the ends of an element's content come before and after those inside it. -/
private theorem nodup_edgePlaces {within stop : Nat} (isClosed broken : Bool)
    {content : List Neighbour} {places : List Nat}
    (orderly : Orderly within stop content.head? places) :
    (places ++ edgePlaces within stop isClosed broken content).Nodup ∧
      ∀ place ∈ places ++ edgePlaces within stop isClosed broken content,
        within ≤ place ∧ (place < stop ∨ place = stop ∧ isClosed = true) := by
  -- Edges are only places where there is content, and then they are apart.
  have wide (full : content ≠ []) : within < stop := by
    obtain ⟨first, others, rfl⟩ := List.exists_cons_of_ne_nil full
    have := orderly.begins first rfl
    omega
  have edge : (edgePlaces within stop isClosed broken content).Nodup := by
    unfold edgePlaces
    split <;> split
    · rename_i starts _
      have : within < stop := wide (by rintro rfl; simp at starts)
      simp
      omega
    · simp
    · simp
    · simp
  refine ⟨List.nodup_append.2 ⟨orderly.distinct, edge, ?_⟩, ?_⟩
  · intro a inner b outer same
    have := orderly.within inner
    rcases (mem_edgePlaces outer).2 with start | ⟨ends, _⟩ <;> omega
  · intro place member
    rcases List.mem_append.1 member with inner | outer
    · have := orderly.within inner
      omega
    · obtain ⟨full, start | ⟨ends, closed⟩⟩ := mem_edgePlaces outer
      · have := wide full
        omega
      · have := wide full
        exact ⟨by omega, Or.inr ⟨ends, closed⟩⟩

/-- The places of an element lie between its start and its end, those at the ends of its content
too: they lie between its tags. -/
private theorem inner_places {offset within stop after : Nat} {isClosed : Bool}
    (wanted broken : Bool) {content : List Neighbour} {places : List Nat}
    (orderly : Orderly within stop content.head? places) (opens : offset < within)
    (fits : stop ≤ after) (closes : isClosed = true → stop < after) :
    (places ++ if wanted then edgePlaces within stop isClosed broken content else []).Nodup ∧
      ∀ place ∈ places ++ if wanted then edgePlaces within stop isClosed broken content else [],
        offset < place ∧ place < after := by
  split
  · obtain ⟨distinct, bounds⟩ := nodup_edgePlaces isClosed broken orderly
    refine ⟨distinct, ?_⟩
    intro place member
    obtain ⟨later, before | ⟨ends, closed⟩⟩ := bounds place member
    · omega
    · have := closes closed
      omega
  · rw [List.append_nil]
    refine ⟨orderly.distinct, ?_⟩
    intro place member
    have := orderly.within member
    omega

namespace Outline

variable {outer : List Text} {outline : Outline}

/-- The places in an outline are different and lie inside it. -/
theorem orderly (rule : ElementNewline) (nested : outline.Nested outer)
    (full : outline.IsFull) (offset : Nat) (broken : Bool) :
    Orderly offset (offset + outline.width) (outline.neighbours rule offset broken).head?
      ((outline.insidePlaces rule offset).1 ++
        pairPlaces (outline.neighbours rule offset broken)) := by
  -- The neighbours follow each other, so the places of each go before those of the ones after it.
  induction outline generalizing outer offset broken with
  | nil =>
    exact ⟨List.nodup_nil, by simp [neighbours],
      by simp [insidePlaces, neighbours, pairPlaces]⟩
  | single piece next ih =>
    obtain ⟨long, others⟩ := full_single full
    rw [neighbours, insidePlaces, width_single, ← Nat.add_assoc]
    cases piece.isBetween false with
    | true => exact (ih nested.2 others _ _).lower (Nat.le_add_right _ _)
    | false =>
      have rest := ih nested.2 others (offset + piece.width) piece.endsBroken
      simp only [Bool.false_eq_true, if_false]
      exact Orderly.cons ⟨rule.wantsPiece piece, offset, offset + piece.width,
        broken || piece.startsBroken⟩ [] (Nat.lt_add_of_pos_right long) List.nodup_nil (by simp)
        (Nat.le_add_right _ _) rest
  | element tag inside close next ihInside ihNext =>
    obtain ⟨opens, fullInside, closes, fullNext⟩ := full_element full
    let within := offset + tag.render.byteLength
    let stop := within + inside.width
    let after := stop + (close.map fun close => close.piece.width).getD 0
    have content := ihInside (nested_inside nested) fullInside within false
    have rest := ihNext (nested_next nested) fullNext after false
    have spanned : offset + (element tag inside close next).width = after + next.width := by
      simp [after, stop, within, Nat.add_assoc]
    have started : offset < within := Nat.lt_add_of_pos_right opens
    have fits : stop ≤ after := Nat.le_add_right _ _
    have ends : close.isSome = true → stop < after := by
      intro closed
      obtain ⟨close, rfl⟩ := Option.isSome_iff_exists.1 closed
      exact Nat.lt_add_of_pos_right (closes close rfl)
    let own := ((inside.insidePlaces rule within).1 ++
      pairPlaces (inside.neighbours rule within false)) ++
        if rule.wantsPiece (.opening tag) && (inside.insidePlaces rule within).2 then
          edgePlaces within stop close.isSome (inside.breaks false false)
            (inside.neighbours rule within false)
        else []
    have ordered : own.Nodup ∧ ∀ place ∈ own, offset < place ∧ place < after :=
      inner_places _ _ content started fits ends
    have long : offset < after := by
      have reached : within ≤ stop := Nat.le_add_right _ _
      omega
    let own' : Neighbour := ⟨rule.wantsPiece (.opening tag), offset, after, broken⟩
    have skipped : Orderly offset (after + next.width) (some own')
        ((next.insidePlaces rule after).1 ++
          pairPlaces (own' :: next.neighbours rule after false)) :=
      Orderly.cons own' [] long List.nodup_nil (by simp) (Nat.le_add_right _ _) rest
    have entered : Orderly offset (after + next.width) (some own')
        ((own ++ (next.insidePlaces rule after).1) ++
          pairPlaces (own' :: next.neighbours rule after false)) :=
      Orderly.cons own' own long ordered.1 ordered.2 (Nat.le_add_right _ _) rest
    -- A skipped element has no places of its own, but it is a neighbour all the same.
    rw [spanned, neighbours, insidePlaces]
    split
    · exact skipped
    · exact entered

/-- Whether a piece starts at the place, other than the closing tag of an element with nothing
inside. -/
def Cut (place offset : Nat) : Outline → Prop
  | nil => False
  | single piece next => place = offset ∨ next.Cut place (offset + piece.width)
  | element tag inside close next =>
    place = offset ∨ inside.Cut place (offset + tag.render.byteLength) ∨
      (place = offset + tag.render.byteLength + inside.width ∧ close.isSome = true ∧
        inside ≠ nil) ∨
      next.Cut place (offset + tag.render.byteLength + inside.width +
        (close.map fun close => close.piece.width).getD 0)

theorem cut_start (full : outline ≠ nil) (offset : Nat) : outline.Cut offset offset := by
  cases outline with
  | nil => contradiction
  | single | element => exact Or.inl rfl

theorem Cut.bounds {place offset : Nat} (cut : outline.Cut place offset)
    (full : outline.IsFull) :
    offset ≤ place ∧ place < offset + outline.width := by
  induction outline generalizing offset with
  | nil => exact cut.elim
  | single piece next ih =>
    obtain ⟨long, others⟩ := full_single full
    rw [width_single]
    rcases cut with rfl | later
    · omega
    · have := ih later others
      omega
  | element tag inside close next ihInside ihNext =>
    obtain ⟨opens, fullInside, closes, fullNext⟩ := full_element full
    rw [width_element]
    rcases cut with rfl | within | ⟨rfl, closed, _⟩ | later
    · omega
    · have := ihInside within fullInside
      omega
    · obtain ⟨close, rfl⟩ := Option.isSome_iff_exists.1 closed
      have := closes close rfl
      simp only [Option.map_some, Option.getD_some]
      omega
    · have := ihNext later fullNext
      omega

theorem cut_of_neighbour (rule : ElementNewline) {offset : Nat} {broken : Bool}
    {neighbour : Neighbour} (member : neighbour ∈ outline.neighbours rule offset broken) :
    outline.Cut neighbour.start offset := by
  induction outline generalizing offset broken with
  | nil => simp [neighbours] at member
  | single piece next ih =>
    rw [neighbours] at member
    split at member
    · exact Or.inr (ih member)
    · rcases List.mem_cons.1 member with rfl | later
      · exact Or.inl rfl
      · exact Or.inr (ih later)
  | element tag inside close next _ ihNext =>
    rcases List.mem_cons.1 member with rfl | later
    · exact Or.inl rfl
    · exact Or.inr (Or.inr (Or.inr (ihNext later)))

/-- The place between a neighbour and the next one is the start of what comes after the first. -/
private theorem cut_of_mem_pair (rule : ElementNewline) {offset place : Nat} {broken : Bool}
    {neighbour : Neighbour} (stop : neighbour.stop = offset)
    (member : place ∈ (outline.neighbours rule offset broken).head?.toList.flatMap
      (pairPlace neighbour)) : outline.Cut place offset := by
  obtain ⟨next, first, here⟩ := List.mem_flatMap.1 member
  rw [Option.mem_toList] at first
  have among := List.mem_of_mem_head? first
  rcases mem_pairPlace here with rfl | rfl
  · rw [stop]
    refine cut_start ?_ offset
    rintro rfl
    simp [neighbours] at among
  · exact cut_of_neighbour rule among

private theorem cut_of_mem_pairs (rule : ElementNewline) {offset place : Nat} {broken : Bool}
    (member : place ∈ pairPlaces (outline.neighbours rule offset broken)) :
    outline.Cut place offset := by
  induction outline generalizing offset broken with
  | nil => simp [neighbours, pairPlaces] at member
  | single piece next ih =>
    rw [neighbours] at member
    split at member
    · exact Or.inr (ih member)
    · rw [pairPlaces_cons] at member
      rcases List.mem_append.1 member with here | later
      · exact Or.inr (cut_of_mem_pair rule rfl here)
      · exact Or.inr (ih later)
  | element tag inside close next _ ihNext =>
    rw [neighbours, pairPlaces_cons] at member
    rcases List.mem_append.1 member with here | later
    · exact Or.inr (Or.inr (Or.inr (cut_of_mem_pair rule rfl here)))
    · exact Or.inr (Or.inr (Or.inr (ihNext later)))

private theorem cut_of_mem_inside (rule : ElementNewline) {offset place : Nat}
    (member : place ∈ (outline.insidePlaces rule offset).1) : outline.Cut place offset := by
  -- A place is further inside, between two neighbours, at an end of the content, or later on.
  induction outline generalizing offset with
  | nil => simp [insidePlaces] at member
  | single piece next ih =>
    rw [insidePlaces] at member
    split at member <;> exact Or.inr (ih member)
  | element tag inside close next ihInside ihNext =>
    rw [insidePlaces] at member
    split at member
    · exact Or.inr (Or.inr (Or.inr (ihNext member)))
    · rcases List.mem_append.1 member with own | later
      · rcases List.mem_append.1 own with content | edge
        · rcases List.mem_append.1 content with below | pair
          · exact Or.inr (Or.inl (ihInside below))
          · exact Or.inr (Or.inl (cut_of_mem_pairs rule pair))
        · split at edge
          · obtain ⟨full, start⟩ := mem_edgePlaces edge
            have nonempty : inside ≠ nil := by
              rintro rfl
              simp [neighbours] at full
            rcases start with rfl | ⟨rfl, closed⟩
            · exact Or.inr (Or.inl (cut_start nonempty _))
            · exact Or.inr (Or.inr (Or.inl ⟨rfl, closed, nonempty⟩))
          · simp at edge
      · exact Or.inr (Or.inr (Or.inr (ihNext later)))

/-- Every place that needs a line break is a cut. -/
theorem cut_of_mem (rule : ElementNewline) {place : Nat}
    (member : place ∈ outline.breakPlaces rule) : outline.Cut place 0 := by
  rcases List.mem_append.1 member with inside | pair
  · exact cut_of_mem_inside rule inside
  · exact cut_of_mem_pairs rule pair

/-- Cuts spare the elements with nothing inside. -/
theorem spares_of_cut {places : Nat → Bool} {offset : Nat}
    (full : outline.IsFull)
    (cuts : ∀ place, places place = true → offset ≤ place → place < offset + outline.width →
      outline.Cut place offset) : outline.Spares places offset := by
  induction outline generalizing offset with
  | nil => trivial
  | single piece next ih =>
    obtain ⟨long, others⟩ := full_single full
    rw [width_single] at cuts
    apply ih others
    intro place put later before
    rcases cuts place put (by omega) (by omega) with rfl | further
    · omega
    · exact further
  | element tag inside close next ihInside ihNext =>
    obtain ⟨opens, fullInside, closes, fullNext⟩ := full_element full
    rw [width_element] at cuts
    refine ⟨?_, ihInside fullInside ?_, ihNext fullNext ?_⟩
    · -- A cut where the content would be is one of content, or of what comes after the element.
      intro empty closed
      subst empty
      rw [Bool.eq_false_iff]
      intro put
      obtain ⟨close, rfl⟩ := Option.isSome_iff_exists.1 closed
      have := closes close rfl
      simp only [width_nil, Option.map_some, Option.getD_some] at cuts
      rcases cuts _ put (by omega) (by omega) with same | within | ⟨_, _, nonempty⟩ | later
      · omega
      · exact within
      · exact nonempty rfl
      · have := later.bounds fullNext
        simp only [width_nil, Option.map_some, Option.getD_some] at this
        omega
    -- Elsewhere the place tells which of the cuts it can be.
    · intro place put later before
      rcases cuts place put (by omega) (by omega) with rfl | within | ⟨rfl, _, _⟩ | later'
      · omega
      · exact within
      · omega
      · have := later'.bounds fullNext
        omega
    · intro place put later before
      rcases cuts place put (by omega) (by omega) with rfl | within | ⟨rfl, closed, _⟩ | later'
      · omega
      · have := within.bounds fullInside
        omega
      · obtain ⟨close, rfl⟩ := Option.isSome_iff_exists.1 closed
        have := closes close rfl
        simp only [Option.map_some, Option.getD_some] at later
        omega
      · exact later'

/-- A piece starts at every cut. -/
theorem Cut.mem_starts {place offset : Nat} (cut : outline.Cut place offset) :
    place ∈ Piece.starts offset outline.pieces := by
  unfold Piece.starts
  induction outline generalizing offset with
  | nil => exact cut.elim
  | single piece next ih =>
    rcases cut with rfl | later
    · exact List.mem_cons_self
    · exact List.mem_cons_of_mem _ (ih later)
  | element tag inside close next ihInside ihNext =>
    rw [pieces_element, Piece.spansFrom, List.append_assoc, Piece.spansFrom_append,
      Piece.spansFrom_append]
    simp only [List.map_cons, List.map_append, List.mem_cons, List.mem_append]
    rcases cut with rfl | within | ⟨rfl, closed, _⟩ | later
    · exact Or.inl rfl
    · exact Or.inr (Or.inl (ihInside within))
    · obtain ⟨close, rfl⟩ := Option.isSome_iff_exists.1 closed
      exact Or.inr (Or.inr (Or.inl List.mem_cons_self))
    · refine Or.inr (Or.inr (Or.inr ?_))
      rw [byteLength_close]
      exact ihNext later

end Outline

end TagLint
