import TagLint.Config.JsonForm
import Mathlib.Data.List.Nodup

/-!
Changes to the sections of a configuration in JSON.

What a section may hold is told by the form of what holds where nothing is said: its keys, and the
values they have then. A decoder that `Reads` such a form gives the same when a member is left out
that holds what its key has anyway, and refuses a member of any other key, in the section or in one
inside it. The decoders are built from `section?` and `key?`, and so are the proofs that they read.
-/
namespace TagLint

namespace Json

/-- The members lose one that holds what its key has anyway. -/
def LosesInitial (initials before after : List (String × Json)) : Prop :=
  ∃ front key value back, initials.lookup key = some value ∧
    before = front ++ (key, value) :: back ∧ after = front ++ back

/-- The members gain one whose key the section does not have. -/
def GainsUnknown (initials before after : List (String × Json)) : Prop :=
  ∃ front key value back, initials.lookup key = none ∧
    before = front ++ back ∧ after = front ++ (key, value) :: back

/-- One change to the members of a section, or to those of a section inside it, at any depth;
`initial` is the form of what holds where nothing is said. -/
inductive Changes (change : (initials before after : List (String × Json)) → Prop) :
    (initial before after : Json) → Prop where
  | here {initials before after : List (String × Json)} (changed : change initials before after) :
    Changes change (object initials) (object before) (object after)
  | inside {initials front back : List (String × Json)} {key : String}
    {initial before after : Json} (known : initials.lookup key = some initial)
    (changed : Changes change initial before after) :
    Changes change (object initials) (object (front ++ (key, before) :: back))
      (object (front ++ (key, after) :: back))

section Lookup

variable {key : String} {value : Json} {front back : List (String × Json)}

theorem lookup_middle (distinct : ((front ++ (key, value) :: back).map Prod.fst).Nodup) :
    (front ++ (key, value) :: back).lookup key = some value := by
  have absent : front.lookup key = none := by
    rw [List.lookup_eq_none_iff]
    intro member inside
    simp only [List.map_append, List.map_cons, List.nodup_append] at distinct
    have other := distinct.2.2 member.1 (List.mem_map_of_mem inside) key (by simp)
    simpa using other.symm
  simp [List.lookup_append, absent]

theorem lookup_without (distinct : ((front ++ (key, value) :: back).map Prod.fst).Nodup) :
    (front ++ back).lookup key = none := by
  rw [List.map_append, List.map_cons, List.nodup_middle, List.nodup_cons, ← List.map_append]
    at distinct
  rw [List.lookup_eq_none_iff]
  intro member inside
  have other : key ≠ member.1 := by
    rintro rfl
    exact distinct.1 (List.mem_map.2 ⟨member, inside, rfl⟩)
  simpa using other

theorem lookup_beside {other : String} (apart : other ≠ key) :
    (front ++ (key, value) :: back).lookup other = (front ++ back).lookup other := by
  have differs : (other == key) = false := by simpa using apart
  simp [List.lookup_append, List.lookup_cons, differs]

/-- Under distinct keys, each member is found under its own. -/
theorem lookup_of_mem {members : List (String × Json)} (distinct : (members.map Prod.fst).Nodup)
    {member : String × Json} (inside : member ∈ members) :
    members.lookup member.1 = some member.2 := by
  obtain ⟨front, back, rfl⟩ := List.append_of_mem inside
  exact lookup_middle distinct

theorem mem_of_lookup {members : List (String × Json)} (found : members.lookup key = some value) :
    (key, value) ∈ members := by
  obtain ⟨front, back, rfl, -⟩ := List.lookup_eq_some_iff.1 found
  simp

end Lookup

/-- A section stays one. -/
theorem Changes.members {change : (initials before after : List (String × Json)) → Prop}
    {initials : List (String × Json)} {before after : Json}
    (changes : Changes change (object initials) before after) :
    ∃ old new, before = object old ∧ after = object new := by
  cases changes with
  | here => exact ⟨_, _, rfl, rfl⟩
  | inside => exact ⟨_, _, rfl, rfl⟩

/-- A section that loses members gets no new keys. -/
theorem Changes.keys_sublist {initials before after : List (String × Json)}
    (changes : Changes LosesInitial (object initials) (object before) (object after)) :
    (after.map Prod.fst).Sublist (before.map Prod.fst) := by
  cases changes with
  | here changed =>
    obtain ⟨front, key, value, back, -, rfl, rfl⟩ := changed
    exact ((List.Sublist.refl front).append (List.sublist_cons_self _ _)).map Prod.fst
  | inside => simp

end Json

namespace Setting

open Json (LosesInitial GainsUnknown Changes)

/-- The decoder reads sections of this form: the form itself as `fallback`, any form with fewer of
the members that hold anyway as the one with them, and none with a member of an unknown key. -/
structure Reads {β : Type} (decode : Json → Option β) (initial : Json) (fallback : β) : Prop where
  initially : decode initial = some fallback
  loses : ∀ {before after : Json} {b : β}, Changes LosesInitial initial before after →
    decode before = some b → decode after = some b
  gains : ∀ {before after : Json}, Changes GainsUnknown initial before after →
    decode after = none

/-- What `Reads` says of changes, for a decoder of the members with these keys and forms. -/
structure ReadsMembers {β : Type} (decode : List (String × Json) → Option β)
    (fields : List (String × Json)) : Prop where
  loses : ∀ {initials before after : List (String × Json)} {b : β},
    (∀ field ∈ fields, initials.lookup field.1 = some field.2) →
      (before.map Prod.fst).Nodup → Changes LosesInitial (.object initials) (.object before)
        (.object after) → decode before = some b → decode after = some b
  gains : ∀ {members : List (String × Json)} {key : String} {initial before after : Json},
    (key, initial) ∈ fields → members.lookup key = some after →
      Changes GainsUnknown initial before after → decode members = none

variable {β γ : Type}

/-- The first member has the key. -/
@[simp] theorem key?_cons_self (key : String) (value : Json) (members : List (String × Json))
    (fallback : β) (decode : Json → Option β) :
    key? ((key, value) :: members) key fallback decode = decode value := by
  simp [key?]

/-- The first member has another key. -/
@[simp] theorem key?_cons_ne {key other : String} (apart : key ≠ other) (value : Json)
    (members : List (String × Json)) (fallback : β) (decode : Json → Option β) :
    key? ((other, value) :: members) key fallback decode = key? members key fallback decode := by
  have differs : (key == other) = false := by simpa using apart
  simp [key?, List.lookup_cons, differs]

/-- A value that is no section has no members to lose or to gain. -/
theorem Reads.leaf {decode : Json → Option β} {initial : Json} {fallback : β}
    (initially : decode initial = some fallback)
    (noSection : ∀ members, initial ≠ .object members) : Reads decode initial fallback := by
  refine { initially, loses := ?loses, gains := ?gains }
  case loses =>
    intro before after b changes
    cases changes <;> exact absurd rfl (noSection _)
  case gains =>
    intro before after changes
    cases changes <;> exact absurd rfl (noSection _)

/-- What a key gives lasts when a member is left out. -/
theorem Reads.key?_loses {decode : Json → Option β} {initial : Json} {fallback b : β}
    (reads : Reads decode initial fallback) {initials before after : List (String × Json)}
    {key : String} (known : initials.lookup key = some initial)
    (distinct : (before.map Prod.fst).Nodup)
    (changes : Changes LosesInitial (.object initials) (.object before) (.object after))
    (found : key? before key fallback decode = some b) :
    key? after key fallback decode = some b := by
  cases changes with
  | here changed =>
    obtain ⟨front, other, value, back, holds, rfl, rfl⟩ := changed
    by_cases same : key = other
    · -- The member that is left out says what the key has without it.
      subst same
      obtain rfl : initial = value := Option.some.inj (known.symm.trans holds)
      rw [key?, Json.lookup_middle distinct] at found
      rw [key?, Json.lookup_without distinct]
      exact reads.initially.symm.trans found
    · rw [key?, Json.lookup_beside same] at found
      exact found
  | @inside _ front back other initial' before after known' changed =>
    by_cases same : key = other
    · subst same
      obtain rfl : initial = initial' := Option.some.inj (known.symm.trans known')
      -- The change is inside the value of the key, so it is for the key's own decoder.
      have distinct' : ((front ++ (key, after) :: back).map Prod.fst).Nodup := by
        simpa using distinct
      rw [key?, Json.lookup_middle distinct] at found
      rw [key?, Json.lookup_middle distinct']
      exact reads.loses changed found
    · rw [key?, Json.lookup_beside same] at found ⊢
      exact found

/-- A decoder that looks at no member. -/
theorem ReadsMembers.done (b : β) : ReadsMembers (fun _ => pure b) [] where
  loses _ _ _ found := found
  gains member := nomatch member

/-- A decoder that looks up a key first. -/
theorem ReadsMembers.key {decode : Json → Option β} {key : String} {initial : Json} {fallback : β}
    {next : β → List (String × Json) → Option γ} {fields : List (String × Json)}
    (reads : Reads decode initial fallback) (others : ∀ b, ReadsMembers (next b) fields) :
    ReadsMembers (fun members => key? members key fallback decode >>= fun b => next b members)
      ((key, initial) :: fields) := by
  refine { loses := ?loses, gains := ?gains }
  case loses =>
    intro initials before after c known distinct changes found
    obtain ⟨first, rest⟩ := List.forall_mem_cons.1 known
    obtain ⟨b, here, found⟩ := Option.bind_eq_some_iff.1 found
    exact Option.bind_eq_some_iff.2 ⟨b, reads.key?_loses first distinct changes here,
      (others b).loses rest distinct changes found⟩
  case gains =>
    intro members other initial' before after member found changes
    rcases List.mem_cons.1 member with same | member
    · obtain ⟨rfl, rfl⟩ := Prod.mk.inj same
      rw [key?, found]
      simp only [reads.gains changes]
      rfl
    · exact Option.bind_eq_none_iff.2 fun b _ => (others b).gains member found changes

/-- A decoder that looks up a key and no other. -/
theorem ReadsMembers.only {decode : Json → Option β} {key : String} {initial : Json}
    {fallback : β} (reads : Reads decode initial fallback) :
    ReadsMembers (fun members => key? members key fallback decode) [(key, initial)] := by
  simpa using ReadsMembers.key reads .done

/-- A section is read by its members. -/
theorem section?_eq_some_iff {keys : List String}
    {members found : List (String × Json)} : section? keys (.object members) = some found ↔
      found = members ∧ (∀ key ∈ members.map Prod.fst, key ∈ keys) ∧
        (members.map Prod.fst).Nodup := by
  have laid : members? keys (Json.object members) = some members := rfl
  simp only [section?, laid, Option.filter_some, Option.ite_none_right_eq_some, Bool.and_eq_true,
    List.all_eq_true, List.contains_iff_mem, decide_eq_true_eq, List.forall_mem_map,
    Option.some.injEq]
  constructor
  · rintro ⟨inner, rfl⟩
    exact ⟨rfl, inner⟩
  · rintro ⟨rfl, inner⟩
    exact ⟨inner, rfl⟩

/-- A section with each of its keys once. -/
theorem section?_full {keys : List String} {members : List (String × Json)}
    (distinct : keys.Nodup)
    (same : members.map Prod.fst = keys) : section? keys (.object members) = some members := by
  subst same
  exact section?_eq_some_iff.2 ⟨rfl, fun _ member => member, distinct⟩

/-- A decoder of a section. -/
theorem Reads.section {keys : List String} {decode : List (String × Json) → Option β}
    {fields : List (String × Json)} {fallback : β} (distinct : keys.Nodup)
    (same : fields.map Prod.fst = keys)
    (initially : (section? keys (Json.object fields) >>= decode) = some fallback)
    (reads : ReadsMembers decode fields) :
    Reads (fun value => section? keys value >>= decode) (.object fields) fallback := by
  subst same
  have found : ∀ field ∈ fields, fields.lookup field.1 = some field.2 := fun _ member =>
    Json.lookup_of_mem distinct member
  refine { initially, loses := ?loses, gains := ?gains }
  case loses =>
    intro before after b changes decoded
    obtain ⟨old, new, rfl, rfl⟩ := changes.members
    obtain ⟨members, opened, given⟩ := Option.bind_eq_some_iff.1 decoded
    obtain ⟨rfl, inside, apart⟩ := section?_eq_some_iff.1 opened
    have fewer := changes.keys_sublist
    have opened' := section?_eq_some_iff.2
      ⟨rfl, fun key member => inside key (fewer.subset member), apart.sublist fewer⟩
    exact Option.bind_eq_some_iff.2 ⟨new, opened', reads.loses found apart changes given⟩
  case gains =>
    intro before after changes
    obtain ⟨old, new, rfl, rfl⟩ := changes.members
    refine Option.bind_eq_none_iff.2 fun members opened => ?_
    obtain ⟨rfl, inside, apart⟩ := section?_eq_some_iff.1 opened
    cases changes with
    | here changed =>
      obtain ⟨front, key, value, back, unknown, rfl, rfl⟩ := changed
      -- A section with the key would have a form for it.
      obtain ⟨field, member, rfl⟩ := List.mem_map.1 (inside key (by simp))
      exact absurd ((found field member).symm.trans unknown) (by simp)
    | inside known changed =>
      exact reads.gains (Json.mem_of_lookup known) (Json.lookup_middle apart) changed

end Setting
end TagLint
