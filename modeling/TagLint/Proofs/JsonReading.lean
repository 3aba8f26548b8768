import TagLint.Proofs.JsonLexemes

/-!
Written JSON is read back.

On the lexemes of a value the reader comes to the state in which the value is finished
(`Reader.run_cut`), as long as the containers around it leave room for those inside. So both
layouts read back as the value that was written (`read?_compact`, `read?_indented`).
-/
namespace TagLint.Json

namespace Reader

/-- A run over two stretches of lexemes is a run over the second after one over the first. -/
theorem run_append (reader : Reader) (first second : List Lexeme) :
    reader.run (first ++ second) = (reader.run first).bind fun next => next.run second := by
  induction first generalizing reader with
  | nil => rfl
  | cons lexeme first ih =>
    cases moved : reader.step lexeme with
    | none => simp [run, moved]
    | some next => simp [run, moved, ih]

/-- The lexemes of a value finish it in the innermost container, where a value is expected. -/
def Takes (containers : List Container) (value : Json) : Prop :=
  run ⟨containers, .value⟩ (cut value) = some (finish containers value)

/-- A value does not start with the end of an array. -/
theorem run_firstItem (containers : List Container) (value : Json) (more : List Lexeme) :
    run ⟨containers, .firstItem⟩ (cut value ++ more) =
      run ⟨containers, .value⟩ (cut value ++ more) := by
  cases value <;> rfl

/-- An array goes on with the items that are left. -/
theorem run_items {items done : List Json} {outer : List Container}
    (each : ∀ item ∈ items, ∀ done, Takes (.array done :: outer) item) :
    run ⟨.array done :: outer, .afterValue⟩ (cutItems false items) =
      some ⟨.array (items.reverse ++ done) :: outer, .afterValue⟩ := by
  induction items generalizing done with
  | nil => rfl
  | cons item items ih =>
    have first := each item (by simp) done
    have others : run ⟨.array (item :: done) :: outer, .afterValue⟩ (cutItems false items) =
        some ⟨.array (items.reverse ++ item :: done) :: outer, .afterValue⟩ :=
      ih fun item inside => each item (List.mem_cons_of_mem _ inside)
    have comma : run ⟨.array done :: outer, .afterValue⟩ (cutItems false (item :: items)) =
        run ⟨.array done :: outer, .value⟩ (cut item ++ cutItems false items) := by
      simp [cutItems, run, step]
    rw [comma, run_append, first, Option.bind_some, finish, others]
    simp

/-- An array starts with its first item. -/
theorem run_array {items : List Json} {outer : List Container}
    (each : ∀ item ∈ items, ∀ done, Takes (.array done :: outer) item) :
    run ⟨.array [] :: outer, .firstItem⟩ (cutItems true items ++ [.rightBracket]) =
      some (finish outer (array items)) := by
  cases items with
  | nil => rfl
  | cons item items =>
    have first := each item (by simp) []
    have others : run ⟨.array [item] :: outer, .afterValue⟩ (cutItems false items) =
        some ⟨.array (items.reverse ++ [item]) :: outer, .afterValue⟩ :=
      run_items fun item inside => each item (List.mem_cons_of_mem _ inside)
    have start : cutItems true (item :: items) ++ [.rightBracket] =
        cut item ++ (cutItems false items ++ [.rightBracket]) := by
      simp [cutItems]
    rw [start, run_firstItem, run_append, first, Option.bind_some, finish, run_append, others]
    simp [run, step, closeContainer]

/-- An object goes on with a member where a key is expected. -/
theorem run_member {key : String} {value : Json} {done : List (String × Json)} {rest : String}
    {outer : List Container} {stage : Stage} (expects : stage = .firstKey ∨ stage = .key)
    (takes : Takes (.object done key :: outer) value) :
    run ⟨.object done rest :: outer, stage⟩ (cutMember (key, value)) =
      some ⟨.object ((key, value) :: done) "" :: outer, .afterValue⟩ := by
  have opened : run ⟨.object done rest :: outer, stage⟩ (cutMember (key, value)) =
      run ⟨.object done key :: outer, .value⟩ (cut value) := by
    rcases expects with rfl | rfl <;> simp [cutMember, run, step, startKey]
  rw [opened, takes, finish]

/-- An object goes on with the members that are left. -/
theorem run_members {members done : List (String × Json)} {outer : List Container}
    (each : ∀ member ∈ members, ∀ done, Takes (.object done member.1 :: outer) member.2) :
    run ⟨.object done "" :: outer, .afterValue⟩ (cutMembers false members) =
      some ⟨.object (members.reverse ++ done) "" :: outer, .afterValue⟩ := by
  induction members generalizing done with
  | nil => rfl
  | cons member members ih =>
    have first := each member (by simp) done
    have others : run ⟨.object (member :: done) "" :: outer, .afterValue⟩
          (cutMembers false members) =
        some ⟨.object (members.reverse ++ member :: done) "" :: outer, .afterValue⟩ :=
      ih fun member inside => each member (List.mem_cons_of_mem _ inside)
    have comma : run ⟨.object done "" :: outer, .afterValue⟩
          (cutMembers false (member :: members)) =
        run ⟨.object done "" :: outer, .key⟩ (cutMember member ++ cutMembers false members) := by
      simp [cutMembers, cutMember, run, step]
    rw [comma, run_append, run_member (.inr rfl) first, Option.bind_some, others]
    simp

/-- An object starts with its first member. -/
theorem run_object {members : List (String × Json)} {outer : List Container}
    (each : ∀ member ∈ members, ∀ done, Takes (.object done member.1 :: outer) member.2) :
    run ⟨.object [] "" :: outer, .firstKey⟩ (cutMembers true members ++ [.rightBrace]) =
      some (finish outer (object members)) := by
  cases members with
  | nil => rfl
  | cons member members =>
    have first := each member (by simp) []
    have others : run ⟨.object [member] "" :: outer, .afterValue⟩ (cutMembers false members) =
        some ⟨.object (members.reverse ++ [member]) "" :: outer, .afterValue⟩ :=
      run_members fun member inside => each member (List.mem_cons_of_mem _ inside)
    have start : cutMembers true (member :: members) ++ [.rightBrace] =
        cutMember member ++ (cutMembers false members ++ [.rightBrace]) := by
      simp [cutMembers, cutMember]
    rw [start, run_append, run_member (.inl rfl) first, Option.bind_some, run_append, others]
    simp [run, step, closeContainer]

/-- A value is taken wherever there is room for its containers. -/
theorem takes_of_isWritable {depth : Nat} {value : Json} (writable : IsWritable depth value)
    {containers : List Container} (room : containers.length + depth ≤ maxDepth) :
    Takes containers value := by
  -- A container adds one to those around the values in it, which leaves them their smaller depth.
  induction writable generalizing containers with
  | null => rfl
  | bool => rfl
  | number => rfl
  | string => rfl
  | array _ ih =>
    have inside : containers.length < maxDepth := by omega
    have opened : ∀ more, run ⟨containers, .value⟩ (.leftBracket :: more) =
        run ⟨.array [] :: containers, .firstItem⟩ more := by
      intro more
      simp [run, step, startValue, inside]
    rw [Takes, cut, List.cons_append, opened, run_array]
    exact fun item member done => ih item member (by simp only [List.length_cons]; omega)
  | object _ ih =>
    have inside : containers.length < maxDepth := by omega
    have opened : ∀ more, run ⟨containers, .value⟩ (.leftBrace :: more) =
        run ⟨.object [] "" :: containers, .firstKey⟩ more := by
      intro more
      simp [run, step, startValue, inside]
    rw [Takes, cut, List.cons_append, opened, run_object]
    exact fun item member done => ih item member (by simp only [List.length_cons]; omega)

end Reader

/-- A text that is cut into the lexemes of a value reads as the value. -/
theorem read?_of_cuts {t : Text} {depth : Nat} {value : Json} (cuts : Cuts t (cut value))
    (writable : IsWritable depth value) (room : depth ≤ Reader.maxDepth) :
    read? t = some value := by
  have lexemes : lexemes? t = some (cut value) := by
    have whole := cuts [] endsNumber_nil
    simpa [lexemes?] using whole
  have taken : Reader.run ⟨[], .value⟩ (cut value) = some ⟨[], .done value⟩ :=
    Reader.takes_of_isWritable writable (by simpa using room)
  simp [read?, lexemes, taken]

/-- The compact layout reads back, in either charset. -/
theorem read?_compact (charset : Charset) {depth : Nat} {value : Json}
    (writable : IsWritable depth value) (room : depth ≤ Reader.maxDepth) :
    read? (compact charset value) = some value :=
  read?_of_cuts (cuts_compact charset writable) writable room

/-- The indented layout reads back. -/
theorem read?_indented (steps : Nat) {depth : Nat} {value : Json}
    (writable : IsWritable depth value) (room : depth ≤ Reader.maxDepth) :
    read? (indented steps value) = some value :=
  read?_of_cuts (cuts_indented writable steps) writable room

end TagLint.Json
