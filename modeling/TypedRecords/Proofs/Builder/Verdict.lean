import TypedRecords.Proofs.Builder.Refusal

/-! The verdict on a write. It is a function of the declared schema and of the write, so that two
builders over one schema accept the same writes and refuse the others with the same errors, whatever
was written to them before and whatever their policies are. -/
namespace TypedRecords.Builder

section Verdict

variable {b c : Builder}

theorem declaredObjection?_congr (same : b.declared? = c.declared?) (name : String)
    (type : FieldType) (isNull : Bool) :
    b.declaredObjection? name type isNull = c.declaredObjection? name type isNull := by
  rw [declaredObjection?, declaredObjection?, same]

theorem objection?_congr (same : b.declared? = c.declared?) (entry : Entry) (setter : FieldType)
    (input : FieldInput) : b.objection? entry setter input = c.objection? entry setter input := by
  rw [objection?, objection?, declaredObjection?_congr same]

/-- The entry may refuse what is to be stored, after all other checks. A policy that stores
something for a null does so under nullable entries only, where the null would not be refused. -/
theorem append_stored?_error? (b : Builder) (entry : Entry) (setter : FieldType)
    (input : FieldInput) : (b.append entry (b.stored? entry setter input)).error? =
      if input.isNull && !entry.nullable then some (.notNullable entry.name) else none := by
  cases input with
  | null =>
    by_cases nullable : entry.nullable = true
    · rw [append_of_nullable fun _ => nullable]
      simp [nullable]
    · have nothing : b.stored? entry setter .null = none := by
        simp [stored?, nullValue?, nullable]
      simp [nothing, append, nullable, FieldInput.isNull]
  | temporal t => rfl
  | value v => cases v <;> rfl

/-- Only the checks before the last one ask the builder, and only for its declared schema. -/
theorem set_error? (b : Builder) (entry : Entry) (setter : FieldType) (input : FieldInput) :
    (b.set entry setter input).error? = (b.objection? entry setter input).or
      (if input.isNull && !entry.nullable then some (.notNullable entry.name) else none) := by
  unfold set
  cases b.objection? entry setter input with
  | some error => rfl
  | none => rw [Option.none_or, ← append_stored?_error? b entry setter input]

theorem write_error?_congr (same : b.declared? = c.declared?) (w : Write) :
    (b.write w).error? = (c.write w).error? := by
  rw [write_eq, write_eq, entryOf_congr same]
  cases c.entryOf w with
  | error error => rfl
  | ok entry =>
    simp only [set_error?]
    rw [objection?_congr same]

/-- A write answers the same wherever it stands. -/
theorem answers_eq_map (same : b.declared? = c.declared?) (writes : List Write) :
    b.answers writes = writes.map fun w => (c.write w).error? := by
  induction writes generalizing b with
  | nil => rfl
  | cons w writes ih =>
    have still : (b.write w).builder.declared? = c.declared? := by
      rw [write_declared?, same]
    rw [answers_cons, List.map_cons, write_error?_congr same, ih still]

end Verdict

/-- Two builders with one declared schema, or both without one, answer every write alike, after any
writes and under any policies. So the answers of a run are those of a new builder to each of its
writes alone. -/
theorem verdict_independent {b c : Builder} (same : b.declared? = c.declared?)
    (writes others : List Write) :
    (∀ w, ((b.run writes).write w).error? = ((c.run others).write w).error?) ∧
    ∀ policy later, (b.run writes).answers later =
      later.map fun w => ((start c.declared? policy).write w).error? := by
  have left : (b.run writes).declared? = c.declared? := by rw [run_declared?, same]
  have right : (c.run others).declared? = c.declared? := run_declared? c others
  refine ⟨fun w => write_error?_congr (left.trans right.symm) w, fun policy later => ?_⟩
  exact answers_eq_map (c := start c.declared? policy) left later

/-- A null that would be stored under this policy, if its entry were nullable. -/
theorem verdict_independent_sentinel :
    let schema : Schema := { type := .record, entries := [{ name := "at", type := .dateTime }] }
    let b : Builder := { (start (some schema) {}).run [.named "at" (.timestamp 5)] with
      policy := ⟨.keepAll, .sentinel⟩ }
    let c := start (some schema) {}
    b.declared? = c.declared? ∧
      ((b.run [.named "in" (.int 1)]).write (.namedNull "at" .dateTime)).error? =
        some (.notNullable "at") ∧
      (c.write (.namedNull "at" .dateTime)).error? = some (.notNullable "at") ∧
      b.answers [.namedNull "at" .dateTime, .named "in" (.int 1)] =
        [some (.notNullable "at"), some (.unknownEntry "in" ["at"])] := by
  intro schema b c
  have alike := verdict_independent (b := b) (c := c) rfl
  have refused : (c.write (.namedNull "at" .dateTime)).error? = some (.notNullable "at") := rfl
  refine ⟨rfl, ?_, refused, ?_⟩
  · exact ((alike [.named "in" (.int 1)] []).1 _).trans refused
  · exact ((alike [] []).2 {} _).trans rfl

end TypedRecords.Builder
