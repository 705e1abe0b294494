import TypedRecords.Proofs.Builder.Step

/-! Writes of a null. Whichever way a null comes, it is one step through an entry. It has to pass
two entries, the one it is written through and the declared one, and where the schema is declared it
leaves no trace unless the policy stores something for it. -/
namespace TypedRecords.Builder

section Null

variable {b : Builder} {entry : Entry}

theorem admits_null_iff {declared? : Option Schema} :
    Admits declared? entry entry.type .null ↔
      entry.lacksElement = false ∧ entry.nullable = true ∧
      ∀ schema, declared? = some schema → ∃ known, schema.indexed? entry.name = some known ∧
        known.type = entry.type ∧ known.nullable = true := by
  simp only [Schema.indexed?_eq_lastEntry?]
  constructor
  · intro admits
    refine ⟨admits.element, admits.nullable rfl, fun schema declared => ?_⟩
    obtain ⟨known, found, typed, nullable⟩ := admits.declared schema declared
    exact ⟨known, found, typed, nullable rfl⟩
  · rintro ⟨element, nullable, allowed⟩
    refine ⟨rfl, element, fun schema declared => ?_, rfl, fun _ => nullable⟩
    obtain ⟨known, found, typed, knownNullable⟩ := allowed schema declared
    exact ⟨known, found, typed, fun _ => knownNullable⟩

theorem nullThrough_accepted_iff : (b.write (.nullThrough entry)).error? = none ↔
    Admits b.declared? entry entry.type .null := by
  rw [write_accepted_iff]
  simp [entryOf, Write.setter, Write.input]

/-- Where a schema is declared nothing is dropped for a null. -/
theorem stage_null_of_declared {schema : Schema} (declared : b.declared? = some schema)
    (nullable : entry.nullable = true) : b.stage entry (b.nullValue? entry) =
      if entry.type = .dateTime ∧ b.policy.nullDateTime = .sentinel then
        { b with staged := b.staged.insert entry.name (.dateTime (-1)) }
      else b := by
  unfold nullValue?
  by_cases sentinel : entry.type = .dateTime ∧ b.policy.nullDateTime = .sentinel
  · simp [sentinel, nullable, stage, observe, declared]
  · have quiet : ¬ (entry.type = .dateTime ∧ entry.nullable = true ∧
        b.policy.nullDateTime = .sentinel) := by
      rintro ⟨typed, -, chosen⟩
      exact sentinel ⟨typed, chosen⟩
    simp [sentinel, quiet, stage, dropStale, observe, declared]

end Null

/-- The writes that bring a null to an entry are one: as such, as an input, as an input that is left
out, and by name where the name leads to the entry. The null is accepted exactly if the entry says
what it holds and is nullable, and where a schema is declared, if the entry that is found there has
its type and is nullable too. No policy lets a null pass another entry, and where a schema is
declared an accepted null stores the sentinel under the name of its entry or changes no value. -/
theorem null_paths_agree (b : Builder) (entry : Entry) :
    let result := b.write (.nullThrough entry)
    b.write (.generic entry .null) = result ∧
    (∀ (α : Type) (input : α → FieldInput),
      b.write (.generic entry (.ofOption input none)) = result) ∧
    (∀ name type, b.entryOf (.namedNull name type) = .ok entry → entry.type = type →
      b.write (.namedNull name type) = result) ∧
    (result.error? = none ↔ entry.lacksElement = false ∧ entry.nullable = true ∧
      ∀ schema, b.declared? = some schema → ∃ known, schema.indexed? entry.name = some known ∧
        known.type = entry.type ∧ known.nullable = true) ∧
    (entry.nullable = false → ∀ policy,
      ({ b with policy }.write (.nullThrough entry)).error? ≠ none) ∧
    ∀ schema, b.declared? = some schema → result.error? = none →
      ∀ name, result.builder.value? name =
        if entry.type = .dateTime ∧ b.policy.nullDateTime = .sentinel ∧ name = entry.name then
          some (.dateTime (-1))
        else b.value? name := by
  intro result
  refine ⟨rfl, fun _ _ => rfl, fun name type through typed => ?_, ?_, ?_, ?_⟩
  · subst typed
    rw [write_eq, through]
    rfl
  · exact nullThrough_accepted_iff.trans admits_null_iff
  · intro required policy accepted
    have nullable := (admits_null_iff.mp (nullThrough_accepted_iff.mp accepted)).2.1
    simp [required] at nullable
  · intro schema declared accepted name
    have admits := nullThrough_accepted_iff.mp accepted
    have staged : result.builder = b.stage entry (b.nullValue? entry) :=
      congrArg WriteResult.builder (set_of_admits admits)
    rw [staged, stage_null_of_declared declared (admits_null_iff.mp admits).2.1]
    by_cases sentinel : entry.type = .dateTime ∧ b.policy.nullDateTime = .sentinel
    · simp [sentinel, value?]
    · have quiet : ¬ (entry.type = .dateTime ∧ b.policy.nullDateTime = .sentinel ∧
          name = entry.name) := by
        rintro ⟨typed, chosen, -⟩
        exact sentinel ⟨typed, chosen⟩
      rw [if_neg sentinel, if_neg quiet]

/-- The sentinel does not make an entry nullable, neither the declared one nor the other. -/
example :
    let declared (nullable : Bool) : Schema :=
      { type := .record, entries := [{ name := "at", type := .dateTime, nullable }] }
    let answer (schema : Schema) (nullable : Bool) := ((start (some schema) .legacy).write
      (.nullThrough { name := "at", type := .dateTime, nullable })).error?
    answer (declared false) true = some (.notNullable "at") ∧
      answer (declared true) false = some (.notNullable "at") ∧
      answer (declared true) true = none :=
  ⟨rfl, rfl, rfl⟩

end TypedRecords.Builder
