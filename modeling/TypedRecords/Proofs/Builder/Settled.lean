import TypedRecords.Proofs.Builder.Soundness
import TypedRecords.Proofs.Schema.Distinct

/-! Finished records whose schemas have one entry for each name: those of builders over frozen
drafts, and those whose entries were collapsed. The entry of a name says all there is to say about
its value. -/
namespace TypedRecords

namespace Record

/-- The values agree with the entries, whatever led to them. -/
structure Settled (r : Record) : Prop where
  sorted : NameMap.Sorted r.values
  distinct : r.schema.names.Nodup
  described : ∀ entry ∈ r.schema.entries, entry.lacksElement = false
  typed : ∀ name v, (name, v) ∈ r.values →
    ∃ entry, r.schema.entry? name = some entry ∧ entry.type.accepts v = true
  complete : ∀ entry ∈ r.schema.entries, r.value? entry.name = none → entry.nullable = true

theorem Settled.entry_accepts {r : Record} (settled : r.Settled) {entry : Entry}
    (member : entry ∈ r.schema.entries) {v : Value} (stored : r.value? entry.name = some v) :
    entry.type.accepts v = true := by
  obtain ⟨known, found, accepts⟩ := settled.typed entry.name v (NameMap.mem_of_find? stored)
  rw [Schema.entry?_of_mem settled.distinct member] at found
  exact Option.some.inj found ▸ accepts

end Record

namespace Builder

/-- Without a declared schema an entry that is kept says what its arrays or records hold. -/
theorem run_observed_described (policy : Policy) (writes : List Write) :
    ∀ entry ∈ ((start none policy).run writes).observed, entry.lacksElement = false := by
  refine (run_preserves (P := fun c => c.declared? = none ∧
    ∀ entry ∈ c.observed, entry.lacksElement = false) ?_ ⟨rfl, by simp [start]⟩ writes).2
  rintro b entry setter input ⟨free, described⟩ admits
  refine ⟨by simpa using free, fun other member => ?_⟩
  rw [stage_observed b entry _ free] at member
  rcases List.mem_append.mp member with before | last
  · exact described other before
  · obtain rfl := List.mem_singleton.mp last
    exact admits.element

/-- A frozen draft has one entry for each name, and so have entries that are collapsed. -/
theorem run_schema_distinct {declared? : Option Schema} {policy : Policy} (writes : List Write)
    (origin : declared? = none ∧ policy.duplicateEntries = .lastWins ∨
      ∃ draft schema, SchemaDraft.freeze draft = .ok schema ∧ declared? = some schema) :
    let schema := ((start declared? policy).run writes).schema
    schema.names.Nodup ∧ ∀ entry ∈ schema.entries, entry.lacksElement = false := by
  have declared := run_declared? (start declared? policy) writes
  rcases origin with ⟨rfl, collapses⟩ | ⟨draft, schema, frozen, rfl⟩
  · have stillCollapses :
        ((start none policy).run writes).policy.duplicateEntries = .lastWins := by
      rw [run_policy]
      exact collapses
    refine ⟨schema_names_nodup declared stillCollapses, fun entry member => ?_⟩
    exact run_observed_described policy writes entry (mem_observed_of_schema declared member)
  · rw [schema_of_declared declared]
    exact (SchemaDraft.freeze_eq_ok_iff.mp frozen).2

/-- The records of builders over frozen drafts, and those whose entries are collapsed. -/
theorem build_settled {declared? : Option Schema} {policy : Policy} {writes : List Write}
    {r : Record}
    (origin : declared? = none ∧ policy.duplicateEntries = .lastWins ∨
      ∃ draft schema, SchemaDraft.freeze draft = .ok schema ∧ declared? = some schema)
    (built : ((start declared? policy).run writes).build = .ok r) : r.Settled := by
  obtain ⟨distinct, described⟩ := run_schema_distinct writes origin
  have sound := run_sound declared? policy writes
  have sorted := run_staged_sorted declared? policy writes
  generalize (start declared? policy).run writes = b at *
  obtain ⟨complete, rfl⟩ := build_eq_ok_iff.mp built
  refine ⟨sorted, distinct, described, fun name v member => ?_, fun entry member absent => ?_⟩
  · rw [← Schema.lastEntry?_eq_entry? distinct]
    exact sound.typed name v (sorted.find?_of_mem member)
  · cases declared : b.declared? with
    | none =>
      refine sound.optional declared entry.name entry absent ?_
      rw [Schema.lastEntry?_eq_entry? distinct]
      exact Schema.entry?_of_mem distinct member
    | some schema =>
      dsimp only at member
      rw [schema_of_declared declared] at member
      exact missing_eq_nil declared complete member absent

end Builder

end TypedRecords
