import TypedRecords.Columnar.Batch
import TypedRecords.Proofs.Builder.Normal
import TypedRecords.Proofs.Builder.Soundness
import TypedRecords.Proofs.Columnar.Layout
import TypedRecords.Proofs.Value.Equality

/-! Equal schemas cannot be told apart. What is computed from a schema is computed alike from its
normal form: its columnar layout, the answers of a builder over it, and what the builder leaves. -/
namespace TypedRecords

section Layout

mutual

theorem Entry.field_normal : ∀ entry : Entry, entry.normal.field = entry.field
  | ⟨_, _, _, _, none, _, _⟩ => by
    simp [Entry.normal, normalElement, Entry.field]
  | ⟨name, _, type, _, some element, _, _⟩ => by
    simp [Entry.normal, normalElement, Entry.field, element.nestedType_normal name type]

theorem Schema.nestedType_normal (name : String) (type : FieldType) : ∀ schema : Schema,
    schema.normal.nestedType name type = schema.nestedType name type
  | ⟨_, entries, _⟩ => by simp [Schema.normal, Schema.nestedType, fieldsOf_normal entries]

theorem fieldsOf_normal : ∀ entries : List Entry,
    fieldsOf (normalEntries entries) = fieldsOf entries
  | [] => by simp [normalEntries]
  | entry :: entries => by
    simp [normalEntries, fieldsOf, entry.field_normal, fieldsOf_normal entries]

end

theorem Schema.layout_normal (schema : Schema) : schema.normal.layout = schema.layout := by
  obtain ⟨type, entries, props⟩ := schema
  simp [Schema.layout, Schema.normal, fieldsOf_normal]

end Layout

namespace Builder

/-- Only a value that is no number makes a stored value that is none. -/
theorem stored?_hasNaN {b : Builder} {entry : Entry} {setter : FieldType} {input : FieldInput}
    {v : Value} (number : input.hasNaN = false) (stored : b.stored? entry setter input = some v) :
    v.hasNaN = false := by
  cases input with
  | null =>
    obtain ⟨rfl, -⟩ := nullValue?_some stored
    rfl
  | temporal t => exact Option.some.inj stored ▸ rfl
  | value given =>
    cases given with
    | long millis =>
      obtain rfl := Option.some.inj stored
      split <;> rfl
    | _ => exact Option.some.inj stored ▸ number

theorem leftover?_value? {b : Builder} {entry : Entry} {v : Value}
    (left : b.leftover? entry = some v) : b.value? entry.name = some v := by
  unfold leftover? at left
  split at left
  · exact (Option.filter_eq_some_iff.mp left).1
  · exact left

theorem run_hasNaN (declared? : Option Schema) (policy : Policy) {writes : List Write}
    (numbers : ∀ w ∈ writes, w.input.hasNaN = false) :
    valuesHaveNaN ((start declared? policy).run writes).staged = false := by
  have held : ∀ name v, ((start declared? policy).run writes).value? name = some v →
      v.hasNaN = false := by
    refine run_preserves_of (P := fun b => ∀ name v, b.value? name = some v → v.hasNaN = false)
      (fun b entry w before number _ _ name v found => ?_) (by simp [start, value?]) numbers
    rw [stage_value?] at found
    split at found
    · rcases Option.or_eq_some_iff.mp found with stored | ⟨-, left⟩
      · exact stored?_hasNaN number stored
      · exact before entry.name v (leftover?_value? left)
    · exact before name v found
  refine valuesHaveNaN_eq_false_iff.mpr fun pair member => held pair.1 pair.2 ?_
  exact (run_staged_sorted declared? policy writes).find?_of_mem member

section Equal

variable {schema other : Schema} (same : (schema == other) = true) (policy : Policy)
  (writes : List Write)

include same

theorem start_normal_congr :
    (start (some schema) policy).normal = (start (some other) policy).normal := by
  simp [normal, start, Schema.beq_iff_normal.mp same]

theorem answers_beq :
    (start (some schema) policy).answers writes = (start (some other) policy).answers writes := by
  rw [← answers_normal, start_normal_congr same, answers_normal]

theorem run_normal_congr : ((start (some schema) policy).run writes).normal =
    ((start (some other) policy).run writes).normal := by
  rw [← run_normal, start_normal_congr same, run_normal]

theorem run_staged_beq : ((start (some schema) policy).run writes).staged =
    ((start (some other) policy).run writes).staged := by
  rw [← normal_staged, run_normal_congr same, normal_staged]

theorem checkRequired_beq : ((start (some schema) policy).run writes).checkRequired =
    ((start (some other) policy).run writes).checkRequired := by
  rw [checkRequired, checkRequired, ← missing_normal, run_normal_congr same, missing_normal]

/-- The records are equal where their values are equal to themselves. -/
theorem build_beq {r s : Record} (built : ((start (some schema) policy).run writes).build = .ok r)
    (built' : ((start (some other) policy).run writes).build = .ok s)
    (numbers : ∀ w ∈ writes, w.input.hasNaN = false) : (r == s) = true := by
  obtain ⟨-, rfl⟩ := build_eq_ok_iff.mp built
  obtain ⟨-, rfl⟩ := build_eq_ok_iff.mp built'
  rw [schema_of_declared (run_declared? _ writes), schema_of_declared (run_declared? _ writes),
    ← run_staged_beq same]
  exact Record.beq_of_schema same (run_hasNaN _ policy numbers)

end Equal

end Builder

/-- Equality of schemas is an equivalence, and the equality of their normal forms. Equal schemas
have one layout, or none for the same reason. Over them a builder gives the same answers, holds the
same values and is finished in the same way, with equal records if no value is written that differs
from itself. Records make the same batch under both, or fail alike, on every machine. -/
theorem Schema.beq_congruence :
    (Equivalence fun schema other : Schema => (schema == other) = true) ∧
    (∀ schema other : Schema, (schema == other) = true ↔ schema.normal = other.normal) ∧
    ∀ schema other : Schema, (schema == other) = true →
      schema.layout = other.layout ∧
      (∀ policy writes,
        let first := Builder.start (some schema) policy
        let second := Builder.start (some other) policy
        let b := first.run writes
        let c := second.run writes
        first.answers writes = second.answers writes ∧
        b.staged = c.staged ∧
        b.checkRequired = c.checkRequired ∧
        (∀ error, b.build = .error error ↔ c.build = .error error) ∧
        ∀ r s, b.build = .ok r → c.build = .ok s →
          (∀ w ∈ writes, w.input.hasNaN = false) → (r == s) = true) ∧
      ∀ records, Batch.ofRecords schema records = Batch.ofRecords other records ∧
        ∀ room, Batch.convert room schema records = Batch.convert room other records := by
  refine ⟨Schema.beq_equivalence, fun _ _ => Schema.beq_iff_normal, fun schema other same => ?_⟩
  have layout : schema.layout = other.layout := by
    rw [← schema.layout_normal, Schema.beq_iff_normal.mp same, other.layout_normal]
  refine ⟨layout, fun policy writes => ?_, fun records => ?_⟩
  · refine ⟨Builder.answers_beq same policy writes, Builder.run_staged_beq same policy writes,
      Builder.checkRequired_beq same policy writes, fun error => ?_, fun r s built built' numbers =>
      Builder.build_beq same policy writes built built' numbers⟩
    rw [Builder.build, Builder.build, Builder.checkRequired_beq same]
    simp only [map_eq_error_iff]
  · have filled : Batch.fill schema records = Batch.fill other records := by
      rw [Batch.fill, Batch.fill, layout]
    exact ⟨congrArg Filling.result filled, fun room => congrArg (Filling.run room) filled⟩

def nestedSchema (outer inner : Props) : Schema where
  type := .record
  entries := [{
    name := "list", type := .array, nullable := true
    element? := some {
      type := .record
      entries := [{ name := "x", type := .double, props := inner }]
      props := outer } }]

theorem Schema.beq_congruence_nestedSchema :
    let schema :=
      nestedSchema (.ofList [("k", "1"), ("l", "2")]) (.ofList [("unit", "m"), ("at", "sea")])
    let other :=
      nestedSchema (.ofList [("l", "2"), ("k", "1")]) (.ofList [("at", "sea"), ("unit", "m")])
    let writes : List Write :=
      [.named "list" (.array [.long 1]), .namedNull "list" .array, .named "x" (.int 1)]
    let answers := [none, none, some (.unknownEntry "x" ["list"])]
    schema ≠ other ∧ (schema == other) = true ∧
      schema.layout = other.layout ∧
      (Builder.start (some schema) {}).answers writes = answers ∧
      (Builder.start (some other) {}).answers writes = answers ∧
      ∃ r s, ((Builder.start (some schema) {}).run writes).build = .ok r ∧
        ((Builder.start (some other) {}).run writes).build = .ok s ∧ (r == s) = true := by
  intro schema other writes answers
  have same : (schema == other) = true := Schema.beq_iff_normal.mpr rfl
  obtain ⟨layout, runs, -⟩ := Schema.beq_congruence.2.2 schema other same
  obtain ⟨alike, -, -, -, equal⟩ := runs {} writes
  have apart : schema ≠ other := fun identical => by
    have pairs := congrArg (fun s => s.entries.map fun entry =>
      entry.element?.map fun element => element.props.pairs) identical
    exact absurd pairs (by decide)
  refine ⟨apart, same, layout, rfl, alike.symm, _, _, rfl, rfl, equal _ _ rfl rfl ?_⟩
  simp [writes, Write.input, Payload.input, FieldInput.hasNaN, Value.hasNaN, itemsHaveNaN]

end TypedRecords
