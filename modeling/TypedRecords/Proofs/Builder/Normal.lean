import TypedRecords.Proofs.Builder.Verdict
import TypedRecords.Proofs.Schema.Equality

/-! Builders over normal forms. A builder looks at the names and types of the declared entries, at
what may be null and at what has an element schema, and never at properties. So a write answers over
the normal form of a schema as it does over the schema, and leaves the same values. -/
namespace TypedRecords

namespace Entry

section Normal

variable (entry : Entry)

@[simp] theorem normal_name : entry.normal.name = entry.name := by cases entry; rfl

@[simp] theorem normal_type : entry.normal.type = entry.type := by cases entry; rfl

@[simp] theorem normal_nullable : entry.normal.nullable = entry.nullable := by cases entry; rfl

@[simp] theorem normal_lacksElement : entry.normal.lacksElement = entry.lacksElement := by
  obtain ⟨name, rawName?, type, nullable, element?, comment?, props⟩ := entry
  cases element? <;> rfl

end Normal

end Entry

namespace Schema

theorem normal_entries (schema : Schema) :
    schema.normal.entries = schema.entries.map Entry.normal := by
  cases schema
  exact normalEntries_eq_map _

@[simp] theorem normal_names (schema : Schema) : schema.normal.names = schema.names := by
  simp [names, normal_entries]

@[simp] theorem normal_indexed? (schema : Schema) (name : String) :
    schema.normal.indexed? name = (schema.indexed? name).map Entry.normal := by
  rw [schema.indexed?_eq_lastEntry?, schema.normal.indexed?_eq_lastEntry?, lastEntry?, lastEntry?,
    Entry.lastNamed?, Entry.lastNamed?, normal_entries, ← List.map_reverse, List.find?_map]
  simp only [Function.comp_def, Entry.normal_name]

end Schema

def Builder.normal (b : Builder) : Builder := { b with declared? := b.declared?.map Schema.normal }

def WriteResult.normal (result : WriteResult) : WriteResult :=
  ⟨result.error?, result.builder.normal⟩

namespace Builder

/-- Only what is stored for a null depends on the builder and the entry. -/
theorem stored?_congr {b c : Builder} {entry other : Entry}
    (same : b.nullValue? entry = c.nullValue? other) (setter : FieldType) (input : FieldInput) :
    b.stored? entry setter input = c.stored? other setter input := by
  cases input with
  | null => exact same
  | temporal t => rfl
  | value v => cases v <;> rfl

section Declared

variable {b : Builder} {schema : Schema} (declared : b.declared? = some schema)

include declared

/-- Where a schema is declared the entry of a write is not kept. -/
theorem append_of_declared (entry : Entry) (v? : Option Value) :
    b.append entry v? = match v? with
      | some v => ⟨none, { b with staged := b.staged.insert entry.name v }⟩
      | none => if entry.nullable then ⟨none, b⟩ else ⟨some (.notNullable entry.name), b⟩ := by
  cases v? <;> simp [append, observe, dropStale, declared]

theorem set_entry_normal (entry : Entry) (setter : FieldType) (input : FieldInput) :
    b.set entry.normal setter input = b.set entry setter input := by
  have objection : b.objection? entry.normal setter input = b.objection? entry setter input := by
    simp [objection?]
  have stored : b.stored? entry.normal setter input = b.stored? entry setter input :=
    stored?_congr (by simp [nullValue?]) setter input
  rw [set, set, objection, stored]
  simp [append_of_declared declared]

end Declared

section Normal

theorem normal_staged (b : Builder) : b.normal.staged = b.staged := rfl

theorem normal_declared? {b : Builder} {schema : Schema} (declared : b.declared? = some schema) :
    b.normal.declared? = some schema.normal := by
  simp [normal, declared]

theorem normal_of_free {b : Builder} (free : b.declared? = none) : b.normal = b := by
  cases b
  cases free
  rfl

theorem declaredObjection?_normal (b : Builder) (name : String) (type : FieldType) (isNull : Bool) :
    b.normal.declaredObjection? name type isNull = b.declaredObjection? name type isNull := by
  unfold declaredObjection? normal
  cases b.declared? with
  | none => rfl
  | some schema => cases found : schema.indexed? name <;> simp [found]

theorem set_normal {b : Builder} {schema : Schema} (declared : b.declared? = some schema)
    (entry : Entry) (setter : FieldType) (input : FieldInput) :
    b.normal.set entry setter input = (b.set entry setter input).normal := by
  have declared' := normal_declared? declared
  have objection : b.normal.objection? entry setter input = b.objection? entry setter input := by
    rw [objection?, objection?, declaredObjection?_normal]
  rw [set, set, objection]
  cases b.objection? entry setter input with
  | some error => rfl
  | none =>
    have stored : b.normal.stored? entry setter input = b.stored? entry setter input :=
      stored?_congr rfl setter input
    simp only [stored, append_of_declared declared, append_of_declared declared']
    cases b.stored? entry setter input with
    | some v => rfl
    | none => cases entry.nullable <;> rfl

theorem setNamed_normal {b : Builder} {schema : Schema} (declared : b.declared? = some schema)
    (name : String) (observed : Entry) (setter : FieldType) (input : FieldInput) :
    b.normal.setNamed name observed setter input =
      (b.setNamed name observed setter input).normal := by
  have declared' := normal_declared? declared
  simp only [setNamed, resolve, declared, declared', Schema.normal_indexed?, Schema.normal_names]
  cases schema.indexed? name with
  | none => rfl
  | some entry =>
    exact (set_entry_normal declared' entry setter input).trans (set_normal declared ..)

/-- A write does not see the difference. -/
theorem write_normal (b : Builder) (w : Write) : b.normal.write w = (b.write w).normal := by
  cases declared : b.declared? with
  | none =>
    rw [normal_of_free declared, WriteResult.normal,
      normal_of_free ((write_declared? b w).trans declared)]
  | some schema =>
    cases w with
    | named name payload => exact setNamed_normal declared ..
    | namedNull name type => exact setNamed_normal declared ..
    | through entry payload => exact set_normal declared ..
    | nullThrough entry => exact set_normal declared ..
    | generic entry input => exact set_normal declared ..

theorem run_normal (b : Builder) (writes : List Write) :
    b.normal.run writes = (b.run writes).normal := by
  induction writes generalizing b with
  | nil => rfl
  | cons w writes ih => rw [run_cons, run_cons, write_normal, WriteResult.normal, ih]

theorem answers_normal (b : Builder) (writes : List Write) :
    b.normal.answers writes = b.answers writes := by
  induction writes generalizing b with
  | nil => rfl
  | cons w writes ih =>
    rw [answers_cons, answers_cons, write_normal, WriteResult.normal, ih]

theorem missing_normal (b : Builder) : b.normal.missing = b.missing := by
  unfold missing normal
  cases b.declared? with
  | none => rfl
  | some schema =>
    simp [Schema.normal_entries, List.filter_map, Function.comp_def]

end Normal

end Builder

end TypedRecords
