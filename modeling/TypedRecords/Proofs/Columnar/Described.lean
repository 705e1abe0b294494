import TypedRecords.Proofs.Builder.Reachable
import TypedRecords.Proofs.Columnar.Conformance
import TypedRecords.Proofs.Columnar.Layout

/-! Layouts of described entries. A layout that fails because the schema is invalid fails for an
entry without the element schema that it needs, and no schema that can be had contains one. -/
namespace TypedRecords

section Blame

variable {error : SchemaError}

def Entry.Blamed (error : SchemaError) (entry : Entry) : Prop :=
  entry.lacksElement = true ∧ error = .missingElementSchema entry.name entry.type

mutual

/-- Where no entry is to blame, at any depth, the error does not occur. -/
theorem Entry.field_ne_invalidSchema : ∀ {entry : Entry},
    entry.Throughout (fun e => ¬ e.Blamed error) → entry.field ≠ .error (.invalidSchema error)
  | ⟨name, rawName?, type, nullable, none, comment?, props⟩, blameless, failed => by
    obtain ⟨kind, ⟨-, same⟩ | ⟨element, own, -⟩⟩ := Entry.field_error failed
    · have needed : type.needsElement = true := FieldType.cellType?_eq_none_iff.mp kind
      have lacks : Entry.lacksElement ⟨name, rawName?, type, nullable, none, comment?, props⟩ :=
        by simp [Entry.lacksElement, needed]
      exact blameless.1 ⟨lacks, ColumnarError.invalidSchema.inj same⟩
    · cases own
  | ⟨name, rawName?, type, nullable, some element, comment?, props⟩, blameless, failed => by
    obtain ⟨-, ⟨missing, -⟩ | ⟨_, own, nested⟩⟩ := Entry.field_error failed
    · cases missing
    · cases own
      exact Schema.nestedType_ne_invalidSchema (blameless.2 element rfl) nested

theorem Schema.nestedType_ne_invalidSchema {name : String} {type : FieldType} :
    ∀ {schema : Schema}, schema.Throughout (fun e => ¬ e.Blamed error) →
      schema.nestedType name type ≠ .error (.invalidSchema error)
  | ⟨elementType, entries, props⟩, blameless, failed => by
    rcases Schema.nestedType_error failed with inside | other
    · obtain ⟨entry, member, cause⟩ := fieldsOf_error inside
      have without := Schema.throughout_iff.mp blameless entry member
      exact fieldsOf_ne_invalidSchema entries entry member without cause
    · cases other

theorem fieldsOf_ne_invalidSchema : ∀ (entries : List Entry), ∀ entry ∈ entries,
    entry.Throughout (fun e => ¬ e.Blamed error) → entry.field ≠ .error (.invalidSchema error)
  | [], _, member, _ => absurd member List.not_mem_nil
  | first :: entries, entry, member, blameless => by
    rcases List.mem_cons.mp member with same | later
    · rw [same] at blameless ⊢
      exact Entry.field_ne_invalidSchema blameless
    · exact fieldsOf_ne_invalidSchema entries entry later blameless

end

/-- An invalid schema contains the entry to blame. -/
theorem Schema.layout_invalidSchema_origin {schema : Schema}
    (invalid : schema.layout = .error (.invalidSchema error)) :
    ∃ entry, schema.Contains entry ∧ entry.Blamed error := by
  by_contra blameless
  rcases Schema.layout_error invalid with inside | other
  · obtain ⟨entry, member, cause⟩ := fieldsOf_error inside
    have nowhere : schema.Throughout (fun e => ¬ e.Blamed error) := fun e contained blamed =>
      blameless ⟨e, contained, blamed⟩
    exact Entry.field_ne_invalidSchema (Schema.throughout_iff.mp nowhere entry member) cause
  · cases other

end Blame

mutual

/-- Violations are always for the type of a value. -/
theorem ColumnType.FirstViolation.error_eq {column : String} :
    ∀ {type : ColumnType} {slot : Option Value} {error : ColumnarError},
      type.FirstViolation column slot error →
        ∃ expected actual, error = .valueType column expected actual
  | _, _, _, .cell _ | _, _, _, .notArray _ | _, _, _, .notRecord _ => ⟨_, _, rfl⟩
  | _, _, _, .item _ violation => violation.error_eq
  | _, _, _, .field _ violation => violation.error_eq

theorem Field.FirstViolation.error_eq {column : String} :
    ∀ {field : Field} {slot : Option Value} {error : ColumnarError},
      field.FirstViolation column slot error →
        ∃ expected actual, error = .valueType column expected actual
  | _, _, _, .missing _ => ⟨_, _, rfl⟩
  | _, _, _, .value violation => violation.error_eq

end

/-- The values of the records have no part in it. -/
theorem Batch.layout_of_invalidSchema {schema : Schema} {records : List Record}
    {error : SchemaError} (refused : ofRecords schema records = .error (.invalidSchema error)) :
    schema.layout = .error (.invalidSchema error) := by
  cases valid : schema.layout with
  | error cause =>
    rw [ofRecords_of_error valid records] at refused
    exact congrArg Except.error (Except.error.inj refused)
  | ok layout =>
    rw [ofRecords_of_layout valid, report_eq_error_iff, layout.head?_faults_iff] at refused
    obtain ⟨-, field, -, -, -, -, r, -, -, -, violation⟩ := refused
    obtain ⟨expected, actual, same⟩ := violation.error_eq
    cases same

/-- Whatever it comes from, a schema says at every depth what its arrays and records hold. So
neither its layout nor a batch fails for a missing element schema. -/
theorem Schema.Reachable.elements_present {schema : Schema}
    (reachable : schema.Reachable fun _ => True) :
    (∀ entry, schema.Contains entry → entry.type.needsElement = true →
      ∃ element, entry.element? = some element) ∧
    (∀ error, schema.layout ≠ .error (.invalidSchema error)) ∧
    ∀ records error, Batch.ofRecords schema records ≠ .error (.invalidSchema error) := by
  have proper := reachable.proper fun _ _ => trivial
  have valid : ∀ error, schema.layout ≠ .error (.invalidSchema error) := by
    intro error invalid
    obtain ⟨entry, contained, lacks, -⟩ := Schema.layout_invalidSchema_origin invalid
    simp [(proper entry contained).described] at lacks
  refine ⟨fun entry contained needed => ?_, valid, fun records error refused => ?_⟩
  · have described := (proper entry contained).described
    rw [Entry.lacksElement, needed, Bool.true_and, Option.isNone_eq_false_iff] at described
    exact Option.isSome_iff_exists.mp described
  · exact valid error (Batch.layout_of_invalidSchema refused)

def tags : Entry :=
  { name := "tags", type := .array, nullable := true, element? := some { type := .string } }

theorem elements_present_tags :
    let keepsAll := Builder.start none ⟨.keepAll, .absent⟩
    let inner := keepsAll.run [.through tags (.array []), .nullThrough tags]
    let outer := keepsAll.run [.named "meta" (.record ⟨inner.schema, inner.staged⟩)]
    inner.build = .ok ⟨inner.schema, inner.staged⟩ ∧
      outer.build = .ok ⟨outer.schema, outer.staged⟩ ∧
      outer.schema.Contains tags ∧ (∃ element, tags.element? = some element) ∧
      (∀ error, outer.schema.layout ≠ .error (.invalidSchema error)) ∧
      ∀ records error, Batch.ofRecords outer.schema records ≠ .error (.invalidSchema error) := by
  intro keepsAll inner outer
  have entry : tags.Reachable fun _ => True := by
    refine @Entry.Reachable.frozen _
      { name? := some "tags", type? := some .array, nullable := true,
        element? := some { type := .string } } _ ?_ rfl
    rintro _ ⟨⟩
    exact .of .string
  have start : keepsAll.Reachable fun _ => True := .start (by simp)
  have tagged : inner.Reachable fun _ => True :=
    start.run (by simp [Write.brought?, entry]) (by simp) (by simp)
  have nested : outer.Reachable fun _ => True :=
    start.run (by simp [Write.brought?]) (by simpa using .built tagged rfl) (by simp)
  have contained : outer.schema.Contains tags :=
    .nested List.mem_cons_self rfl (.listed List.mem_cons_self)
  obtain ⟨described, valid, batches⟩ :=
    (Schema.Reachable.finished (.built nested rfl)).elements_present
  exact ⟨rfl, rfl, contained, described tags contained rfl, valid, batches⟩

end TypedRecords
