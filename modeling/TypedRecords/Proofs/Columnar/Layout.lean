import TypedRecords.Columnar.Layout

/-! What a layout is made from: each of its fields from an entry, in the order of the entries. -/
namespace TypedRecords

section Map

variable {ε α β : Type} {x : Except ε α} {f : α → β}

theorem map_eq_ok_iff {b : β} : x.map f = .ok b ↔ ∃ a, x = .ok a ∧ f a = b := by
  cases x <;> simp [Except.map]

theorem map_eq_error_iff {error : ε} : x.map f = .error error ↔ x = .error error := by
  cases x <;> simp [Except.map]

end Map

theorem Entry.field_of_cells {entry : Entry} {cell : CellType}
    (kind : entry.type.cellType? = some cell) :
    entry.field = .ok ⟨entry.name, .cells cell, entry.nullable, entry.props.toNameMap⟩ := by
  obtain ⟨name, rawName?, type, nullable, element?, comment?, props⟩ := entry
  rw [Entry.field.eq_def]
  dsimp only at kind ⊢
  rw [kind]

theorem Entry.field_of_lacking {entry : Entry} (kind : entry.type.cellType? = none)
    (lacking : entry.element? = none) :
    entry.field = .error (.invalidSchema (.missingElementSchema entry.name entry.type)) := by
  obtain ⟨name, rawName?, type, nullable, element?, comment?, props⟩ := entry
  rw [Entry.field.eq_def]
  dsimp only at kind lacking ⊢
  rw [kind, lacking]

theorem Entry.field_eq_map {entry : Entry} {element : Schema}
    (kind : entry.type.cellType? = none) (own : entry.element? = some element) :
    entry.field = (element.nestedType entry.name entry.type).map fun nested =>
      ⟨entry.name, nested, entry.nullable, entry.props.toNameMap⟩ := by
  obtain ⟨name, rawName?, type, nullable, element?, comment?, props⟩ := entry
  rw [Entry.field.eq_def]
  dsimp only at kind own ⊢
  subst own
  rw [kind]

theorem Entry.field_of_element {entry : Entry} {element : Schema} {nested : ColumnType}
    (kind : entry.type.cellType? = none) (own : entry.element? = some element)
    (mapped : element.nestedType entry.name entry.type = .ok nested) :
    entry.field = .ok ⟨entry.name, nested, entry.nullable, entry.props.toNameMap⟩ := by
  rw [Entry.field_eq_map kind own, mapped]
  rfl

/-- What the field of an entry is: of the type of its cells, or of the type that its element schema
gives. -/
theorem Entry.field_cases {entry : Entry} {field : Field} (mapped : entry.field = .ok field) :
    field.name = entry.name ∧
      ((∃ cell, entry.type.cellType? = some cell ∧ field.type = .cells cell) ∨
        ∃ element, entry.element? = some element ∧ entry.type.cellType? = none ∧
          element.nestedType entry.name entry.type = .ok field.type) := by
  cases kind : entry.type.cellType? with
  | some cell =>
    rw [Entry.field_of_cells kind] at mapped
    cases mapped
    exact ⟨rfl, .inl ⟨cell, rfl, rfl⟩⟩
  | none =>
    cases own : entry.element? with
    | none =>
      rw [Entry.field_of_lacking kind own] at mapped
      cases mapped
    | some element =>
      rw [Entry.field_eq_map kind own] at mapped
      obtain ⟨nested, isNested, rfl⟩ := map_eq_ok_iff.mp mapped
      exact ⟨rfl, .inr ⟨element, rfl, rfl, isNested⟩⟩

/-- Apart from its type a field is what its entry says. -/
theorem Entry.field_eq {entry : Entry} {field : Field} (mapped : entry.field = .ok field) :
    field = ⟨entry.name, field.type, entry.nullable, entry.props.toNameMap⟩ := by
  obtain ⟨-, ⟨cell, kind, typed⟩ | ⟨element, own, kind, nested⟩⟩ := Entry.field_cases mapped
  · rw [Entry.field_of_cells kind] at mapped
    cases mapped
    rfl
  · rw [Entry.field_of_element kind own nested] at mapped
    exact (Except.ok.inj mapped).symm

/-- Only arrays and records have no cells of their own. -/
theorem FieldType.cellType?_eq_none_iff {type : FieldType} :
    type.cellType? = none ↔ type.needsElement = true := by
  cases type <;> decide

theorem FieldType.needsElement_of_cells {type : FieldType} {cell : CellType}
    (kind : type.cellType? = some cell) : type.needsElement = false := by
  cases type <;> cases kind <;> rfl

/-- Arrays cannot hold arrays, and the schema of a record has to be a record schema. -/
def Schema.Unfit (type : FieldType) (element : Schema) : Prop :=
  type = .array ∧ element.type = .array ∨ type = .record ∧ element.type ≠ .record

instance (type : FieldType) (element : Schema) : Decidable (element.Unfit type) :=
  inferInstanceAs (Decidable (_ ∨ _))

/-- Only arrays and records can have an unfit element schema. -/
theorem Schema.Unfit.needed {type : FieldType} {element : Schema} (unfit : element.Unfit type) :
    type.needsElement = true := by
  rcases unfit with ⟨rfl, -⟩ | ⟨rfl, -⟩ <;> rfl

def FieldType.ofFields : FieldType → List Field → ColumnType
  | .array, fields => .list (.item (.struct fields))
  | _, fields => .struct fields

/-- The element schema of an array or a record is unfit, or it is a record schema, or the elements
of an array are scalars. -/
theorem Schema.nestedType_shape (name : String) {type : FieldType}
    (needed : type.needsElement = true) (element : Schema) :
    (element.Unfit type ∧
      element.nestedType name type = .error (.unsupportedElement name element.type)) ∨
    (¬ element.Unfit type ∧ element.type = .record ∧
      element.nestedType name type = (fieldsOf element.entries).map type.ofFields) ∨
    (¬ element.Unfit type ∧ type = .array ∧ ∃ cell, element.type.cellType? = some cell ∧
      element.nestedType name type = .ok (.list (.item (.cells cell)))) := by
  obtain ⟨elementType, entries, props⟩ := element
  rw [Schema.nestedType.eq_def]
  cases type with
  | array =>
    cases elementType with
    | record => exact .inr (.inl ⟨by simp [Schema.Unfit], rfl, rfl⟩)
    | _ => simp [Schema.Unfit, FieldType.cellType?]
  | record =>
    cases elementType with
    | record => exact .inr (.inl ⟨by simp [Schema.Unfit], rfl, rfl⟩)
    | _ => simp [Schema.Unfit, FieldType.cellType?]
  | _ => cases needed

/-- Only the entries of record schemas are looked at. -/
theorem Schema.nestedType_congr (name : String) (type : FieldType) {element other : Schema}
    (typed : element.type = other.type)
    (same : element.type = .record → fieldsOf element.entries = fieldsOf other.entries) :
    element.nestedType name type = other.nestedType name type := by
  obtain ⟨elementType, entries, props⟩ := element
  obtain ⟨otherType, others, otherProps⟩ := other
  obtain rfl : elementType = otherType := typed
  rw [Schema.nestedType.eq_def, Schema.nestedType.eq_def]
  cases elementType with
  | record => simp only [same rfl]
  | _ => cases type <;> rfl

theorem Schema.nestedType_of_record {schema : Schema} {fields : List Field} (name : String)
    (isRecord : schema.type = .record) (mapped : fieldsOf schema.entries = .ok fields) :
    schema.nestedType name .record = .ok (.struct fields) := by
  obtain ⟨type, entries, props⟩ := schema
  dsimp only at isRecord mapped
  subst isRecord
  rw [Schema.nestedType.eq_def]
  change (fieldsOf entries).map ColumnType.struct = _
  rw [mapped]
  rfl

theorem Schema.nestedType_cases {schema : Schema} {name : String} {type : FieldType}
    {nested : ColumnType} (mapped : schema.nestedType name type = .ok nested) :
    (∃ cell, schema.type.cellType? = some cell ∧ nested = .list (.item (.cells cell))) ∨
      ∃ fields, fieldsOf schema.entries = .ok fields ∧
        (nested = .list (.item (.struct fields)) ∨ nested = .struct fields) := by
  obtain ⟨elementType, entries, props⟩ := schema
  rw [Schema.nestedType.eq_def] at mapped
  dsimp only at mapped
  split at mapped
  · obtain ⟨fields, below, rfl⟩ := map_eq_ok_iff.mp mapped
    exact .inr ⟨fields, below, .inl rfl⟩
  · obtain ⟨fields, below, rfl⟩ := map_eq_ok_iff.mp mapped
    exact .inr ⟨fields, below, .inr rfl⟩
  · next cell found =>
    cases mapped
    exact .inl ⟨cell, found, rfl⟩
  · cases mapped

theorem fieldsOf_cons {entry : Entry} {entries : List Entry} {fields : List Field}
    (mapped : fieldsOf (entry :: entries) = .ok fields) :
    ∃ field rest, entry.field = .ok field ∧ fieldsOf entries = .ok rest ∧
      fields = field :: rest := by
  rw [fieldsOf] at mapped
  cases head : entry.field with
  | error error => simp [head, bind, Except.bind] at mapped
  | ok field =>
    cases tail : fieldsOf entries with
    | error error => simp [head, tail, bind, Except.bind] at mapped
    | ok rest =>
      simp only [head, tail, bind, Except.bind, Except.ok.injEq] at mapped
      exact ⟨field, rest, rfl, rfl, mapped.symm⟩

theorem fieldsOf_getElem? {entry : Entry} : ∀ {entries : List Entry}
    {fields : List Field} {k : Nat}, fieldsOf entries = .ok fields → entries[k]? = some entry →
      ∃ field, fields[k]? = some field ∧ entry.field = .ok field
  | first :: entries, fields, k, mapped, atEntry => by
    obtain ⟨field, rest, head, tail, rfl⟩ := fieldsOf_cons mapped
    cases k with
    | zero =>
      cases atEntry
      exact ⟨field, rfl, head⟩
    | succ k => exact fieldsOf_getElem? (k := k) tail (by simpa using atEntry)

theorem fieldsOf_length : ∀ {entries : List Entry} {fields : List Field},
    fieldsOf entries = .ok fields → fields.length = entries.length
  | [], _, rfl => rfl
  | _ :: _, _, mapped => by
    obtain ⟨_, _, _, tail, rfl⟩ := fieldsOf_cons mapped
    simp [fieldsOf_length tail]

/-- An entry without cells fails for its element schema: it has none, or none that gives a type. -/
theorem Entry.field_error {entry : Entry} {error : ColumnarError}
    (failed : entry.field = .error error) :
    entry.type.cellType? = none ∧
      (entry.element? = none ∧
          error = .invalidSchema (.missingElementSchema entry.name entry.type) ∨
        ∃ element, entry.element? = some element ∧
          element.nestedType entry.name entry.type = .error error) := by
  cases kind : entry.type.cellType? with
  | some cell =>
    rw [Entry.field_of_cells kind] at failed
    cases failed
  | none =>
    cases own : entry.element? with
    | none =>
      rw [Entry.field_of_lacking kind own] at failed
      exact ⟨rfl, .inl ⟨rfl, (Except.error.inj failed).symm⟩⟩
    | some element =>
      rw [Entry.field_eq_map kind own, map_eq_error_iff] at failed
      exact ⟨rfl, .inr ⟨element, rfl, failed⟩⟩

theorem Schema.nestedType_error {schema : Schema} {name : String} {type : FieldType}
    {error : ColumnarError} (failed : schema.nestedType name type = .error error) :
    fieldsOf schema.entries = .error error ∨ error = .unsupportedElement name schema.type := by
  obtain ⟨elementType, entries, props⟩ := schema
  rw [Schema.nestedType.eq_def] at failed
  dsimp only at failed
  split at failed
  · exact .inl (map_eq_error_iff.mp failed)
  · exact .inl (map_eq_error_iff.mp failed)
  · cases failed
  · exact .inr (Except.error.inj failed).symm

theorem fieldsOf_error {error : ColumnarError} : ∀ {entries : List Entry},
    fieldsOf entries = .error error → ∃ entry ∈ entries, entry.field = .error error
  | [], failed => by cases failed
  | first :: entries, failed => by
    rw [fieldsOf] at failed
    cases head : first.field with
    | error cause =>
      simp only [head, bind, Except.bind, Except.error.injEq] at failed
      exact ⟨first, List.mem_cons_self, failed ▸ head⟩
    | ok field =>
      cases tail : fieldsOf entries with
      | error cause =>
        simp only [head, tail, bind, Except.bind, Except.error.injEq] at failed
        obtain ⟨entry, member, cause⟩ := fieldsOf_error (failed ▸ tail)
        exact ⟨entry, List.mem_cons_of_mem first member, cause⟩
      | ok fields => simp [head, tail, bind, Except.bind] at failed

theorem Schema.layout_error {schema : Schema} {error : ColumnarError}
    (failed : schema.layout = .error error) :
    fieldsOf schema.entries = .error error ∨ error = .unsupportedElement "" schema.type := by
  unfold Schema.layout at failed
  split at failed
  · exact .inl (map_eq_error_iff.mp failed)
  · exact .inr (Except.error.inj failed).symm

/-- A layout is that of a record schema. -/
theorem Schema.layout_ok {schema : Schema} {layout : Layout} (valid : schema.layout = .ok layout) :
    schema.type = .record ∧ fieldsOf schema.entries = .ok layout.fields ∧
      layout.metadata = schema.props.toNameMap := by
  unfold Schema.layout at valid
  split at valid
  · next isRecord =>
    obtain ⟨fields, mapped, rfl⟩ := map_eq_ok_iff.mp valid
    exact ⟨isRecord, mapped, rfl⟩
  · cases valid

theorem Schema.layout_fields {schema : Schema} {layout : Layout}
    (valid : schema.layout = .ok layout) : fieldsOf schema.entries = .ok layout.fields :=
  (Schema.layout_ok valid).2.1

end TypedRecords
