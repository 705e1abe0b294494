import TypedRecords.Proofs.Columnar.Layout
import TypedRecords.Proofs.Props

/-! What a layout keeps of a schema. Its skeleton has the names, types and nullability of the
entries, their order, and their properties in the order of the keys, at every depth that the layout
has. It can be read back from the layout. -/
namespace TypedRecords

mutual

def Entry.skeleton : Entry → Entry
  | ⟨name, _, type, nullable, element?, _, props⟩ =>
    { name, type, nullable
      element? := if type.needsElement then elementSkeleton element? else none
      props := props.normal }

/-- Elements have no properties in a layout, and scalars no entries. -/
def elementSkeleton : Option Schema → Option Schema
  | none => none
  | some ⟨type, entries, _⟩ =>
    some { type, entries := if type = .record then skeletons entries else [] }

def skeletons : List Entry → List Entry
  | [] => []
  | entry :: entries => entry.skeleton :: skeletons entries

end

def Schema.skeleton (schema : Schema) : Schema :=
  ⟨schema.type, skeletons schema.entries, schema.props.normal⟩

def CellType.fieldType : CellType → FieldType
  | utf8 => .string
  | int32 => .int
  | int64 => .long
  | float32 => .float
  | float64 => .double
  | boolean => .boolean
  | binary => .bytes
  | timestamp => .dateTime

theorem CellType.fieldType_of_cellType? {type : FieldType} {cell : CellType}
    (kind : type.cellType? = some cell) : cell.fieldType = type := by
  cases type <;> cases kind <;> rfl

def ColumnType.fieldType : ColumnType → FieldType
  | cells type => type.fieldType
  | list _ => .array
  | struct _ => .record

mutual

def Field.entry : Field → Entry
  | ⟨name, type, nullable, metadata⟩ =>
    { name, type := type.fieldType, nullable, element? := type.element?, props := .ofList metadata }

def ColumnType.element? : ColumnType → Option Schema
  | .cells _ => none
  | .list ⟨_, type, _, _⟩ => some type.itemSchema
  | .struct fields => some { type := .record, entries := entriesOf fields }

def ColumnType.itemSchema : ColumnType → Schema
  | .cells type => { type := type.fieldType }
  | .list _ => { type := .array }
  | .struct fields => { type := .record, entries := entriesOf fields }

def entriesOf : List Field → List Entry
  | [] => []
  | field :: fields => field.entry :: entriesOf fields

end

def Layout.schema (layout : Layout) : Schema :=
  ⟨.record, entriesOf layout.fields, .ofList layout.metadata⟩

/-- An array of records and a record have the same elements. -/
theorem FieldType.ofFields_read (type : FieldType) (needed : type.needsElement = true)
    (fields : List Field) : (type.ofFields fields).fieldType = type ∧
      (type.ofFields fields).element? = some { type := .record, entries := entriesOf fields } := by
  cases type with
  | array | record => exact ⟨rfl, rfl⟩
  | _ => cases needed

mutual

theorem Entry.field_entry : ∀ {entry : Entry} {field : Field},
    entry.field = .ok field → field.entry = entry.skeleton
  | ⟨name, rawName?, type, nullable, element?, comment?, props⟩, field, mapped => by
    rw [Entry.field_eq mapped]
    obtain ⟨-, ⟨cell, kind, isCells⟩ | ⟨element, own, kind, nested⟩⟩ := Entry.field_cases mapped
    · have scalar := FieldType.needsElement_of_cells kind
      simp [Field.entry, Entry.skeleton, isCells, ColumnType.fieldType, ColumnType.element?, scalar,
        CellType.fieldType_of_cellType? kind, Props.ofList_toNameMap]
    · have needed : type.needsElement = true := FieldType.cellType?_eq_none_iff.mp kind
      obtain ⟨typed, elements⟩ := elementSkeleton_of_nestedType needed element? own nested
      simp [Field.entry, Entry.skeleton, typed, elements, needed, Props.ofList_toNameMap]

theorem elementSkeleton_of_nestedType {name : String} {type : FieldType}
    (needed : type.needsElement = true) : ∀ (element? : Option Schema) {element : Schema}
      {nested : ColumnType}, element? = some element → element.nestedType name type = .ok nested →
      nested.fieldType = type ∧ nested.element? = elementSkeleton element?
  | some ⟨elementType, entries, props⟩, _, nested, rfl, mapped => by
    obtain ⟨-, fails⟩ | ⟨-, isRecord, shape⟩ | ⟨-, isArray, cell, kind, shape⟩ :=
      Schema.nestedType_shape name needed ⟨elementType, entries, props⟩
    · rw [fails] at mapped
      cases mapped
    · rw [shape] at mapped
      obtain ⟨fields, below, rfl⟩ := map_eq_ok_iff.mp mapped
      obtain rfl : elementType = .record := isRecord
      simp [type.ofFields_read needed, elementSkeleton, fieldsOf_entries below]
    · rw [shape] at mapped
      have scalar : elementType ≠ .record := by
        rintro rfl
        cases kind
      cases mapped
      simp [isArray, ColumnType.fieldType, ColumnType.element?, Field.item, ColumnType.itemSchema,
        elementSkeleton, scalar, CellType.fieldType_of_cellType? kind]

theorem fieldsOf_entries : ∀ {entries : List Entry} {fields : List Field},
    fieldsOf entries = .ok fields → entriesOf fields = skeletons entries
  | [], _, mapped => by cases mapped; rfl
  | entry :: entries, fields, mapped => by
    obtain ⟨field, rest, head, tail, rfl⟩ := fieldsOf_cons mapped
    rw [entriesOf, skeletons, Entry.field_entry head, fieldsOf_entries tail]

end

mutual

theorem Entry.field_skeleton : ∀ entry : Entry, entry.skeleton.field = entry.field
  | ⟨name, rawName?, type, nullable, element?, comment?, props⟩ => by
    rw [Entry.skeleton]
    cases kind : type.cellType? with
    | some cell => rw [Entry.field_of_cells kind, Entry.field_of_cells kind, Props.toNameMap_normal]
    | none =>
      rw [if_pos (FieldType.cellType?_eq_none_iff.mp kind)]
      cases own : element? with
      | none =>
        rw [Entry.field_of_lacking kind rfl, Entry.field_of_lacking kind rfl]
      | some element =>
        obtain ⟨other, kept, nested⟩ := elementSkeleton_nestedType name type element? own
        rw [own] at kept
        rw [Entry.field_eq_map kind kept, Entry.field_eq_map kind rfl, Props.toNameMap_normal]
        simp only [nested]

theorem elementSkeleton_nestedType (name : String) (type : FieldType) : ∀ (element? : Option Schema)
    {element : Schema}, element? = some element → ∃ other, elementSkeleton element? = some other ∧
      other.nestedType name type = element.nestedType name type
  | some ⟨elementType, entries, props⟩, _, rfl => by
    refine ⟨_, rfl, Schema.nestedType_congr name type rfl fun isRecord => ?_⟩
    rw [if_pos isRecord, fieldsOf_skeletons entries]

theorem fieldsOf_skeletons : ∀ entries : List Entry, fieldsOf (skeletons entries) = fieldsOf entries
  | [] => by rw [skeletons]
  | entry :: entries => by
    rw [skeletons, fieldsOf, fieldsOf, entry.field_skeleton, fieldsOf_skeletons entries]

end

/-- Nothing else of a schema goes into its layout. -/
theorem Schema.layout_skeleton (schema : Schema) : schema.skeleton.layout = schema.layout := by
  simp [Schema.layout, Schema.skeleton, fieldsOf_skeletons]

/-- The skeleton can be read back. -/
theorem Schema.layout_schema {schema : Schema} {layout : Layout}
    (mapped : schema.layout = .ok layout) : layout.schema = schema.skeleton := by
  obtain ⟨isRecord, fields, metadata⟩ := Schema.layout_ok mapped
  rw [Layout.schema, Schema.skeleton, isRecord, metadata, fieldsOf_entries fields,
    Props.ofList_toNameMap]

end TypedRecords
