import TypedRecords.Schema.Draft

/-! Columnar layouts of schemas: a field for each entry, of a type with cells, with lists of items,
or with the fields of a struct. Properties become metadata, which has no order. -/
namespace TypedRecords

/-- The types of columns that are not made of other columns. Timestamps count milliseconds of
universal time. -/
inductive CellType
  | utf8 | int32 | int64 | float32 | float64 | boolean | binary | timestamp
deriving DecidableEq, Repr

mutual

inductive ColumnType where
  | cells (type : CellType)
  | list (item : Field)
  | struct (fields : List Field)

structure Field where
  name : String
  type : ColumnType
  nullable : Bool
  metadata : List (String × String)

end

structure Layout where
  fields : List Field
  metadata : NameMap String

inductive ColumnarError
  | invalidSchema (error : SchemaError)
  | unsupportedElement (name : String) (type : FieldType)
  | valueType (column expected actual : String)
deriving DecidableEq

def ColumnarError.message : ColumnarError → String
  | invalidSchema error => "invalid schema: " ++ error.message
  | unsupportedElement name type =>
    "cannot map " ++ type.name ++ " schema of '" ++ name ++ "' to an Arrow type"
  | valueType column expected actual =>
    "column '" ++ column ++ "': expected " ++ expected ++ ", got " ++ actual

def FieldType.cellType? : FieldType → Option CellType
  | .string => some .utf8
  | .int => some .int32
  | .long => some .int64
  | .float => some .float32
  | .double => some .float64
  | .boolean => some .boolean
  | .bytes => some .binary
  | .dateTime => some .timestamp
  | .array => none
  | .record => none

def Field.item (type : ColumnType) : Field := ⟨"item", type, true, []⟩

mutual

def Entry.field : Entry → Except ColumnarError Field
  | ⟨name, _, type, nullable, element?, _, props⟩ =>
    match type.cellType? with
    | some cell => .ok ⟨name, .cells cell, nullable, props.toNameMap⟩
    | none =>
      match element? with
      | none => .error (.invalidSchema (.missingElementSchema name type))
      | some element =>
        (element.nestedType name type).map fun nested => ⟨name, nested, nullable, props.toNameMap⟩

/-- The type of an array or a record with these elements. Arrays hold scalars or records, and
records are described by a record schema. -/
def Schema.nestedType (name : String) (type : FieldType) : Schema → Except ColumnarError ColumnType
  | ⟨elementType, entries, _⟩ =>
    match elementType.cellType?, elementType, type with
    | none, .record, .array => (fieldsOf entries).map fun fields => .list (.item (.struct fields))
    | none, .record, _ => (fieldsOf entries).map .struct
    | some cell, _, .array => .ok (.list (.item (.cells cell)))
    | _, _, _ => .error (.unsupportedElement name elementType)

def fieldsOf : List Entry → Except ColumnarError (List Field)
  | [] => .ok []
  | entry :: entries => do
    let field ← entry.field
    let fields ← fieldsOf entries
    .ok (field :: fields)

end

/-- Only a record schema has columns. -/
def Schema.layout (schema : Schema) : Except ColumnarError Layout :=
  if schema.type = .record then
    (fieldsOf schema.entries).map fun fields => ⟨fields, schema.props.toNameMap⟩
  else .error (.unsupportedElement "" schema.type)

end TypedRecords
