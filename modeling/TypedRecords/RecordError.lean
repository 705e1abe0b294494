import TypedRecords.FieldType

/-! What a write, the end of a builder or a typed read can fail with. -/
namespace TypedRecords

/-- Kinds of values are given by the names of their variants. -/
inductive RecordError
  | unknownEntry (name : String) (known : List String)
  | typeMismatch (name : String) (expected actual : FieldType)
  | incompatibleValue (name : String) (declared : FieldType) (variant : String)
  | notNullable (name : String)
  | missingElementSchema (name : String) (type : FieldType)
  | missingRequiredEntries (names : List String)
  | noCoercion (name : String) (source target : String)
deriving DecidableEq

def RecordError.message : RecordError → String
  | unknownEntry name known =>
    "no entry '" ++ name ++ "' expected in provided schema: [" ++ ", ".intercalate known ++ "]"
  | typeMismatch name expected actual =>
    "entry '" ++ name ++ "' expected to be a " ++ expected.name ++ ", got a " ++ actual.name
  | incompatibleValue name declared variant =>
    "entry '" ++ name ++ "' of type " ++ declared.name ++ " is not compatible with a " ++
      variant ++ " value"
  | notNullable name => "entry '" ++ name ++ "' is not nullable"
  | missingElementSchema name type =>
    "entry '" ++ name ++ "' of type " ++ type.name ++ " has no element schema"
  | missingRequiredEntries names => "missing required entries: " ++ ", ".intercalate names
  | noCoercion name source target =>
    "no known coercion from " ++ source ++ " to " ++ target ++ " for entry '" ++ name ++ "'"

end TypedRecords
