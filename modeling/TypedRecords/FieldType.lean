/-! The closed set of types that a schema can declare. -/
namespace TypedRecords

inductive FieldType
  | string | int | long | float | double | boolean | bytes | dateTime | array | record
deriving DecidableEq, Repr

namespace FieldType

def isPrimitive : FieldType → Bool
  | .array | .record => false
  | _ => true

/-- Arrays and records describe their content by a schema of their own. -/
def needsElement (type : FieldType) : Bool := !type.isPrimitive

def name : FieldType → String
  | .string => "STRING"
  | .int => "INT"
  | .long => "LONG"
  | .float => "FLOAT"
  | .double => "DOUBLE"
  | .boolean => "BOOLEAN"
  | .bytes => "BYTES"
  | .dateTime => "DATETIME"
  | .array => "ARRAY"
  | .record => "RECORD"

instance : ToString FieldType := ⟨name⟩

end FieldType

end TypedRecords
