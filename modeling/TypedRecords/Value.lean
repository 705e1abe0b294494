import TypedRecords.Floating
import TypedRecords.Schema

/-! Stored values, and records: values by field name with the schema they were written under. -/
namespace TypedRecords

mutual

/-- Instants are stored in milliseconds since 1970. -/
inductive Value where
  | string (text : String)
  | bytes (data : ByteArray)
  | int (n : Int32)
  | long (n : Int64)
  | float (x : Single)
  | double (x : Double)
  | boolean (b : Bool)
  | dateTime (millis : Int64)
  | array (items : List Value)
  | record (r : Record)

/-- The values are in the order of their names, as in a `NameMap`. -/
structure Record where
  schema : Schema
  values : List (String × Value)

end

namespace Value

def variantName : Value → String
  | string _ => "String"
  | bytes _ => "Bytes"
  | int _ => "Int"
  | long _ => "Long"
  | float _ => "Float"
  | double _ => "Double"
  | boolean _ => "Boolean"
  | dateTime _ => "DateTime"
  | array _ => "Array"
  | record _ => "Record"

end Value

/-- Whether a stored value is an instance of the type. Milliseconds may be stored as a long. -/
def FieldType.accepts : FieldType → Value → Bool
  | .string, .string _ => true
  | .int, .int _ => true
  | .long, .long _ => true
  | .float, .float _ => true
  | .double, .double _ => true
  | .boolean, .boolean _ => true
  | .bytes, .bytes _ => true
  | .dateTime, .dateTime _ => true
  | .dateTime, .long _ => true
  | .array, .array _ => true
  | .record, .record _ => true
  | _, _ => false

namespace Record

def value? (r : Record) (name : String) : Option Value := NameMap.find? name r.values

def size (r : Record) : Nat := r.values.length

def isEmpty (r : Record) : Bool := r.values.isEmpty

end Record

mutual

/-- Numbers are compared as numbers: a value that is no number differs from itself, and zeros of
both signs are equal. -/
def Value.same : Value → Value → Bool
  | .string a, .string b => a == b
  | .bytes a, .bytes b => a == b
  | .int a, .int b => a == b
  | .long a, .long b => a == b
  | .float a, .float b => a.equal b
  | .double a, .double b => a.equal b
  | .boolean a, .boolean b => a == b
  | .dateTime a, .dateTime b => a == b
  | .array a, .array b => sameItems a b
  | .record a, .record b => a.same b
  | _, _ => false

def Record.same : Record → Record → Bool
  | ⟨schema, values⟩, other => schema == other.schema && sameValues values other.values

def sameItems : List Value → List Value → Bool
  | [], [] => true
  | v :: vs, w :: ws => v.same w && sameItems vs ws
  | _, _ => false

def sameValues : List (String × Value) → List (String × Value) → Bool
  | [], [] => true
  | (name, v) :: vs, (other, w) :: ws => name == other && v.same w && sameValues vs ws
  | _, _ => false

end

instance : BEq Value := ⟨Value.same⟩

instance : BEq Record := ⟨Record.same⟩

end TypedRecords
