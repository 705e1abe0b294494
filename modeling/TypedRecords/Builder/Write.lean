import TypedRecords.Value.Input

/-! Writes to a builder, as data. -/
namespace TypedRecords

inductive Payload
  | string (text : String)
  | bytes (data : ByteArray)
  | int (n : Int32)
  | long (n : Int64)
  | float (x : Single)
  | double (x : Double)
  | boolean (b : Bool)
  | timestamp (millis : Int64)
  | dateTime (t : TemporalInput)
  | record (r : Record)
  | array (items : List Value)

namespace Payload

def type : Payload → FieldType
  | string _ => .string
  | bytes _ => .bytes
  | int _ => .int
  | long _ => .long
  | float _ => .float
  | double _ => .double
  | boolean _ => .boolean
  | timestamp _ => .dateTime
  | dateTime _ => .dateTime
  | record _ => .record
  | array _ => .array

def input : Payload → FieldInput
  | string text => .value (.string text)
  | bytes data => .value (.bytes data)
  | int n => .value (.int n)
  | long n => .value (.long n)
  | float x => .value (.float x)
  | double x => .value (.double x)
  | boolean b => .value (.boolean b)
  | timestamp millis => .value (.dateTime millis)
  | dateTime t => .temporal t
  | record r => .value (.record r)
  | array items => .value (.array items)

/-- The entry that a write by name stands for where no schema is declared. A record brings its
own schema. -/
def observedEntry (name : String) (payload : Payload) : Entry :=
  match payload with
  | record r => { Entry.observed name .record with element? := some r.schema }
  | _ => Entry.observed name payload.type

end Payload

/-- A write names its field or brings an entry. A generic write leaves it to its entry of which
type it is. -/
inductive Write
  | named (name : String) (payload : Payload)
  | through (entry : Entry) (payload : Payload)
  | namedNull (name : String) (type : FieldType)
  | nullThrough (entry : Entry)
  | generic (entry : Entry) (input : FieldInput)

def Write.name : Write → String
  | named name _ => name
  | through entry _ => entry.name
  | namedNull name _ => name
  | nullThrough entry => entry.name
  | generic entry _ => entry.name

end TypedRecords
