import TypedRecords.Calendar.Instant
import TypedRecords.Value

/-! The representations that a read can ask for, and the results that belong to them. -/
namespace TypedRecords

inductive Representation
  | string | bytes | int | long | float | double | boolean | instant | zoned | array | record
  | value
deriving DecidableEq, Repr

namespace Representation

def name : Representation → String
  | string => "String"
  | bytes => "Bytes"
  | int => "Int"
  | long => "Long"
  | float => "Float"
  | double => "Double"
  | boolean => "Boolean"
  | instant => "Instant"
  | zoned => "Zoned"
  | array => "Array"
  | record => "Record"
  | value => "Value"

instance : ToString Representation := ⟨name⟩

/-- What a successful read gives. -/
abbrev Carrier : Representation → Type
  | string => String
  | bytes => ByteArray
  | int => Int32
  | long => Int64
  | float => Single
  | double => Double
  | boolean => Bool
  | instant => Instant
  | zoned => Zoned
  | array => List Value
  | record => Record
  | value => Value

/-- The payload of a stored value that needs no coercion. Milliseconds read as a long; instants
are never stored as such. -/
def direct? : (target : Representation) → Value → Option target.Carrier
  | string, .string text => some text
  | bytes, .bytes data => some data
  | int, .int n => some n
  | long, .long n => some n
  | long, .dateTime millis => some millis
  | float, .float x => some x
  | double, .double x => some x
  | boolean, .boolean b => some b
  | array, .array items => some items
  | record, .record r => some r
  | value, v => some v
  | _, _ => none

end Representation

inductive Coerced
  | value (v : Value)
  | instant (t : Instant)
  | zoned (t : Zoned)

def Coerced.payload? : (target : Representation) → Coerced → Option target.Carrier
  | .instant, .instant t => some t
  | .instant, .zoned t => some t.instant
  | .zoned, .zoned t => some t
  | .zoned, .instant t => some (.utc t)
  | target, .value v => target.direct? v
  | _, _ => none

abbrev Coercer := Value → Representation → Option Coerced

end TypedRecords
