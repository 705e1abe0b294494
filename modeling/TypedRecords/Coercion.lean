import TypedRecords.Calendar.Rfc3339
import TypedRecords.Coercion.Number
import TypedRecords.Coercion.Representation

/-! The coercions that a read makes by default. -/
namespace TypedRecords.Coercion

def millisText? (millis : Int64) : Option String :=
  (Instant.ofMillis? millis.toInt).map Rfc3339.render

def booleanText (b : Bool) : String := if b then "true" else "false"

def text? : Value → Option String
  | .string text => some text
  | .int n => some (intText n.toInt)
  | .long n => some (intText n.toInt)
  | .float x => some (Number.floatingText x)
  | .double x => some (Number.floatingText x)
  | .boolean b => some (booleanText b)
  | .dateTime millis => millisText? millis
  | .bytes data => String.fromUTF8? data
  | .array _ => none
  | .record _ => none

/-- Milliseconds since 1970, stored as such or written as an instant. -/
def millis? : Value → Option Int64
  | .dateTime millis => some millis
  | .long millis => some millis
  | .string text => (Rfc3339.read? text.toList).map fun t => t.instant.epochMillis
  | _ => none

def instant? (v : Value) : Option Instant :=
  (millis? v).bind fun millis => Instant.ofMillis? millis.toInt

def boolean? : Value → Option Bool
  | .string "true" => some true
  | .string "false" => some false
  | _ => none

def bytes? : Value → Option ByteArray
  | .string text => some text.toUTF8
  | _ => none

/-- Numbers convert to each other, to integers by dropping the fraction and only within range.
Milliseconds convert to instants, and so do their written forms. Scalars are written as strings,
numbers and booleans read from them; bytes are the UTF-8 form of a string. -/
def standard : Coercer := fun v target =>
  match target with
  | .string => (text? v).map fun text => .value (.string text)
  | .bytes => (bytes? v).map fun data => .value (.bytes data)
  | .int => (Number.ofValue? v).bind fun n => n.toInt32?.map fun i => .value (.int i)
  | .long => (Number.ofValue? v).bind fun n => n.toInt64?.map fun i => .value (.long i)
  | .float => (Number.ofValue? v).map fun n => .value (.float n.toSingle)
  | .double => (Number.ofValue? v).map fun n => .value (.double n.toDouble)
  | .boolean => (boolean? v).map fun b => .value (.boolean b)
  | .instant => (instant? v).map .instant
  | .zoned => (instant? v).map fun t => .zoned (.utc t)
  | .array => none
  | .record => none
  | .value => some (.value v)

end TypedRecords.Coercion
