import TypedRecords.Calendar.Instant
import TypedRecords.Value

/-! What a write is given: no value, a value to be stored as it is, or a point in time of which
the milliseconds are stored. -/
namespace TypedRecords

/-- A civil time has no offset and is taken as universal time, in whole seconds. -/
inductive TemporalInput
  | epochMillis (millis : Int64)
  | date (t : Instant)
  | zoned (t : Zoned)
  | civil (t : Instant)

namespace TemporalInput

def toMillis : TemporalInput → Int64
  | epochMillis millis => millis
  | date t => t.epochMillis
  | zoned t => t.instant.epochMillis
  | civil t => Int64.ofInt (t.secs * 1000)

def same : TemporalInput → TemporalInput → Bool
  | epochMillis a, epochMillis b => a == b
  | date a, date b => a == b
  | zoned a, zoned b => a.sameInstant b
  | civil a, civil b => a == b
  | _, _ => false

instance : BEq TemporalInput := ⟨same⟩

end TemporalInput

inductive FieldInput
  | null
  | value (v : Value)
  | temporal (t : TemporalInput)

namespace FieldInput

def ofOption {α : Type} (input : α → FieldInput) : Option α → FieldInput
  | none => null
  | some a => input a

def isNull : FieldInput → Bool
  | null => true
  | _ => false

def variantName : FieldInput → String
  | null => "Null"
  | value v => v.variantName
  | temporal _ => "DateTime"

def same : FieldInput → FieldInput → Bool
  | null, null => true
  | value a, value b => a == b
  | temporal a, temporal b => a == b
  | _, _ => false

instance : BEq FieldInput := ⟨same⟩

end FieldInput

/-- Every type is compatible with the absence of a value; whether an entry may be null is for the
entry to say. -/
def FieldType.isCompatible (type : FieldType) : FieldInput → Bool
  | .null => true
  | .value v => type.accepts v
  | .temporal _ => type == .dateTime

end TypedRecords
