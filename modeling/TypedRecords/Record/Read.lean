import TypedRecords.Coercion
import TypedRecords.RecordError

/-! Typed reads of a record. A field that is absent reads as no value. -/
namespace TypedRecords

def Value.readAs (coercer : Coercer) (target : Representation) (name : String) (v : Value) :
    Except RecordError target.Carrier :=
  match (target.direct? v).or ((coercer v target).bind (Coerced.payload? target)) with
  | some payload => .ok payload
  | none => .error (.noCoercion name v.variantName target.name)

namespace Record

def getWith (r : Record) (coercer : Coercer) (target : Representation) (name : String) :
    Except RecordError (Option target.Carrier) :=
  match r.value? name with
  | none => .ok none
  | some v => (v.readAs coercer target name).map some

def get (r : Record) (target : Representation) (name : String) :
    Except RecordError (Option target.Carrier) :=
  r.getWith Coercion.standard target name

/-- Reads every item of an array; the first that cannot be read is the error. -/
def getArray (r : Record) (target : Representation) (name : String) :
    Except RecordError (Option (List target.Carrier)) :=
  match r.value? name with
  | none => .ok none
  | some (.array items) =>
    (items.mapM (Value.readAs Coercion.standard target name)).map some
  | some v => .error (.noCoercion name v.variantName Representation.array.name)

end Record

end TypedRecords
