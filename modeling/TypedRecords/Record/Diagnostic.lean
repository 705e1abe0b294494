import TypedRecords.Coercion
import TypedRecords.Json

/-! Records as JSON, for people to look at. Instants are written where they can be, and as a number
of milliseconds elsewhere; floating point numbers that are not finite are null. -/
namespace TypedRecords

def Json.ofDouble (x : Double) : Json := if x.isFinite then .floating x else .null

mutual

def Value.toJson : Value → Json
  | .string text => .string text
  | .bytes data => .array (data.toList.map fun byte => .integer byte.toNat)
  | .int n => .integer n.toInt
  | .long n => .integer n.toInt
  | .float x => .ofDouble x.convert
  | .double x => .ofDouble x
  | .boolean b => .boolean b
  | .dateTime millis =>
    match Coercion.millisText? millis with
    | some text => .string text
    | none => .integer millis.toInt
  | .array items => .array (itemsToJson items)
  | .record r => r.toJson

def Record.toJson : Record → Json
  | ⟨_, values⟩ => .object (valuesToJson values)

def itemsToJson : List Value → List Json
  | [] => []
  | item :: items => item.toJson :: itemsToJson items

def valuesToJson : List (String × Value) → List (String × Json)
  | [] => []
  | (name, v) :: values => (name, v.toJson) :: valuesToJson values

end

end TypedRecords
