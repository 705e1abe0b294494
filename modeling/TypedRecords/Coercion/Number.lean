import TypedRecords.Decimal.Layout
import TypedRecords.Decimal.Numeral
import TypedRecords.Text.Blank
import TypedRecords.Value

/-! Stored values as numbers, numbers in the widths of the stored values, and their texts. -/
namespace TypedRecords

def int32? (n : Int) : Option Int32 :=
  if Int32.minValue.toInt ≤ n ∧ n ≤ Int32.maxValue.toInt then some (.ofInt n) else none

def int64? (n : Int) : Option Int64 :=
  if Int64.minValue.toInt ≤ n ∧ n ≤ Int64.maxValue.toInt then some (.ofInt n) else none

inductive Number
  | integer (n : Int64)
  | floating (x : Double)

namespace Number

/-- An integer that fits 64 bits is read as it is; any other numeral as the nearest double. -/
def read? (text : String) : Option Number :=
  let trimmed := trimBlanks text.toList
  match (Numeral.integer? trimmed).bind int64? with
  | some n => some (integer n)
  | none => (Numeral.number? trimmed).map fun numeral => floating numeral.toFloating

def ofValue? : Value → Option Number
  | .int n => some (integer n.toInt64)
  | .long n => some (integer n)
  | .dateTime millis => some (integer millis)
  | .float x => some (floating x.convert)
  | .double x => some (floating x)
  | .string text => read? text
  | _ => none

/-- Both ends of the range are doubles, and belong to it. -/
def toInt32? : Number → Option Int32
  | integer n => int32? n.toInt
  | floating x =>
    let low := Int32.minValue.toInt
    let high := Int32.maxValue.toInt
    let whole := x.truncate
    if (Floating.ofInt low).le whole && whole.le (.ofInt high) then
      some (.ofInt (whole.clampToInt low high))
    else none

/-- The upper end of the range rounds to a double that no longer belongs to it. -/
def toInt64? : Number → Option Int64
  | integer n => some n
  | floating x =>
    let low := Int64.minValue.toInt
    let high := Int64.maxValue.toInt
    let whole := x.truncate
    if (Floating.ofInt low).le whole && whole.lt (.ofInt high) then
      some (.ofInt (whole.clampToInt low high))
    else none

def toSingle : Number → Single
  | integer n => .ofInt n.toInt
  | floating x => x.convert

def toDouble : Number → Double
  | integer n => .ofInt n.toInt
  | floating x => x

/-- All digits are written out, a whole number has no point, and of two equally near decimals the
one farther from zero is taken. -/
def layout : DecimalLayout := ⟨.up, fun _ => true, false⟩

def floatingText {format : FloatFormat} (x : Floating format) : String :=
  if x.isNaN then "NaN"
  else if x.isFinite then layout.text x
  else if x.negative then "-inf" else "inf"

end Number

end TypedRecords
