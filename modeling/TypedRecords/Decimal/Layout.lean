import TypedRecords.Decimal.Shortest

/-! Written decimals. -/
namespace TypedRecords

/-- The decisions of a format for finite numbers: which decimal of two equally near is taken,
from which power of the leading digit to which one digits are written out, and whether a whole
number ends in `.0`. -/
structure DecimalLayout where
  tie : Tie
  writtenOut : Int → Bool
  pointZero : Bool

namespace Decimal

def written (d : Decimal) (pointZero : Bool) : List Char :=
  if 0 ≤ d.exponent then
    d.digits ++ List.replicate d.exponent.toNat '0' ++ if pointZero then ['.', '0'] else []
  else
    let places := (-d.exponent).toNat
    let padded := List.replicate (places + 1 - d.digits.length) '0' ++ d.digits
    padded.take (padded.length - places) ++ '.' :: padded.drop (padded.length - places)

def scientific (d : Decimal) : List Char :=
  let mantissa := match d.digits with
    | lead :: next :: rest => lead :: '.' :: next :: rest
    | short => short
  let mark := if d.order < 0 then '-' else '+'
  mantissa ++ 'e' :: mark :: Nat.toDigits 10 d.order.natAbs

end Decimal

namespace DecimalLayout

def text (layout : DecimalLayout) {format : FloatFormat} (x : Floating format) : String :=
  let decimal := x.shortest layout.tie
  let body := if layout.writtenOut decimal.order then decimal.written layout.pointZero
    else decimal.scientific
  String.ofList (if x.negative then '-' :: body else body)

end DecimalLayout

end TypedRecords
