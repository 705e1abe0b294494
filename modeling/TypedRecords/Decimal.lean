/-! Decimals: a coefficient times a power of ten. -/
namespace TypedRecords

def intText (n : Int) : String :=
  let digits := Nat.toDigits 10 n.natAbs
  String.ofList (if n < 0 then '-' :: digits else digits)

/-- The number whose digits are followed by so many zeros. -/
def shiftDecimal (n zeros : Nat) : Nat := n * Nat.pow 10 zeros

structure Decimal where
  coefficient : Nat
  exponent : Int
deriving DecidableEq, Repr

namespace Decimal

def digits (d : Decimal) : List Char := Nat.toDigits 10 d.coefficient

/-- The power of ten of the leading digit. -/
def order (d : Decimal) : Int := d.exponent + d.digits.length - 1

end Decimal

/-- The greatest power of ten that is not above a positive quotient. -/
def log10Div (num den : Nat) : Int :=
  if den ≤ num then (Nat.toDigits 10 (num / den)).length - 1
  else -((Nat.toDigits 10 ((den - 1) / num)).length : Nat)

end TypedRecords
