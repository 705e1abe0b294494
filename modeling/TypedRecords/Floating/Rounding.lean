import TypedRecords.Decimal
import TypedRecords.Floating

/-! Rounding to the nearest value of a format, a tie going to the even significand, and the
conversions that rest on it. Quotients of natural numbers stand for the exact values, so that
every step is exact but the one that rounds. -/
namespace TypedRecords

/-- The integer nearest to a quotient, the even one of two. -/
def roundDiv (num den : Nat) : Nat :=
  let floor := num / den
  let twice := 2 * (num % den)
  if twice < den ∨ (twice = den ∧ floor % 2 = 0) then floor else floor + 1

/-- The quotient `num / den` divided by two to the given power. -/
def scaleDown (num den : Nat) (power : Int) : Nat × Nat :=
  (num <<< (-power).toNat, den <<< power.toNat)

/-- The greatest power of two that is not above a positive quotient. -/
def log2Div (num den : Nat) : Int :=
  let guess : Int := num.log2 - den.log2
  let (n, d) := scaleDown num den guess
  if n < d then guess - 1 else guess

namespace FloatFormat

/-- The rank of the value nearest to `num / den`, as if exponents had no end. A significand that
rounds up to the next power of two carries into the exponent by itself. -/
def nearestRank (format : FloatFormat) (num den : Nat) : Nat :=
  if num = 0 then 0
  else
    let power := max format.leastExponent (log2Div num den - format.fractionBits)
    let (n, d) := scaleDown num den power
    (power - format.leastExponent).toNat * format.leadingBit + roundDiv n d

end FloatFormat

namespace Floating

variable {format other : FloatFormat}

/-- What rounds beyond the finite values is infinite. -/
def ofRatio (negative : Bool) (num den : Nat) : Floating format :=
  ⟨negative, BitVec.ofNat _ (min (format.nearestRank num den) format.infinity.toNat)⟩

def ofInt (n : Int) : Floating format := ofRatio (n < 0) n.natAbs 1

def ratio (x : Floating format) : Nat × Nat := scaleDown x.significand 1 (-x.exponent)

def convert (x : Floating format) : Floating other :=
  if x.isNaN then nan
  else if x.isFinite then ofRatio x.negative x.ratio.1 x.ratio.2
  else infinity x.negative

/-- The value without its fraction: the bits below the point are cleared. -/
def truncate (x : Floating format) : Floating format :=
  let places := (-x.exponent).toNat
  if format.fractionBits < places then ⟨x.negative, BitVec.zero format.width⟩
  else ⟨x.negative, x.magnitude >>> places <<< places⟩

/-- The integer part, or the end of the range that is nearer. What is no number becomes zero. -/
def clampToInt (low high : Int) (x : Floating format) : Int :=
  if x.isNaN then 0
  else if x.isFinite then
    let whole : Int := (x.ratio.1 / x.ratio.2 : Nat)
    max low (min (if x.negative then -whole else whole) high)
  else if x.negative then low else high

/-- Up to the sign, the value of `coefficient * 10 ^ exponent`. Decimals far outside the format
are decided by their order alone. -/
def ofDecimal (negative : Bool) (coefficient : Nat) (exponent : Int) : Floating format :=
  let order := (Nat.toDigits 10 coefficient).length + exponent
  if coefficient = 0 ∨ order < format.leastExponent - 1 then ofRatio negative 0 1
  else if (format.greatestExponent : Int) < order then infinity negative
  else ofRatio negative (shiftDecimal coefficient exponent.toNat) (shiftDecimal 1 (-exponent).toNat)

end Floating

end TypedRecords
