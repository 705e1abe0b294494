import TypedRecords.Decimal
import TypedRecords.Floating

/-! The shortest decimal of a positive finite value: of the decimals with the fewest digits that
round to the value, the nearest one. Grids of ever smaller powers of ten are tried, on each the two
neighbours of the value. -/
namespace TypedRecords

inductive Tie
  | up | even
deriving DecidableEq

/-- The reals that round to one value, in quarters of its last place: the unit is two to the
power `exponent`. -/
structure RoundingInterval where
  low : Nat
  value : Nat
  high : Nat
  closed : Bool
  exponent : Int

namespace RoundingInterval

/-- The unit and the step of the grid of `10 ^ power`, over one denominator. -/
def weights (i : RoundingInterval) (power : Int) : Nat × Nat :=
  (shiftDecimal 1 (-power).toNat <<< i.exponent.toNat,
    shiftDecimal 1 power.toNat <<< (-i.exponent).toNat)

def contains (i : RoundingInterval) (d : Decimal) : Bool :=
  let (unit, step) := i.weights d.exponent
  if i.closed then i.low * unit ≤ d.coefficient * step && d.coefficient * step ≤ i.high * unit
  else i.low * unit < d.coefficient * step && d.coefficient * step < i.high * unit

def below (i : RoundingInterval) (power : Int) : Decimal :=
  let (unit, step) := i.weights power
  ⟨i.value * unit / step, power⟩

def prefersAbove (i : RoundingInterval) (tie : Tie) (power : Int) : Bool :=
  let (unit, step) := i.weights power
  let twice := 2 * (i.value * unit % step)
  if twice = step then tie == .up || i.value * unit / step % 2 == 1 else step < twice

def nearest? (i : RoundingInterval) (tie : Tie) (power : Int) : Option Decimal :=
  let lower := i.below power
  let upper := { lower with coefficient := lower.coefficient + 1 }
  match i.contains lower, i.contains upper with
  | true, true => some (if i.prefersAbove tie power then upper else lower)
  | true, false => some lower
  | false, true => some upper
  | false, false => none

def search (i : RoundingInterval) (tie : Tie) : Nat → Int → Decimal
  | 0, power => i.below power
  | grids + 1, power => (i.nearest? tie power).getD (i.search tie grids (power - 1))

/-- Seventeen digits are enough for every format up to double. Ten is the only coefficient found
that ends in a zero. -/
def shortest (i : RoundingInterval) (tie : Tie) : Decimal :=
  let start := log10Div (i.value <<< i.exponent.toNat) (1 <<< (-i.exponent).toNat)
  let found := i.search tie 17 start
  if found.coefficient = 10 then ⟨1, found.exponent + 1⟩ else found

end RoundingInterval

namespace Floating

variable {format : FloatFormat}

/-- Below a power of two the values lie twice as close. -/
def interval (x : Floating format) : RoundingInterval where
  low := 4 * x.significand -
    if x.significand = format.leadingBit ∧ format.leastExponent < x.exponent then 1 else 2
  value := 4 * x.significand
  high := 4 * x.significand + 2
  closed := x.significand % 2 == 0
  exponent := x.exponent - 2

def shortest (x : Floating format) (tie : Tie) : Decimal :=
  if x.isZero then ⟨0, 0⟩ else x.interval.shortest tie

end Floating

end TypedRecords
