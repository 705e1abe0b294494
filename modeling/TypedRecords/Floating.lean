/-! Binary floating point numbers as a sign and the bits below it. Read as a natural number these
bits rank the values of one sign: zero, the finite values in order, infinity, and above it all
that is not a number. -/
namespace TypedRecords

structure FloatFormat where
  exponentBits : Nat
  fractionBits : Nat
deriving DecidableEq

namespace FloatFormat

def single : FloatFormat := ⟨8, 23⟩

def double : FloatFormat := ⟨11, 52⟩

abbrev width (format : FloatFormat) : Nat := format.exponentBits + format.fractionBits

def infinity (format : FloatFormat) : BitVec format.width :=
  BitVec.allOnes format.exponentBits ++ BitVec.zero format.fractionBits

def leadingBit (format : FloatFormat) : Nat := 1 <<< format.fractionBits

/-- All finite values are below two to this power. -/
def greatestExponent (format : FloatFormat) : Nat := 1 <<< (format.exponentBits - 1)

/-- The least positive value is two to this power. -/
def leastExponent (format : FloatFormat) : Int :=
  2 - (format.greatestExponent : Int) - format.fractionBits

end FloatFormat

structure Floating (format : FloatFormat) where
  negative : Bool
  magnitude : BitVec format.width
deriving DecidableEq

abbrev Single := Floating .single

abbrev Double := Floating .double

namespace Floating

variable {format : FloatFormat}

/-- Bits above the sign are dropped. -/
def ofBits (bits : Nat) : Floating format :=
  ⟨bits.testBit format.width, BitVec.ofNat format.width bits⟩

def toBits (x : Floating format) : Nat := (BitVec.ofBool x.negative ++ x.magnitude).toNat

def infinity (negative : Bool) : Floating format := ⟨negative, format.infinity⟩

/-- Of the patterns that are no number, the one with all bits below the sign set. -/
def nan : Floating format := ⟨false, BitVec.allOnes format.width⟩

def isNaN (x : Floating format) : Bool := format.infinity < x.magnitude

def isFinite (x : Floating format) : Bool := x.magnitude < format.infinity

def isZero (x : Floating format) : Bool := x.magnitude == BitVec.zero format.width

def exponentField (x : Floating format) : Nat := x.magnitude.toNat / format.leadingBit

def fraction (x : Floating format) : Nat := x.magnitude.toNat % format.leadingBit

/-- A finite value is its significand times two to its exponent, up to the sign. The values below
all those with a leading bit have the exponent of the least of these. -/
def significand (x : Floating format) : Nat :=
  if x.exponentField = 0 then x.fraction else format.leadingBit + x.fraction

def exponent (x : Floating format) : Int :=
  format.leastExponent + (x.exponentField - 1 : Nat)

/-- Nothing equals a value that is no number, and zero equals zero of either sign. -/
def equal (x y : Floating format) : Bool :=
  !x.isNaN && !y.isNaN && (x == y || (x.isZero && y.isZero))

/-- The place in the order of all numbers, the same one for zeros of both signs. -/
def rank (x : Floating format) : Int :=
  if x.negative then -(x.magnitude.toNat : Int) else x.magnitude.toNat

/-- What is no number is neither above nor below anything. -/
def le (x y : Floating format) : Bool := !x.isNaN && !y.isNaN && decide (x.rank ≤ y.rank)

def lt (x y : Floating format) : Bool := !x.isNaN && !y.isNaN && decide (x.rank < y.rank)

end Floating

end TypedRecords
