import TypedRecords.Calendar.Date

/-! Instants of universal time, and instants seen from an offset. -/
namespace TypedRecords

/-- Seconds since 1970 and nanoseconds of the second. Nanoseconds from a whole second upward stand
for a leap second that follows the second. The years go from -262143 to 262142. -/
structure Instant where
  secs : Int
  nanos : Nat
  start_le : -8334601228800 ≤ secs
  le_end : secs ≤ 8210266876799
  nanos_lt : nanos < 2000000000
deriving DecidableEq

namespace Instant

def ofParts? (secs : Int) (nanos : Nat) : Option Instant :=
  if h : -8334601228800 ≤ secs ∧ secs ≤ 8210266876799 ∧ nanos < 2000000000 then
    some ⟨secs, nanos, h.1, h.2.1, h.2.2⟩
  else none

def ofMillis? (millis : Int) : Option Instant :=
  ofParts? (millis / 1000) ((millis % 1000).toNat * 1000000)

def toMillis (t : Instant) : Int := t.secs * 1000 + (t.nanos / 1000000 : Nat)

theorem toMillis_bounds (t : Instant) :
    -9223372036854775808 ≤ t.toMillis ∧ t.toMillis < 9223372036854775808 := by
  have := t.start_le
  have := t.le_end
  have := t.nanos_lt
  unfold toMillis
  omega

def epochMillis (t : Instant) : Int64 := Int64.ofInt t.toMillis

theorem toInt_epochMillis (t : Instant) : t.epochMillis.toInt = t.toMillis :=
  Int64.toInt_ofInt_of_le t.toMillis_bounds.1 t.toMillis_bounds.2

end Instant

/-- An instant and the offset east of universal time, in seconds, that it is seen from. -/
structure Zoned where
  instant : Instant
  offset : Int
deriving DecidableEq

namespace Zoned

def utc (t : Instant) : Zoned := ⟨t, 0⟩

def sameInstant (x y : Zoned) : Bool := x.instant == y.instant

end Zoned

end TypedRecords
