/-! Days of the Gregorian calendar, extended without end in both directions. Day zero is the first
of January 1970. Within the arithmetic a year begins in March, so that a leap day is its last. -/
namespace TypedRecords

structure Date where
  year : Int
  month : Nat
  day : Nat
deriving DecidableEq, Repr

namespace Date

def isLeap (year : Int) : Bool := year % 4 == 0 && (year % 100 != 0 || year % 400 == 0)

def monthLength (year : Int) (month : Nat) : Nat :=
  if month = 2 then if isLeap year then 29 else 28
  else if month = 4 ∨ month = 6 ∨ month = 9 ∨ month = 11 then 30
  else 31

def Valid (date : Date) : Prop :=
  1 ≤ date.month ∧ date.month ≤ 12 ∧ 1 ≤ date.day ∧ date.day ≤ monthLength date.year date.month

instance (date : Date) : Decidable date.Valid :=
  inferInstanceAs (Decidable (_ ∧ _))

/-- Days from the first of March to the first of the month that comes `months` later. -/
def daysBefore (months : Nat) : Nat := (153 * months + 2) / 5

def yearStart (year : Int) : Int := 365 * year + year / 4 - year / 100 + year / 400

def epoch : Int := 719468

def toDays (date : Date) : Int :=
  let year := if date.month ≤ 2 then date.year - 1 else date.year
  yearStart year + daysBefore ((date.month + 9) % 12) + date.day - 1 - epoch

/-- The year that began last in March, of the 400 years that repeat, by the days since the first
of them began. -/
def yearOfCycle (days : Nat) : Nat :=
  (days - days / 1460 + days / 36524 - days / 146096) / 365

def ofDays (days : Int) : Date :=
  let cycle := (days + epoch) / 146097
  let inCycle := ((days + epoch) % 146097).toNat
  let year := yearOfCycle inCycle
  let inYear := inCycle - (yearStart year).toNat
  let months := (5 * inYear + 2) / 153
  let month := if months < 10 then months + 3 else months - 9
  ⟨400 * cycle + year + if month ≤ 2 then 1 else 0, month, inYear - daysBefore months + 1⟩

end Date

end TypedRecords
