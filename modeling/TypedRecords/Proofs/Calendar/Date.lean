import Mathlib.Tactic.IntervalCases
import TypedRecords.Calendar.Date

/-! Days and dates are two names of the same thing. Within the 400 years that repeat, the year of a
day is found by leaving out the leap days before it; the estimate grows with the day, and is right
on the first and on the last day of every year. -/
namespace TypedRecords.Date

section Years

theorem yearStart_succ (year : Int) :
    yearStart (year + 1) = yearStart year + if isLeap (year + 1) then 366 else 365 := by
  simp only [yearStart, isLeap, Bool.and_eq_true, Bool.or_eq_true, bne_iff_ne, beq_iff_eq]
  split <;> omega

theorem yearStart_mono {a b : Int} (le : a ≤ b) : yearStart a ≤ yearStart b := by
  unfold yearStart
  omega

theorem yearStart_cycles (cycles year : Int) :
    yearStart (400 * cycles + year) = 146097 * cycles + yearStart year := by
  unfold yearStart
  omega

theorem yearOfCycle_mono {a b : Nat} (le : a ≤ b) : yearOfCycle a ≤ yearOfCycle b := by
  induction le with
  | refl => exact le_rfl
  | @step b _ ih =>
    apply ih.trans (Nat.div_le_div_right _)
    -- the last divisor is four times the one before it, so that these quotients go up together
    have leapDays : (b + 1) / 1460 ≤ b / 1460 + 1 := by omega
    have centuries : b / 36524 ≤ (b + 1) / 36524 := by omega
    have here : b / 146096 = b / 36524 / 4 := by rw [Nat.div_div_eq_div_mul]
    have next : (b + 1) / 146096 = (b + 1) / 36524 / 4 := by rw [Nat.div_div_eq_div_mul]
    have enough : (b + 1) / 1460 ≤ b + 1 := Nat.div_le_self _ _
    rw [Nat.succ_eq_add_one, here, next]
    omega

theorem yearOfCycle_ends : ∀ year : Nat, year < 400 → yearOfCycle (yearStart year).toNat = year ∧
    yearOfCycle ((yearStart (year + 1 : Nat)).toNat - 1) = year := by
  decide +kernel

/-- The day lies between the first days of its year and of the next one. -/
theorem yearOfCycle_bounds {days : Nat} (inCycle : days < 146097) :
    yearStart (yearOfCycle days) ≤ days ∧ days < yearStart (yearOfCycle days + 1 : Nat) := by
  have below : yearOfCycle days ≤ 399 := yearOfCycle_mono (show days ≤ 146096 by omega)
  constructor
  · by_contra early
    cases year : yearOfCycle days with
    | zero =>
      have first : yearStart (0 : Nat) = 0 := rfl
      rw [year] at early
      omega
    | succ previous =>
      rw [year] at early
      have before : days ≤ (yearStart (previous + 1 : Nat)).toNat - 1 := by omega
      have small := yearOfCycle_mono before
      rw [(yearOfCycle_ends previous (by omega)).2] at small
      omega
  · by_contra late
    rcases Nat.lt_or_ge (yearOfCycle days + 1) 400 with inside | last
    · have after : (yearStart (yearOfCycle days + 1 : Nat)).toNat ≤ days := by omega
      have large := yearOfCycle_mono after
      rw [(yearOfCycle_ends _ inside).1] at large
      omega
    · have whole : yearStart (400 : Nat) = 146097 := rfl
      have isLast : yearOfCycle days + 1 = 400 := by omega
      rw [isLast] at late
      omega

end Years

section Months

/-- A day of the month that comes so many months after March, in a year that begins in March. -/
def monthAfter (year : Int) (months day : Nat) : Date :=
  ⟨if months < 10 then year else year + 1, if months < 10 then months + 3 else months - 9, day⟩

def lengthAfter (year : Int) (months : Nat) : Nat :=
  monthLength (monthAfter year months 1).year (monthAfter year months 1).month

theorem daysBefore_succ (year : Int) {months : Nat} (inside : months < 11) :
    daysBefore (months + 1) = daysBefore months + lengthAfter year months := by
  unfold lengthAfter monthAfter
  interval_cases months <;> simp [daysBefore, monthLength]

/-- The last month takes what is left of the year. -/
theorem yearStart_succ_eq (year : Int) :
    yearStart (year + 1) = yearStart year + daysBefore 11 + lengthAfter year 11 := by
  have before : daysBefore 11 = 337 := rfl
  have length : lengthAfter year 11 = if isLeap (year + 1) then 29 else 28 := rfl
  rw [yearStart_succ, before, length]
  split <;> omega

theorem toDays_monthAfter (year : Int) {months : Nat} (inYear : months ≤ 11) (day : Nat) :
    (monthAfter year months day).toDays = yearStart year + daysBefore months + day - 1 - epoch := by
  unfold toDays monthAfter
  dsimp only
  split
  · next early =>
    have same : (months + 3 + 9) % 12 = months := by omega
    rw [if_neg (by omega), same]
  · next late =>
    have same : (months - 9 + 9) % 12 = months := by omega
    rw [if_pos (by omega), same, Int.add_sub_cancel]

/-- The month of a day of the year, by the days since the first of March. -/
theorem months_bounds {year : Int} {inYear : Nat}
    (inside : yearStart year + inYear < yearStart (year + 1)) :
    (5 * inYear + 2) / 153 ≤ 11 ∧ daysBefore ((5 * inYear + 2) / 153) ≤ inYear ∧
      inYear < daysBefore ((5 * inYear + 2) / 153) + lengthAfter year ((5 * inYear + 2) / 153) := by
  have wholeYear := yearStart_succ year
  have short : inYear ≤ 365 := by split at wholeYear <;> omega
  have reached : (5 * inYear + 2) / 153 ≤ 11 ∧ daysBefore ((5 * inYear + 2) / 153) ≤ inYear ∧
      inYear < daysBefore ((5 * inYear + 2) / 153 + 1) := by
    unfold daysBefore
    omega
  refine ⟨reached.1, reached.2.1, ?_⟩
  rcases Nat.lt_or_ge ((5 * inYear + 2) / 153) 11 with early | last
  · rw [← daysBefore_succ year early]
    exact reached.2.2
  · have february : (5 * inYear + 2) / 153 = 11 := by omega
    have rest := yearStart_succ_eq year
    rw [february]
    omega

end Months

/-- The date of a day, counted in years that begin in March. -/
theorem ofDays_eq (days : Int) : ∃ (year : Int) (months inMonth : Nat), months ≤ 11 ∧
    ofDays days = monthAfter year months (inMonth + 1) ∧
    days + epoch = yearStart year + daysBefore months + inMonth ∧
    inMonth < lengthAfter year months := by
  obtain ⟨inCycle, isRest⟩ := Int.eq_ofNat_of_zero_le
    (Int.emod_nonneg (days + epoch) (show (146097 : Int) ≠ 0 by decide))
  obtain ⟨cycle, isCycle⟩ : ∃ cycle, (days + epoch) / 146097 = cycle := ⟨_, rfl⟩
  obtain ⟨year, isYear⟩ : ∃ year, yearOfCycle inCycle = year := ⟨_, rfl⟩
  obtain ⟨inYear, isDay⟩ : ∃ inYear, inCycle - (yearStart year).toNat = inYear := ⟨_, rfl⟩
  obtain ⟨begun, ends⟩ := isYear ▸ yearOfCycle_bounds (show inCycle < 146097 by omega)
  have start : 0 ≤ yearStart year := yearStart_mono (show (0 : Int) ≤ year by omega)
  have here := yearStart_cycles cycle year
  have next := yearStart_cycles cycle (year + 1 : Nat)
  rw [Nat.cast_succ, ← Int.add_assoc] at next
  rw [Nat.cast_succ] at ends
  have inside : yearStart (400 * cycle + year) + inYear < yearStart (400 * cycle + year + 1) := by
    omega
  obtain ⟨lastMonth, reached, inMonth⟩ := months_bounds inside
  refine ⟨400 * cycle + year, (5 * inYear + 2) / 153,
    inYear - daysBefore ((5 * inYear + 2) / 153), lastMonth, ?_, by omega, by omega⟩
  unfold ofDays monthAfter
  simp only [isRest, isCycle, Int.toNat_natCast, isYear, isDay]
  generalize (5 * inYear + 2) / 153 = months at lastMonth ⊢
  congr 1
  split <;> split <;> omega

/-- Every day has a date of the calendar. -/
theorem valid_ofDays (days : Int) : (ofDays days).Valid := by
  obtain ⟨year, months, inMonth, inYear, isDate, -, inside⟩ := ofDays_eq days
  rw [isDate]
  have month : 1 ≤ (monthAfter year months (inMonth + 1)).month ∧
      (monthAfter year months (inMonth + 1)).month ≤ 12 := by
    unfold monthAfter
    dsimp only
    split <;> omega
  exact ⟨month.1, month.2, Nat.le_add_left 1 inMonth, inside⟩

/-- The date of a day names this day. -/
theorem toDays_ofDays (days : Int) : (ofDays days).toDays = days := by
  obtain ⟨year, months, inMonth, inYear, isDate, isDay, -⟩ := ofDays_eq days
  rw [isDate, toDays_monthAfter year inYear]
  omega

section Range

def newYear (year : Int) : Date := ⟨year, 1, 1⟩

theorem toDays_newYear (year : Int) :
    (newYear year).toDays = yearStart (year - 1) + 306 - epoch := by
  have isJanuary : newYear year = monthAfter (year - 1) 10 1 := by simp [newYear, monthAfter]
  have before : daysBefore 10 = 306 := rfl
  rw [isJanuary, toDays_monthAfter _ (by decide), before]
  omega

theorem toDays_newYear_mono {a b : Int} (le : a ≤ b) :
    (newYear a).toDays ≤ (newYear b).toDays := by
  have starts := yearStart_mono (show a - 1 ≤ b - 1 by omega)
  rw [toDays_newYear, toDays_newYear]
  omega

theorem exists_monthAfter {date : Date} (valid : date.Valid) : ∃ year months, months ≤ 11 ∧
    date = monthAfter year months date.day ∧ 1 ≤ date.day ∧ date.day ≤ lengthAfter year months := by
  obtain ⟨year, month, day⟩ := date
  obtain ⟨first, last, begins, ends⟩ := valid
  dsimp only at first last begins ends ⊢
  have isDate : (⟨year, month, day⟩ : Date) =
      monthAfter (if month ≤ 2 then year - 1 else year) ((month + 9) % 12) day := by
    unfold monthAfter
    congr 1
    · split <;> split <;> omega
    · split <;> omega
  refine ⟨_, _, by omega, isDate, begins, ?_⟩
  simp only [monthAfter, Date.mk.injEq] at isDate
  unfold lengthAfter monthAfter
  dsimp only
  rw [← isDate.1, ← isDate.2.1]
  exact ends

/-- A date lies between the first day of its year and that of the next one. -/
theorem toDays_bounds {date : Date} (valid : date.Valid) :
    (newYear date.year).toDays ≤ date.toDays ∧ date.toDays < (newYear (date.year + 1)).toDays := by
  obtain ⟨year, months, inYear, isDate, begins, ends⟩ := exists_monthAfter valid
  generalize date.day = day at isDate begins ends
  subst isDate
  rw [toDays_monthAfter year inYear, toDays_newYear, toDays_newYear]
  have isYear : (monthAfter year months day).year = if months < 10 then year else year + 1 := rfl
  have february : daysBefore 10 = 306 ∧ daysBefore 11 = 337 := ⟨rfl, rfl⟩
  have whole := yearStart_succ_eq year
  rcases Nat.lt_or_ge months 10 with early | late
  · have previous := yearStart_succ (year - 1)
    have next := daysBefore_succ year (show months < 11 by omega)
    have most : daysBefore (months + 1) ≤ 306 := by
      unfold daysBefore
      omega
    rw [isYear, if_pos early, Int.add_sub_cancel]
    rw [Int.sub_add_cancel] at previous
    split at previous <;> omega
  · rw [isYear, if_neg (by omega), Int.add_sub_cancel, Int.add_sub_cancel]
    obtain rfl | rfl : months = 10 ∨ months = 11 := by omega
    · have next : daysBefore 11 = _ := daysBefore_succ year (show 10 < 11 by decide)
      omega
    · omega

/-- The days whose year lies in a range. -/
theorem year_ofDays_iff {first last days : Int} :
    first ≤ (ofDays days).year ∧ (ofDays days).year ≤ last ↔
      (newYear first).toDays ≤ days ∧ days < (newYear (last + 1)).toDays := by
  obtain ⟨begun, ends⟩ := toDays_bounds (valid_ofDays days)
  rw [toDays_ofDays] at begun ends
  constructor
  · rintro ⟨lower, upper⟩
    have least := toDays_newYear_mono lower
    have greatest := toDays_newYear_mono (show (ofDays days).year + 1 ≤ last + 1 by omega)
    omega
  · rintro ⟨lower, upper⟩
    constructor
    · by_contra early
      have before := toDays_newYear_mono (show (ofDays days).year + 1 ≤ first by omega)
      omega
    · by_contra late
      have after := toDays_newYear_mono (show last + 1 ≤ (ofDays days).year by omega)
      omega

end Range

end TypedRecords.Date
