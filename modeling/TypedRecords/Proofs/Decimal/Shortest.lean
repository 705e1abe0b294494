import Mathlib.Data.Nat.Cast.Order.Field
import TypedRecords.Decimal.Shortest
import TypedRecords.Proofs.Decimal.Rounding

/-! The shortest decimal of a value is one that rounds to the value. The grids grow finer by the
step, and the last one that is tried has, for a significand below ten to the sixteenth, a point
close enough to the value. -/
namespace TypedRecords

theorem log10Div_le {num den : Nat} (nonzero : 0 < num) (positive : 0 < den) :
    (10 : ℚ) ^ log10Div num den ≤ (num : ℚ) / den := by
  have positive' : (0 : ℚ) < den := by exact_mod_cast positive
  unfold log10Div
  split
  · next above =>
    have quotient : 0 < num / den := Nat.div_pos above positive
    have digits : 0 < (Nat.toDigits 10 (num / den)).length :=
      List.length_pos_iff.mpr Nat.toDigits_ne_nil
    rw [← Nat.cast_pred digits, zpow_natCast]
    calc (10 : ℚ) ^ ((Nat.toDigits 10 (num / den)).length - 1) ≤ (num / den : ℕ) := by
          exact_mod_cast (Decimal.toDigits_bounds quotient).1
      _ ≤ (num : ℚ) / den := Nat.cast_div_le
  · next below =>
    have quotient : 0 < (den - 1) / num := Nat.div_pos (by omega) nonzero
    have digits := (Decimal.toDigits_bounds quotient).2
    generalize (Nat.toDigits 10 ((den - 1) / num)).length = places at digits ⊢
    have bound : den ≤ num * 10 ^ places :=
      calc den ≤ num * ((den - 1) / num + 1) := by
            have := Nat.lt_mul_div_succ (den - 1) nonzero
            omega
        _ ≤ num * 10 ^ places := Nat.mul_le_mul_left num digits
    rw [zpow_neg, zpow_natCast, le_div_iff₀ positive', inv_mul_le_iff₀ (by positivity), mul_comm]
    exact_mod_cast bound

theorem zpow_eq_quarters (power : ℤ) : (2 : ℚ) ^ power = 4 * 2 ^ (power - 2) := by
  rw [zpow_sub₀ two_ne_zero, zpow_ofNat]
  ring

namespace RoundingInterval

structure Holds (i : RoundingInterval) (q : ℚ) : Prop where
  low : i.low * 2 ^ i.exponent ≤ q
  high : q ≤ i.high * 2 ^ i.exponent
  inside : i.closed = false → i.low * 2 ^ i.exponent < q ∧ q < i.high * 2 ^ i.exponent

/-- The value is in the middle and has at most sixteen digits and a bit, or it is in the upper part,
and then it has a bit less. -/
structure Roomy (i : RoundingInterval) : Prop where
  high : i.high = i.value + 2
  low : i.low + 2 = i.value ∧ i.value < 4 * 10 ^ 16 ∨ i.low < i.value ∧ i.value < 2 * 10 ^ 16

variable (i : RoundingInterval)

theorem weights_pos (power : ℤ) : 0 < (i.weights power).1 ∧ 0 < (i.weights power).2 := by
  simp [weights, shiftDecimal_eq, Nat.shiftLeft_eq]

/-- The weights are the unit and the step, on one scale. -/
theorem weights_scale (power : ℤ) : ∃ scale : ℚ, 0 < scale ∧
    ((i.weights power).1 : ℚ) = 2 ^ i.exponent * scale ∧
      ((i.weights power).2 : ℚ) = 10 ^ power * scale := by
  refine ⟨2 ^ (-i.exponent).toNat * 10 ^ (-power).toNat, by positivity, ?_, ?_⟩
  · rw [zpow_eq_div 2 i.exponent]
    simp only [weights, shiftDecimal_eq, Nat.shiftLeft_eq]
    push_cast
    field_simp
  · rw [zpow_eq_div 10 power]
    simp only [weights, shiftDecimal_eq, Nat.shiftLeft_eq]
    push_cast
    field_simp

theorem units_le_steps (k c : Nat) (power : ℤ) :
    k * (i.weights power).1 ≤ c * (i.weights power).2 ↔
      (k : ℚ) * 2 ^ i.exponent ≤ c * 10 ^ power := by
  obtain ⟨scale, positive, unit, step⟩ := i.weights_scale power
  rw [← mul_le_mul_iff_left₀ positive, mul_assoc, mul_assoc, ← unit, ← step]
  exact_mod_cast Iff.rfl

theorem steps_le_units (c k : Nat) (power : ℤ) :
    c * (i.weights power).2 ≤ k * (i.weights power).1 ↔
      (c : ℚ) * 10 ^ power ≤ k * 2 ^ i.exponent := by
  obtain ⟨scale, positive, unit, step⟩ := i.weights_scale power
  rw [← mul_le_mul_iff_left₀ positive, mul_assoc, mul_assoc, ← unit, ← step]
  exact_mod_cast Iff.rfl

/-- A decimal of the interval is a number in it. -/
theorem contains_iff (d : Decimal) : i.contains d = true ↔ i.Holds d.value := by
  have low := i.units_le_steps i.low d.coefficient d.exponent
  have high := i.steps_le_units d.coefficient i.high d.exponent
  have lowInside := (i.steps_le_units d.coefficient i.low d.exponent).not
  have highInside := (i.units_le_steps i.high d.coefficient d.exponent).not
  rw [not_le, not_le] at lowInside highInside
  unfold contains Decimal.value
  dsimp only
  cases closed : i.closed with
  | true =>
    rw [if_pos rfl, Bool.and_eq_true, decide_eq_true_eq, decide_eq_true_eq, low, high]
    exact ⟨fun ⟨low, high⟩ => ⟨low, high, fun isOpen => by simp [closed] at isOpen⟩,
      fun holds => ⟨holds.low, holds.high⟩⟩
  | false =>
    rw [if_neg Bool.false_ne_true, Bool.and_eq_true, decide_eq_true_eq, decide_eq_true_eq,
      lowInside, highInside]
    exact ⟨fun ⟨low, high⟩ => ⟨low.le, high.le, fun _ => ⟨low, high⟩⟩,
      fun holds => holds.inside closed⟩

/-- What lies inside belongs to the interval, closed or not. -/
theorem contains_of_inside {d : Decimal}
    (low : i.low * (i.weights d.exponent).1 < d.coefficient * (i.weights d.exponent).2)
    (high : d.coefficient * (i.weights d.exponent).2 < i.high * (i.weights d.exponent).1) :
    i.contains d = true := by
  unfold contains
  dsimp only
  split
  · simp [low.le, high.le]
  · simp [low, high]

theorem contains_of_nearest? {tie : Tie} {power : ℤ} {d : Decimal}
    (found : i.nearest? tie power = some d) : i.contains d = true := by
  unfold nearest? at found
  dsimp only at found
  split at found
  · next lower upper =>
    obtain rfl := Option.some.inj found
    split
    · exact upper
    · exact lower
  · next lower _ => exact Option.some.inj found ▸ lower
  · next _ upper => exact Option.some.inj found ▸ upper
  · cases found

/-- A step that is short for the interval does not miss it. -/
theorem nearest?_isSome {i : RoundingInterval} (tie : Tie) {power : ℤ} (high : i.high = i.value + 2)
    (fine : i.low + 2 = i.value ∧ (i.weights power).2 < 4 * (i.weights power).1 ∨
      i.low < i.value ∧ (i.weights power).2 < 2 * (i.weights power).1) :
    (i.nearest? tie power).isSome = true := by
  have found : i.contains (i.below power) = true ∨
      i.contains ⟨(i.below power).coefficient + 1, power⟩ = true := by
    have below := Nat.div_add_mod' (i.value * (i.weights power).1) (i.weights power).2
    have rest := Nat.mod_lt (i.value * (i.weights power).1) (i.weights_pos power).2
    have lower := @contains_of_inside i ⟨i.value * (i.weights power).1 / (i.weights power).2, power⟩
    have upper := @contains_of_inside i
      ⟨i.value * (i.weights power).1 / (i.weights power).2 + 1, power⟩
    dsimp only at lower upper
    rw [high, Nat.add_mul] at lower upper
    rw [Nat.add_mul] at upper
    change i.contains ⟨_, power⟩ = true ∨ _
    rcases fine with ⟨middle, short⟩ | ⟨inside, short⟩
    · -- one of the two neighbours is nearer than two units
      have span : i.value * (i.weights power).1 =
          i.low * (i.weights power).1 + 2 * (i.weights power).1 := by
        rw [← middle, Nat.add_mul]
      rcases Nat.lt_or_ge (i.value * (i.weights power).1 % (i.weights power).2)
        (2 * (i.weights power).1) with near | far
      · exact .inl (lower (by omega) (by omega))
      · exact .inr (upper (by omega) (by omega))
    · have := Nat.mul_lt_mul_of_pos_right inside (i.weights_pos power).1
      exact .inr (upper (by omega) (by omega))
  unfold nearest?
  dsimp only
  split
  · rfl
  · rfl
  · rfl
  · next noLower noUpper =>
    rcases found with lower | upper
    · exact absurd (noLower.symm.trans lower) Bool.false_ne_true
    · exact absurd (noUpper.symm.trans upper) Bool.false_ne_true

theorem contains_search {i : RoundingInterval} {tie : Tie} {grids : Nat} {power : ℤ}
    (found : ∃ k < grids, (i.nearest? tie (power - k)).isSome = true) :
    i.contains (i.search tie grids power) = true := by
  induction grids generalizing power with
  | zero =>
    obtain ⟨k, none, -⟩ := found
    omega
  | succ grids ih =>
    unfold search
    cases here : i.nearest? tie power with
    | some d => exact i.contains_of_nearest? here
    | none =>
      refine ih ?_
      obtain ⟨k, within, later⟩ := found
      cases k with
      | zero => simp [here] at later
      | succ k =>
        refine ⟨k, by omega, ?_⟩
        rwa [sub_sub, add_comm 1 (k : ℤ), ← Nat.cast_succ]

/-- Sixteen powers of ten below the value the grid is fine enough. -/
theorem shortest_holds {i : RoundingInterval} (roomy : i.Roomy) (tie : Tie) :
    i.Holds (i.shortest tie).value := by
  have positive : 0 < i.value := by
    rcases roomy.low with ⟨low, -⟩ | ⟨low, -⟩ <;> omega
  have start := @log10Div_le (i.value <<< i.exponent.toNat) (1 <<< (-i.exponent).toNat)
    (by simp [Nat.shiftLeft_eq, positive]) (by simp [Nat.shiftLeft_eq])
  have size : ((i.value <<< i.exponent.toNat : ℕ) : ℚ) / (1 <<< (-i.exponent).toNat : ℕ) =
      i.value * 2 ^ i.exponent := by
    rw [zpow_eq_div 2 i.exponent, Nat.shiftLeft_eq, Nat.shiftLeft_eq]
    push_cast
    rw [one_mul, mul_div_assoc]
  rw [size] at start
  unfold shortest
  dsimp only
  generalize log10Div _ _ = power at start ⊢
  have step : (10 : ℚ) ^ (power - (16 : ℕ)) * 10 ^ 16 ≤ i.value * 2 ^ i.exponent := by
    rw [← zpow_natCast, ← zpow_add₀ (by norm_num), sub_add_cancel]
    exact start
  have short {k : Nat} (few : i.value < k * 10 ^ 16) :
      (i.weights (power - (16 : ℕ))).2 < k * (i.weights (power - (16 : ℕ))).1 := by
    have unit : (0 : ℚ) < 2 ^ i.exponent := by positivity
    have few' : (i.value : ℚ) < k * 10 ^ 16 := by exact_mod_cast few
    have fine := (i.units_le_steps k 1 (power - (16 : ℕ))).not
    rw [not_le, not_le, one_mul, Nat.cast_one, one_mul] at fine
    rw [fine]
    nlinarith
  have found : i.contains (i.search tie 17 power) = true :=
    contains_search ⟨16, by omega, nearest?_isSome tie roomy.high
      (roomy.low.imp (And.imp_right short) (And.imp_right short))⟩
  rw [contains_iff] at found
  split
  · next ten =>
    have same : (⟨1, (i.search tie 17 power).exponent + 1⟩ : Decimal).value =
        (i.search tie 17 power).value := by
      rw [Decimal.value, Decimal.value, ten, zpow_add_one₀ (by norm_num)]
      push_cast
      ring
    exact same ▸ found
  · exact found

end RoundingInterval

namespace Floating

variable {format : FloatFormat}

theorem interval_roomy {x : Floating format} (nonzero : x.isZero = false)
    (digits : 2 * format.leadingBit < 10 ^ 16) : x.interval.Roomy := by
  have bound := x.significand_lt
  have positive : 0 < x.significand := by
    obtain ⟨split, normal⟩ := x.magnitude_eq
    have some : x.magnitude.toNat ≠ 0 := fun none => by
      rw [isZero_iff.mpr none] at nonzero
      cases nonzero
    by_contra zero
    have leading := format.leadingBit_pos
    rw [normal.resolve_right (by omega), Nat.zero_mul] at split
    omega
  refine ⟨rfl, ?_⟩
  unfold interval
  dsimp only
  split
  · next narrow => exact .inr ⟨by omega, by omega⟩
  · exact .inl ⟨by omega, by omega⟩

/-- The interval ends halfway to the next value. -/
theorem interval_high (x : Floating format) :
    format.rankValue x.magnitude.toNat + format.rankValue (x.magnitude.toNat + 1) =
      2 * (x.interval.high * 2 ^ x.interval.exponent) := by
  obtain ⟨split, normal⟩ := x.magnitude_eq
  have next : format.rankValue (x.magnitude.toNat + 1) =
      (x.significand + 1 : ℕ) * 2 ^ x.exponent := by
    rw [split, Nat.add_assoc]
    exact format.rankValue_scaled x.significand_lt (normal.imp_right Nat.le_succ_of_le)
  rw [next, ← absolute_eq_rankValue, absolute, zpow_eq_quarters]
  simp only [interval]
  push_cast
  ring

/-- It begins halfway to the value before, which is nearer below a power of two. -/
theorem interval_low (x : Floating format) {rank : Nat} (before : rank + 1 = x.magnitude.toNat) :
    format.rankValue rank + format.rankValue x.magnitude.toNat =
      2 * (x.interval.low * 2 ^ x.interval.exponent) := by
  obtain ⟨split, normal⟩ := x.magnitude_eq
  have bound := x.significand_lt
  have leading := format.leadingBit_pos
  have power : x.exponent = format.leastExponent + (x.exponentField - 1 : ℕ) := rfl
  rw [← absolute_eq_rankValue, absolute]
  simp only [interval]
  split
  · next narrow =>
    obtain ⟨lead, above⟩ := narrow
    obtain ⟨k, isPower⟩ : ∃ k, x.exponentField - 1 = k + 1 := ⟨x.exponentField - 1 - 1, by omega⟩
    have isRank : rank = k * format.leadingBit + (2 * format.leadingBit - 1) := by
      rw [isPower, Nat.succ_mul] at split
      omega
    have half : (2 : ℚ) ^ (format.leastExponent + k) = 2 * 2 ^ (x.exponent - 2) := by
      rw [power, isPower, Nat.cast_succ, ← zpow_one_add₀ two_ne_zero]
      congr 1
      ring
    rw [isRank, format.rankValue_scaled (by omega) (.inr (by omega)), half,
      zpow_eq_quarters x.exponent, lead, Nat.cast_pred (by omega), Nat.cast_pred (by omega)]
    push_cast
    ring
  · next regular =>
    have some : 0 < x.significand := by
      by_contra none
      rw [normal.resolve_right (by omega), Nat.zero_mul] at split
      omega
    have isRank : rank = (x.exponentField - 1) * format.leadingBit + (x.significand - 1) := by omega
    have scaled : x.exponentField - 1 = 0 ∨ format.leadingBit ≤ x.significand - 1 := by
      by_contra low
      exact regular ⟨by omega, by omega⟩
    have value : format.rankValue rank = (x.significand - 1 : ℕ) * 2 ^ x.exponent := by
      rw [isRank]
      exact format.rankValue_scaled (by omega) scaled
    rw [value, zpow_eq_quarters x.exponent, Nat.cast_pred some, Nat.cast_sub (by omega)]
    push_cast
    ring

variable [format.Standard]

/-- The interval has the numbers to which the value is nearest. -/
theorem nearest_of_holds {x : Floating format} {q : ℚ} (holds : x.interval.Holds q) :
    Nearest format.rankValue q x.magnitude.toNat := by
  have high := x.interval_high
  have inside (odd : x.magnitude.toNat % 2 = 1) : x.interval.closed = false := by
    have even := format.leadingBit_even
    rw [x.magnitude_eq.1, Nat.add_mod, Nat.mul_mod, even, Nat.mul_zero, Nat.zero_mod, Nat.zero_add,
      Nat.mod_mod] at odd
    simp [interval, odd]
  refine ⟨fun m before => ?_, ?_, fun odd => ⟨fun m before => ?_, ?_⟩⟩
  · linarith [x.interval_low before, holds.low]
  · linarith [holds.high]
  · linarith [x.interval_low before, (holds.inside (inside odd)).1]
  · linarith [(holds.inside (inside odd)).2]

/-- The shortest decimal of a value rounds to it. -/
theorem shortest_nearest (x : Floating format) (digits : 2 * format.leadingBit < 10 ^ 16)
    (tie : Tie) : Nearest format.rankValue (x.shortest tie).value x.magnitude.toNat := by
  unfold shortest
  split
  · next zero =>
    rw [isZero_iff.mp zero]
    simpa [Decimal.value] using Nearest.exact format.rankValue_strictMono 0
  · next nonzero =>
    exact nearest_of_holds
      (RoundingInterval.shortest_holds (interval_roomy (Bool.eq_false_iff.mpr nonzero) digits) tie)

end Floating

end TypedRecords
