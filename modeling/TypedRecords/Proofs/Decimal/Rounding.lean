import TypedRecords.Proofs.Floating.Rounding

/-! Decimals as numbers, and the values nearest to them. Decimals far outside a format are decided
by their order, with the same result as by rounding. -/
namespace TypedRecords

namespace Decimal

def value (d : Decimal) : ℚ := d.coefficient * 10 ^ d.exponent

theorem value_nonneg (d : Decimal) : 0 ≤ d.value := by
  rw [value]
  positivity

/-- The digits of a positive number tell its order. -/
theorem toDigits_bounds {n : Nat} (positive : 0 < n) :
    10 ^ ((Nat.toDigits 10 n).length - 1) ≤ n ∧ n < 10 ^ (Nat.toDigits 10 n).length := by
  have some : 0 < (Nat.toDigits 10 n).length := List.length_pos_iff.mpr Nat.toDigits_ne_nil
  constructor
  · rcases Nat.eq_zero_or_pos ((Nat.toDigits 10 n).length - 1) with one | more
    · rw [one]
      exact positive
    · by_contra below
      have fewer := (Nat.length_toDigits_le_iff (by decide) more).mpr (Nat.lt_of_not_le below)
      omega
  · exact (Nat.length_toDigits_le_iff (by decide) some).mp le_rfl

theorem value_bounds {d : Decimal} (positive : 0 < d.coefficient) :
    (10 : ℚ) ^ ((d.digits.length : ℤ) + d.exponent - 1) ≤ d.value ∧
      d.value < 10 ^ ((d.digits.length : ℤ) + d.exponent) := by
  obtain ⟨low, high⟩ := toDigits_bounds positive
  have some : 0 < d.digits.length := List.length_pos_iff.mpr Nat.toDigits_ne_nil
  have unit : (0 : ℚ) < 10 ^ d.exponent := by positivity
  have ten : (10 : ℚ) ≠ 0 := by norm_num
  constructor
  · have split :
        (d.digits.length : ℤ) + d.exponent - 1 = ((d.digits.length - 1 : ℕ) : ℤ) + d.exponent := by
      omega
    rw [split, zpow_add₀ ten, zpow_natCast, value]
    exact mul_le_mul_of_nonneg_right (by exact_mod_cast low) unit.le
  · rw [zpow_add₀ ten, zpow_natCast, value]
    exact mul_lt_mul_of_pos_right (by exact_mod_cast high) unit

end Decimal

theorem shiftDecimal_eq (n zeros : Nat) : shiftDecimal n zeros = n * 10 ^ zeros := rfl

/-- A decimal as a quotient of natural numbers. -/
theorem Decimal.shift_div (d : Decimal) : ((shiftDecimal d.coefficient d.exponent.toNat : ℕ) : ℚ) /
    (shiftDecimal 1 (-d.exponent).toNat : ℕ) = d.value := by
  rw [shiftDecimal_eq, shiftDecimal_eq, value, zpow_eq_div 10 d.exponent]
  push_cast
  rw [one_mul, mul_div_assoc]

theorem Decimal.exists_nearest (d : Decimal) (format : FloatFormat) [format.Standard] :
    ∃ rank, Nearest format.rankValue d.value rank :=
  ⟨_, d.shift_div ▸ FloatFormat.nearestRank_nearest _ (by simp [shiftDecimal_eq])⟩

namespace Floating

variable {format : FloatFormat} [format.Standard]

/-- A decimal below half of the least positive value is nearest to zero. -/
theorem nearest_zero_of_order {d : Decimal} (positive : 0 < d.coefficient)
    (small : (d.digits.length : ℤ) + d.exponent < format.leastExponent - 1) :
    Nearest format.rankValue d.value 0 := by
  have deep : format.leastExponent < 0 := by
    have := format.two_le_greatestExponent
    have := (FloatFormat.Standard.fractionBits : 0 < format.fractionBits)
    rw [FloatFormat.leastExponent]
    omega
  obtain ⟨places, same⟩ :=
    Int.eq_ofNat_of_zero_le (show 0 ≤ -((d.digits.length : ℤ) + d.exponent) by omega)
  have order : (d.digits.length : ℤ) + d.exponent = -(places : ℤ) := by omega
  have binary : (10 : ℚ) ^ (-(places : ℤ)) ≤ 2 ^ (-(places : ℤ)) := by
    rw [zpow_neg, zpow_neg, zpow_natCast, zpow_natCast]
    gcongr
    norm_num
  have one : format.rankValue 1 = 2 ^ format.leastExponent := by
    have leading := format.leadingBit_pos
    have := @FloatFormat.rankValue_scaled format 0 1 (by omega) (.inl rfl)
    simpa using this
  have half : (2 : ℚ) ^ (-(places : ℤ)) * 2 ≤ 2 ^ format.leastExponent := by
    rw [← zpow_add_one₀ two_ne_zero]
    exact zpow_le_zpow_right₀ one_le_two (by omega)
  have below := (d.value_bounds positive).2
  rw [order] at below
  have bound : 2 * d.value ≤ format.rankValue 0 + format.rankValue (0 + 1) := by
    rw [format.rankValue_zero, one]
    linarith
  exact ⟨fun m => by omega, bound, fun odd => by omega⟩

/-- A decimal beyond the finite values is nearest to what would come there. -/
theorem infinity_le_of_order {d : Decimal} (positive : 0 < d.coefficient)
    (large : (format.greatestExponent : ℤ) < (d.digits.length : ℤ) + d.exponent) {rank : Nat}
    (nearest : Nearest format.rankValue d.value rank) : format.infinity.toNat ≤ rank := by
  have beyond : format.rankValue format.infinity.toNat ≤ d.value := by
    rw [format.rankValue_infinity]
    calc (2 : ℚ) ^ (format.greatestExponent : ℤ) ≤ 10 ^ (format.greatestExponent : ℤ) := by
          rw [zpow_natCast, zpow_natCast]
          gcongr
          norm_num
      _ ≤ 10 ^ ((d.digits.length : ℤ) + d.exponent - 1) :=
          zpow_le_zpow_right₀ (by norm_num) (by omega)
      _ ≤ d.value := (d.value_bounds positive).1
  exact (Nearest.exact format.rankValue_strictMono _).mono format.rankValue_strictMono nearest
    beyond

/-- A decimal becomes the value nearest to it, with its sign. -/
theorem ofDecimal_nearest (negative : Bool) (d : Decimal) {rank : Nat}
    (nearest : Nearest format.rankValue d.value rank) :
    (ofDecimal negative d.coefficient d.exponent : Floating format).negative = negative ∧
      (ofDecimal negative d.coefficient d.exponent : Floating format).magnitude.toNat =
        min rank format.infinity.toNat := by
  have rounded {num den : Nat} (positive : 0 < den) {q : ℚ} (same : (num : ℚ) / den = q)
      (isNearest : Nearest format.rankValue q rank) :
      (ofRatio negative num den : Floating format).magnitude.toNat =
        min rank format.infinity.toNat := by
    have own := @FloatFormat.nearestRank_nearest format _ num den positive
    rw [same] at own
    rw [ofRatio_magnitude, own.unique format.rankValue_strictMono isNearest]
  unfold ofDecimal
  dsimp only
  split
  · next small =>
    refine ⟨rfl, ?_⟩
    have zero : Nearest format.rankValue 0 rank := by
      rcases Nat.eq_zero_or_pos d.coefficient with none | positive
      · simpa [Decimal.value, none] using nearest
      · have tiny := small.resolve_left positive.ne'
        have isZero := nearest_zero_of_order positive tiny
        rw [nearest.unique format.rankValue_strictMono isZero]
        simpa using Nearest.exact format.rankValue_strictMono 0
    exact rounded Nat.one_pos (by simp) zero
  · next notSmall =>
    have positive : 0 < d.coefficient := Nat.pos_of_ne_zero fun none => notSmall (.inl none)
    split
    · next large =>
      refine ⟨rfl, ?_⟩
      rw [Nat.min_eq_right (infinity_le_of_order positive large nearest)]
      rfl
    · exact ⟨rfl, rounded (by simp [shiftDecimal_eq]) d.shift_div nearest⟩

/-- A decimal whose nearest value is finite becomes this value. -/
theorem equal_ofDecimal {x : Floating format} (finite : x.isFinite = true) {d : Decimal}
    (nearest : Nearest format.rankValue d.value x.magnitude.toNat) :
    x.equal (ofDecimal x.negative d.coefficient d.exponent) = true := by
  obtain ⟨sign, magnitude⟩ := ofDecimal_nearest x.negative d nearest
  refine equal_of_magnitude finite ?_ fun _ => sign
  rw [magnitude, Nat.min_eq_left (isFinite_iff.mp finite).le]

end Floating

end TypedRecords
