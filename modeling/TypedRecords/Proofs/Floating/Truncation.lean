import Mathlib.Algebra.Order.Floor.Semifield
import Mathlib.Data.Rat.Floor
import TypedRecords.Proofs.Floating.Rounding

/-! The integer part of a value. It is the value with the bits below the point cleared, so that it
is a value itself and can be compared with the ends of a range without rounding. -/
namespace TypedRecords

def towardZero (q : ℚ) : Int := if 0 ≤ q then ⌊q⌋ else ⌈q⌉

theorem towardZero_natFloor {q : ℚ} (nonneg : 0 ≤ q) : towardZero q = ⌊q⌋₊ := by
  rw [towardZero, if_pos nonneg, Int.natCast_floor_eq_floor nonneg]

theorem towardZero_neg {q : ℚ} (nonneg : 0 ≤ q) : towardZero (-q) = -⌊q⌋₊ := by
  rcases nonneg.eq_or_lt with rfl | positive
  · simp [towardZero]
  · rw [towardZero, if_neg (by linarith), Int.ceil_neg, Int.natCast_floor_eq_floor nonneg]

@[simp] theorem towardZero_intCast (n : Int) : towardZero n = n := by
  simp [towardZero]

namespace Floating

variable {format : FloatFormat}

theorem truncate_of_nonneg {x : Floating format} (whole : 0 ≤ x.exponent) : x.truncate = x := by
  have none : (-x.exponent).toNat = 0 := by omega
  simp [truncate, none]

/-- Clearing bits of the fraction leaves the power and clears the same bits of the significand. -/
theorem truncate_magnitude {x : Floating format} {places : Nat}
    (point : (-x.exponent).toNat = places) (inside : places ≤ format.fractionBits) :
    x.truncate.magnitude.toNat = (x.exponentField - 1) * format.leadingBit +
      x.significand / 2 ^ places * 2 ^ places := by
  obtain ⟨bits, same⟩ := Nat.exists_eq_add_of_le inside
  have leading : format.leadingBit = 2 ^ bits * 2 ^ places := by
    rw [FloatFormat.leadingBit_eq, same, ← Nat.pow_add, Nat.add_comm]
  have bound : x.magnitude.toNat / 2 ^ places * 2 ^ places < 2 ^ format.width :=
    (Nat.div_mul_le_self _ _).trans_lt x.magnitude.isLt
  simp only [truncate, point, if_neg inside.not_gt, BitVec.toNat_shiftLeft,
    BitVec.toNat_ushiftRight, Nat.shiftRight_eq_div_pow, Nat.shiftLeft_eq, Nat.mod_eq_of_lt bound]
  rw [x.magnitude_eq.1, leading, ← Nat.mul_assoc, Nat.add_comm,
    Nat.add_mul_div_right _ _ (by positivity), Nat.add_mul, Nat.add_comm]

theorem absolute_truncate (x : Floating format) : x.truncate.absolute = ⌊x.absolute⌋₊ := by
  rcases Int.le_total 0 x.exponent with whole | parted
  · obtain ⟨power, same⟩ := Int.eq_ofNat_of_zero_le whole
    have natural : x.absolute = (x.significand * 2 ^ power : ℕ) := by
      simp [absolute, same]
    rw [truncate_of_nonneg whole, natural, Nat.floor_natCast]
  · obtain ⟨places, same⟩ := Int.eq_ofNat_of_zero_le (Int.neg_nonneg.mpr parted)
    have isExponent : x.exponent = -(places : ℤ) := by omega
    have point : (-x.exponent).toNat = places := by omega
    have floor : ⌊x.absolute⌋₊ = x.significand / 2 ^ places := by
      rw [absolute, isExponent, zpow_neg, zpow_natCast, ← div_eq_mul_inv]
      exact_mod_cast Nat.floor_div_eq_div (K := ℚ) x.significand (2 ^ places)
    rw [floor, absolute_eq_rankValue]
    rcases Nat.lt_or_ge format.fractionBits places with beyond | inside
    · -- the whole significand is below the point
      have small : x.significand < 2 ^ places := by
        refine x.significand_lt.trans_le ?_
        rw [FloatFormat.leadingBit_eq, ← Nat.pow_succ']
        exact Nat.pow_le_pow_right two_pos beyond
      simp [truncate, point, beyond, Nat.div_eq_of_lt small]
    · have cleared := Nat.div_mul_le_self x.significand (2 ^ places)
      have leading : 2 ^ places ∣ format.leadingBit := by
        rw [FloatFormat.leadingBit_eq]
        exact Nat.pow_dvd_pow 2 inside
      have normal := x.magnitude_eq.2.imp_right fun large =>
        (Nat.div_mul_cancel leading).symm.trans_le
          (Nat.mul_le_mul_right (2 ^ places) (Nat.div_le_div_right large))
      rw [truncate_magnitude point inside,
        format.rankValue_scaled (cleared.trans x.significand_lt.le) normal]
      have atPoint : format.leastExponent + (x.exponentField - 1 : Nat) = -(places : ℤ) :=
        isExponent
      rw [atPoint, zpow_neg, zpow_natCast, Nat.cast_mul, Nat.cast_pow, Nat.cast_two,
        mul_inv_cancel_right₀ (by positivity)]

theorem towardZero_toRat (x : Floating format) : towardZero x.toRat =
    if x.negative then -(⌊x.absolute⌋₊ : Int) else ⌊x.absolute⌋₊ := by
  unfold toRat
  split
  · exact towardZero_neg x.absolute_nonneg
  · exact towardZero_natFloor x.absolute_nonneg

theorem toRat_truncate (x : Floating format) : x.truncate.toRat = towardZero x.toRat := by
  have sign : x.truncate.negative = x.negative := by
    unfold truncate
    dsimp only
    split <;> rfl
  rw [towardZero_toRat, toRat, sign, absolute_truncate]
  split <;> simp

/-- A value that is an integer of the range becomes this integer. -/
theorem clampToInt_eq {x : Floating format} (finite : x.isFinite = true) {low high n : Int}
    (value : x.toRat = n) (above : low ≤ n) (below : n ≤ high) : x.clampToInt low high = n := by
  have floor : ⌊x.absolute⌋₊ = x.ratio.1 / x.ratio.2 := by
    rw [← x.ratio_div]
    exact Nat.floor_div_eq_div _ _
  have whole : (if x.negative then -((x.ratio.1 / x.ratio.2 : ℕ) : Int)
      else (x.ratio.1 / x.ratio.2 : ℕ)) = n := by
    rw [← floor, ← towardZero_toRat, value, towardZero_intCast]
  rw [clampToInt, isNaN_of_isFinite finite, finite]
  dsimp only
  rw [if_neg Bool.false_ne_true, if_pos rfl, whole, min_eq_left below, max_eq_right above]

/-- The bits of what is not finite are all above the point. -/
theorem truncate_of_not_finite [format.Standard] {x : Floating format}
    (notFinite : x.isFinite = false) : x.truncate = x := by
  refine truncate_of_nonneg ?_
  have above : format.infinity.toNat ≤ x.magnitude.toNat := by
    by_contra below
    exact Bool.false_ne_true (notFinite.symm.trans (isFinite_iff.mpr (by omega)))
  have field : 2 * format.greatestExponent - 1 ≤ x.exponentField := by
    rw [exponentField, Nat.le_div_iff_mul_le format.leadingBit_pos,
      ← FloatFormat.two_pow_exponentBits, ← FloatFormat.infinity_toNat]
    exact above
  have fits := (FloatFormat.Standard.fractionAbove :
    format.fractionBits ≤ format.greatestExponent)
  rw [exponent, FloatFormat.leastExponent]
  omega

@[simp] theorem isFinite_truncate [format.Standard] (x : Floating format) :
    x.truncate.isFinite = x.isFinite := by
  cases finite : x.isFinite with
  | false => rw [truncate_of_not_finite finite, finite]
  | true =>
    rw [isFinite_iff] at finite ⊢
    refine Nat.lt_of_le_of_lt ?_ finite
    rw [← format.rankValue_strictMono.le_iff_le, ← absolute_eq_rankValue, ← absolute_eq_rankValue,
      absolute_truncate]
    exact Nat.floor_le x.absolute_nonneg

end Floating

end TypedRecords
