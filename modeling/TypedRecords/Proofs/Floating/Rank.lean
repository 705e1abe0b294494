import Mathlib.Algebra.Order.Field.Power
import Mathlib.Data.Rat.Cast.Order
import Mathlib.Order.Monotone.Basic
import Mathlib.Tactic.Linarith
import Mathlib.Tactic.Positivity
import Mathlib.Tactic.Ring
import TypedRecords.Floating.Rounding

/-! The numbers that floating point values stand for. Among values of one sign they grow with the
rank, by the same step from one power of two to the next. -/
namespace TypedRecords

namespace FloatFormat

/-- A format with bits for the exponent and for the fraction. A fraction of this length can stand
above the point. -/
class Standard (format : FloatFormat) : Prop where
  exponentBits : 2 ≤ format.exponentBits
  fractionBits : 0 < format.fractionBits
  fractionAbove : format.fractionBits ≤ format.greatestExponent

instance : single.Standard := ⟨by decide, by decide, by decide⟩

instance : double.Standard := ⟨by decide, by decide, by decide⟩

variable (format : FloatFormat)

/-- The number of a rank, as if exponents had no end. -/
def rankValue (rank : Nat) : ℚ :=
  let field := rank / format.leadingBit
  let fraction := rank % format.leadingBit
  ((if field = 0 then fraction else format.leadingBit + fraction : Nat) : ℚ) *
    2 ^ (format.leastExponent + (field - 1 : Nat))

theorem leadingBit_eq : format.leadingBit = 2 ^ format.fractionBits := Nat.one_shiftLeft _

theorem leadingBit_pos : 0 < format.leadingBit := by
  rw [leadingBit_eq]
  positivity

theorem leadingBit_even [format.Standard] : format.leadingBit % 2 = 0 := by
  obtain ⟨bits, same⟩ := Nat.exists_eq_add_of_lt (Standard.fractionBits : 0 < format.fractionBits)
  rw [leadingBit_eq, same, Nat.pow_succ]
  omega

/-- A multiple of a power of two by its rank. The multiple may be one step beyond those with the
same leading bit, where the next power of two begins. -/
theorem rankValue_scaled {power multiple : Nat} (fits : multiple ≤ 2 * format.leadingBit)
    (normal : power = 0 ∨ format.leadingBit ≤ multiple) :
    format.rankValue (power * format.leadingBit + multiple) =
      multiple * 2 ^ (format.leastExponent + power) := by
  have positive := format.leadingBit_pos
  rcases Nat.lt_or_ge multiple format.leadingBit with small | large
  · -- the values below all with a leading bit
    obtain rfl : power = 0 := normal.resolve_right (by omega)
    simp [rankValue, Nat.div_eq_of_lt small, Nat.mod_eq_of_lt small]
  · obtain ⟨fraction, rfl⟩ := Nat.exists_eq_add_of_le large
    rcases Nat.lt_or_ge fraction format.leadingBit with within | full
    · have split : power * format.leadingBit + (format.leadingBit + fraction) =
          fraction + format.leadingBit * (power + 1) := by ring
      simp [rankValue, split, Nat.add_mul_div_left _ _ positive, Nat.div_eq_of_lt within,
        Nat.mod_eq_of_lt within]
    · obtain rfl : fraction = format.leadingBit := by omega
      have split : power * format.leadingBit + (format.leadingBit + format.leadingBit) =
          format.leadingBit * (power + 2) := by ring
      have carry : (2 : ℚ) ^ (format.leastExponent + (power + 1 : ℕ)) =
          2 * 2 ^ (format.leastExponent + (power : ℕ)) := by
        rw [Nat.cast_succ, ← add_assoc, zpow_add_one₀ two_ne_zero, mul_comm]
      simp only [rankValue, split, Nat.mul_div_cancel_left _ positive, Nat.mul_mod_right,
        Nat.add_one_sub_one, if_neg (Nat.succ_ne_zero (power + 1)), carry]
      push_cast
      ring

/-- Every rank is that of a multiple with a leading bit, or of one of the least power. -/
theorem exists_scaled (rank : Nat) : ∃ power multiple, rank = power * format.leadingBit + multiple ∧
    multiple < 2 * format.leadingBit ∧ (power = 0 ∨ format.leadingBit ≤ multiple) := by
  have positive := format.leadingBit_pos
  have split := Nat.div_add_mod' rank format.leadingBit
  have below := Nat.mod_lt rank positive
  cases field : rank / format.leadingBit with
  | zero =>
    exact ⟨0, rank % format.leadingBit, by simpa [field] using split.symm, by omega, .inl rfl⟩
  | succ power =>
    refine ⟨power, format.leadingBit + rank % format.leadingBit, ?_, by omega, .inr (by omega)⟩
    rw [field, Nat.succ_mul] at split
    omega

theorem rankValue_strictMono : StrictMono format.rankValue := by
  refine strictMono_nat_of_lt_succ fun rank => ?_
  obtain ⟨power, multiple, rfl, below, normal⟩ := format.exists_scaled rank
  rw [add_assoc, format.rankValue_scaled below.le normal,
    format.rankValue_scaled below (normal.imp_right Nat.le_succ_of_le)]
  have unit : (0 : ℚ) < 2 ^ (format.leastExponent + power) := by positivity
  exact mul_lt_mul_of_pos_right (by exact_mod_cast multiple.lt_succ_self) unit

@[simp] theorem rankValue_zero : format.rankValue 0 = 0 := by
  simp [rankValue]

theorem rankValue_nonneg (rank : Nat) : 0 ≤ format.rankValue rank := by
  rw [← format.rankValue_zero]
  exact format.rankValue_strictMono.monotone rank.zero_le

/-- A number with few enough bits, none of them below the least power, has a rank. -/
theorem exists_rank {multiple : Nat} (fits : multiple < 2 * format.leadingBit) (power : Nat) :
    ∃ rank, format.rankValue rank = multiple * 2 ^ (format.leastExponent + power) := by
  induction power generalizing multiple with
  | zero => exact ⟨_, format.rankValue_scaled fits.le (.inl rfl)⟩
  | succ power ih =>
    rcases Nat.lt_or_ge multiple format.leadingBit with small | large
    · -- twice the multiple has a rank at the power below
      have double : 2 * multiple < 2 * format.leadingBit := by omega
      obtain ⟨rank, isRank⟩ := ih double
      refine ⟨rank, isRank.trans ?_⟩
      rw [Nat.cast_succ, ← add_assoc, zpow_add_one₀ two_ne_zero]
      push_cast
      ring
    · exact ⟨_, format.rankValue_scaled fits.le (.inr large)⟩

theorem infinity_toNat :
    format.infinity.toNat = (2 ^ format.exponentBits - 1) * format.leadingBit := by
  simp [infinity, leadingBit_eq, BitVec.toNat_append, Nat.shiftLeft_eq]

theorem two_pow_exponentBits [format.Standard] :
    2 ^ format.exponentBits = 2 * format.greatestExponent := by
  have some := (Standard.exponentBits : 2 ≤ format.exponentBits)
  rw [greatestExponent, Nat.one_shiftLeft, ← Nat.pow_succ']
  congr 1
  omega

theorem two_le_greatestExponent [format.Standard] : 2 ≤ format.greatestExponent := by
  have some := (Standard.exponentBits : 2 ≤ format.exponentBits)
  rw [greatestExponent, Nat.one_shiftLeft]
  exact Nat.le_self_pow (by omega) 2

/-- Infinity stands where the power of two would come that bounds the finite values. -/
theorem rankValue_infinity [format.Standard] :
    format.rankValue format.infinity.toNat = 2 ^ (format.greatestExponent : ℤ) := by
  have least := format.two_le_greatestExponent
  have split : format.infinity.toNat =
      (2 * format.greatestExponent - 2) * format.leadingBit + format.leadingBit := by
    rw [infinity_toNat, two_pow_exponentBits, ← Nat.succ_mul]
    congr 1
    omega
  rw [split, format.rankValue_scaled (by omega) (.inr le_rfl), leadingBit_eq, Nat.cast_pow,
    Nat.cast_two, ← zpow_natCast, ← zpow_add₀ two_ne_zero, leastExponent]
  congr 1
  omega

end FloatFormat

namespace Floating

variable {format : FloatFormat}

def absolute (x : Floating format) : ℚ := x.significand * 2 ^ x.exponent

def toRat (x : Floating format) : ℚ := if x.negative then -x.absolute else x.absolute

theorem absolute_eq_rankValue (x : Floating format) :
    x.absolute = format.rankValue x.magnitude.toNat := rfl

theorem absolute_nonneg (x : Floating format) : 0 ≤ x.absolute := by
  rw [absolute_eq_rankValue]
  exact format.rankValue_nonneg _

theorem significand_lt (x : Floating format) : x.significand < 2 * format.leadingBit := by
  have below := Nat.mod_lt x.magnitude.toNat format.leadingBit_pos
  unfold significand fraction
  split <;> omega

/-- The significand is the multiple of the rank at its power. -/
theorem magnitude_eq (x : Floating format) :
    x.magnitude.toNat = (x.exponentField - 1) * format.leadingBit + x.significand ∧
      (x.exponentField - 1 = 0 ∨ format.leadingBit ≤ x.significand) := by
  have split : x.exponentField * format.leadingBit + x.fraction = x.magnitude.toNat :=
    Nat.div_add_mod' _ _
  unfold significand
  cases field : x.exponentField with
  | zero => simp [field] at split ⊢; omega
  | succ power =>
    rw [field, Nat.succ_mul] at split
    rw [if_neg (Nat.succ_ne_zero power), Nat.add_one_sub_one]
    omega

theorem isFinite_iff {x : Floating format} :
    x.isFinite = true ↔ x.magnitude.toNat < format.infinity.toNat := by
  simp [isFinite, BitVec.lt_def]

theorem isNaN_iff {x : Floating format} :
    x.isNaN = true ↔ format.infinity.toNat < x.magnitude.toNat := by
  simp [isNaN, BitVec.lt_def]

theorem isNaN_of_isFinite {x : Floating format} (finite : x.isFinite = true) : x.isNaN = false := by
  rw [isFinite_iff] at finite
  rw [Bool.eq_false_iff, Ne, isNaN_iff]
  omega

theorem isZero_iff {x : Floating format} : x.isZero = true ↔ x.magnitude.toNat = 0 := by
  simp [isZero, BitVec.toNat_eq]

theorem absolute_lt_of_isFinite [format.Standard] {x : Floating format}
    (finite : x.isFinite = true) :
    x.absolute < 2 ^ (format.greatestExponent : ℤ) := by
  rw [absolute_eq_rankValue, ← format.rankValue_infinity]
  exact format.rankValue_strictMono (isFinite_iff.mp finite)

/-- The order of the ranks with their signs is that of the numbers. -/
theorem rank_lt_iff (x y : Floating format) : x.rank < y.rank ↔ x.toRat < y.toRat := by
  have zero := format.rankValue_zero
  have mono (a b : Nat) : a < b ↔ format.rankValue a < format.rankValue b :=
    format.rankValue_strictMono.lt_iff_lt.symm
  simp only [rank, toRat, absolute_eq_rankValue]
  cases x.negative <;> cases y.negative
  · simp only [Bool.false_eq_true, if_false, Nat.cast_lt, mono]
  · have left := format.rankValue_nonneg x.magnitude.toNat
    have right := format.rankValue_nonneg y.magnitude.toNat
    simp only [Bool.false_eq_true, if_false, if_true]
    exact ⟨fun below => by omega, fun below => by linarith⟩
  · simp only [Bool.false_eq_true, if_false, if_true]
    constructor
    · intro below
      rcases Nat.eq_zero_or_pos x.magnitude.toNat with none | some
      · have := (mono 0 y.magnitude.toNat).mp (by omega)
        rw [none]
        linarith
      · have := (mono 0 x.magnitude.toNat).mp some
        have := format.rankValue_nonneg y.magnitude.toNat
        linarith
    · intro below
      by_contra above
      have left : x.magnitude.toNat = 0 := by omega
      have right : y.magnitude.toNat = 0 := by omega
      rw [left, right, zero] at below
      simp at below
  · simp only [if_true, neg_lt_neg_iff, Nat.cast_lt, mono]

theorem rank_le_iff (x y : Floating format) : x.rank ≤ y.rank ↔ x.toRat ≤ y.toRat := by
  rw [← not_lt, rank_lt_iff, not_lt]

theorem le_of_lt {x y : Floating format} (below : x.lt y = true) : x.le y = true := by
  simp only [lt, le, Bool.and_eq_true, decide_eq_true_eq] at below ⊢
  exact ⟨below.1, below.2.le⟩

/-- Nothing else lies between finite values. -/
theorem isFinite_of_between {low x high : Floating format} (lowFinite : low.isFinite = true)
    (highFinite : high.isFinite = true) (above : low.le x = true) (below : x.le high = true) :
    x.isFinite = true := by
  rw [isFinite_iff] at *
  simp only [le, Bool.and_eq_true, decide_eq_true_eq] at above below
  obtain ⟨-, above⟩ := above
  obtain ⟨-, below⟩ := below
  unfold rank at above below
  cases sign : x.negative <;> simp only [sign, Bool.false_eq_true, if_false, if_true] at above below
  · split at below <;> omega
  · split at above <;> omega

theorem lt_iff {x y : Floating format} (left : x.isFinite = true) (right : y.isFinite = true) :
    x.lt y = true ↔ x.toRat < y.toRat := by
  simp [lt, isNaN_of_isFinite left, isNaN_of_isFinite right, rank_lt_iff]

theorem le_iff {x y : Floating format} (left : x.isFinite = true) (right : y.isFinite = true) :
    x.le y = true ↔ x.toRat ≤ y.toRat := by
  simp [le, isNaN_of_isFinite left, isNaN_of_isFinite right, rank_le_iff]

end Floating

end TypedRecords
