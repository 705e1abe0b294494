import Mathlib.Tactic.FieldSimp
import TypedRecords.Proofs.Floating.Rank

/-! Rounding to the nearest value. A number lies between two midpoints, and this alone fixes the
value that it is rounded to, however it was found. -/
namespace TypedRecords

/-- Of the growing values the `n`th is nearest to the number. A midpoint belongs to the even one of
its neighbours. -/
structure Nearest (value : Nat → ℚ) (number : ℚ) (n : Nat) : Prop where
  below : ∀ m, m + 1 = n → value m + value n ≤ 2 * number
  above : 2 * number ≤ value n + value (n + 1)
  odd : n % 2 = 1 →
    (∀ m, m + 1 = n → value m + value n < 2 * number) ∧ 2 * number < value n + value (n + 1)

namespace Nearest

variable {value : Nat → ℚ}

theorem exact (grows : StrictMono value) (n : Nat) : Nearest value (value n) n := by
  have next := grows n.lt_succ_self
  have previous (m : Nat) (before : m + 1 = n) : value m < value n := grows (by omega)
  refine ⟨fun m before => ?_, by linarith, fun _ => ⟨fun m before => ?_, by linarith⟩⟩
  · linarith [previous m before]
  · linarith [previous m before]

/-- Rounding keeps the order. -/
theorem mono (grows : StrictMono value) {p q : ℚ} {m n : Nat} (left : Nearest value p m)
    (right : Nearest value q n) (ordered : p ≤ q) : m ≤ n := by
  by_contra crossed
  obtain ⟨k, rfl⟩ : ∃ k, m = k + 1 := ⟨m - 1, by omega⟩
  have lower := grows.monotone (show n ≤ k by omega)
  have upper := grows.monotone (show n + 1 ≤ k + 1 by omega)
  have fromLeft := left.below k rfl
  have fromRight := right.above
  -- both numbers are the one midpoint between neighbours, which belongs to one of these only
  have same : n = k := grows.injective (by linarith)
  subst same
  rcases Nat.mod_two_eq_zero_or_one n with even | odd
  · have := (left.odd (by omega)).1 n rfl
    linarith
  · have := (right.odd odd).2
    linarith

theorem unique (grows : StrictMono value) {q : ℚ} {m n : Nat} (left : Nearest value q m)
    (right : Nearest value q n) : m = n :=
  Nat.le_antisymm (left.mono grows right le_rfl) (right.mono grows left le_rfl)

theorem eq_of_exact (grows : StrictMono value) {m n : Nat} (nearest : Nearest value (value n) m) :
    m = n :=
  nearest.unique grows (exact grows n)

end Nearest

theorem zpow_eq_div (base : ℚ) (power : ℤ) :
    base ^ power = base ^ power.toNat / base ^ (-power).toNat := by
  rcases Int.le_total 0 power with up | down
  · obtain ⟨n, rfl⟩ := Int.eq_ofNat_of_zero_le up
    simp
  · obtain ⟨n, same⟩ := Int.eq_ofNat_of_zero_le (Int.neg_nonneg.mpr down)
    obtain rfl : power = -(n : ℤ) := by omega
    simp

theorem scaleDown_div (num den : Nat) (power : ℤ) :
    ((scaleDown num den power).1 : ℚ) / (scaleDown num den power).2 =
      (num : ℚ) / den / 2 ^ power := by
  simp [scaleDown, Nat.shiftLeft_eq, zpow_eq_div 2 power, div_div_div_eq]

theorem scaleDown_pos (num : Nat) {den : Nat} (positive : 0 < den) (power : ℤ) :
    0 < (scaleDown num den power).2 := by
  simp [scaleDown, Nat.shiftLeft_eq, positive]

theorem roundDiv_nearest (num : Nat) {den : Nat} (positive : 0 < den) :
    Nearest Nat.cast ((num : ℚ) / den) (roundDiv num den) := by
  have positive' : (0 : ℚ) < den := by exact_mod_cast positive
  have whole : (num : ℚ) = (num / den : ℕ) * den + (num % den : ℕ) := by
    exact_mod_cast (Nat.div_add_mod' num den).symm
  have split : (num : ℚ) / den = (num / den : ℕ) + ((num % den : ℕ) : ℚ) / den := by
    rw [div_eq_iff positive'.ne', add_mul, div_mul_cancel₀ _ positive'.ne']
    exact whole
  have rest : 0 ≤ ((num % den : ℕ) : ℚ) / den := by positivity
  have small : 2 * (num % den) < den ↔ 2 * (((num % den : ℕ) : ℚ) / den) < 1 := by
    rw [← mul_div_assoc, div_lt_one positive']
    exact_mod_cast Iff.rfl
  have half : 2 * (num % den) = den ↔ 2 * (((num % den : ℕ) : ℚ) / den) = 1 := by
    rw [← mul_div_assoc, div_eq_one_iff_eq positive'.ne']
    exact_mod_cast Iff.rfl
  have below : ((num % den : ℕ) : ℚ) / den < 1 := by
    rw [div_lt_one positive']
    exact_mod_cast Nat.mod_lt num positive
  rw [split]
  simp only [roundDiv, small, half]
  generalize num / den = floor at *
  generalize ((num % den : ℕ) : ℚ) / den = part at *
  clear whole split small half
  split
  · next down =>
    constructor
    · rintro m rfl
      push_cast
      linarith
    · push_cast
      rcases down with less | ⟨even, -⟩ <;> linarith
    · intro odd
      have less := down.resolve_right fun tie => by omega
      refine ⟨?_, by push_cast; linarith⟩
      rintro m rfl
      push_cast
      linarith
  · next up =>
    rw [not_or, not_lt, not_and] at up
    refine ⟨fun m same => ?_, by push_cast; linarith, fun odd => ⟨fun m same => ?_, ?_⟩⟩
    · obtain rfl : m = floor := by omega
      push_cast
      linarith [up.1]
    · obtain rfl : m = floor := by omega
      have strict : 2 * part ≠ 1 := fun tie => up.2 tie (by omega)
      push_cast
      linarith [lt_of_le_of_ne up.1 strict.symm]
    · push_cast
      linarith

theorem log2Div_spec {num den : Nat} (nonzero : num ≠ 0) (positive : 0 < den) :
    (2 : ℚ) ^ log2Div num den ≤ (num : ℚ) / den ∧
      (num : ℚ) / den < 2 ^ (log2Div num den + 1) := by
  have positive' : (0 : ℚ) < den := by exact_mod_cast positive
  have numLow : (2 : ℚ) ^ (num.log2 : ℤ) ≤ num := by exact_mod_cast Nat.log2_self_le nonzero
  have numHigh : (num : ℚ) < 2 ^ (num.log2 + 1 : ℤ) := by
    exact_mod_cast Nat.lt_log2_self
  have denLow : (2 : ℚ) ^ (den.log2 : ℤ) ≤ den := by exact_mod_cast Nat.log2_self_le positive.ne'
  have denHigh : (den : ℚ) < 2 ^ (den.log2 + 1 : ℤ) := by
    exact_mod_cast Nat.lt_log2_self
  have compared : (scaleDown num den (num.log2 - den.log2)).1 <
      (scaleDown num den (num.log2 - den.log2)).2 ↔
        (num : ℚ) / den < 2 ^ ((num.log2 : ℤ) - den.log2) := by
    have scaled : (0 : ℚ) < (scaleDown num den (num.log2 - den.log2)).2 := by
      exact_mod_cast scaleDown_pos num positive _
    rw [← div_lt_one (by positivity : (0 : ℚ) < 2 ^ ((num.log2 : ℤ) - den.log2)), ← scaleDown_div,
      div_lt_one scaled, Nat.cast_lt]
  have high : (num : ℚ) / den < 2 ^ ((num.log2 : ℤ) - den.log2 + 1) := by
    rw [div_lt_iff₀ positive']
    calc (num : ℚ) < 2 ^ (num.log2 + 1 : ℤ) := numHigh
      _ = 2 ^ ((num.log2 : ℤ) - den.log2 + 1) * 2 ^ (den.log2 : ℤ) := by
        rw [← zpow_add₀ two_ne_zero]
        congr 1
        ring
      _ ≤ 2 ^ ((num.log2 : ℤ) - den.log2 + 1) * den := by gcongr
  have low : (2 : ℚ) ^ ((num.log2 : ℤ) - den.log2 - 1) ≤ (num : ℚ) / den := by
    rw [le_div_iff₀ positive']
    calc (2 : ℚ) ^ ((num.log2 : ℤ) - den.log2 - 1) * den
        ≤ 2 ^ ((num.log2 : ℤ) - den.log2 - 1) * 2 ^ (den.log2 + 1 : ℤ) := by gcongr
      _ = 2 ^ (num.log2 : ℤ) := by
        rw [← zpow_add₀ two_ne_zero]
        congr 1
        ring
      _ ≤ num := numLow
  unfold log2Div
  dsimp only
  split
  · next under =>
    refine ⟨low, ?_⟩
    rw [sub_add_cancel]
    exact compared.mp under
  · next above => exact ⟨not_lt.mp fun under => above (compared.mpr under), high⟩

namespace FloatFormat

variable {format : FloatFormat}

section Scaled

variable {power multiple : Nat} {number : ℚ}

theorem multiple_le (nearest : Nearest Nat.cast number multiple)
    (high : number < 2 * format.leadingBit) : multiple ≤ 2 * format.leadingBit := by
  by_contra above
  obtain ⟨m, rfl⟩ : ∃ m, multiple = m + 1 := ⟨multiple - 1, by omega⟩
  have beyond : (2 * format.leadingBit : ℚ) ≤ m := by exact_mod_cast (by omega)
  have := nearest.below m rfl
  push_cast at this
  linarith

theorem leadingBit_le_multiple (nearest : Nearest Nat.cast number multiple)
    (least : (format.leadingBit : ℚ) ≤ number) : format.leadingBit ≤ multiple := by
  have above := nearest.above
  have : (2 * format.leadingBit : ℚ) ≤ (2 * multiple + 1 : ℕ) := by
    push_cast at above ⊢
    linarith
  have : 2 * format.leadingBit ≤ 2 * multiple + 1 := by exact_mod_cast this
  omega

/-- The next value is that of the next multiple, unless this one ends the power. Then the number
stays below both. -/
theorem rankValue_add_next (fits : multiple ≤ 2 * format.leadingBit)
    (normal : power = 0 ∨ format.leadingBit ≤ multiple) (high : number < 2 * format.leadingBit) :
    format.rankValue (power * format.leadingBit + multiple) +
        format.rankValue (power * format.leadingBit + multiple + 1) =
          (multiple + (multiple + 1 : ℕ)) * 2 ^ (format.leastExponent + power) ∨
      2 * (number * 2 ^ (format.leastExponent + power)) <
        format.rankValue (power * format.leadingBit + multiple) +
          format.rankValue (power * format.leadingBit + multiple + 1) := by
  have here := format.rankValue_scaled fits normal
  rcases Nat.lt_or_eq_of_le fits with within | full
  · left
    rw [here, add_assoc, format.rankValue_scaled within (normal.imp_right Nat.le_succ_of_le),
      add_mul]
  · right
    have step := format.rankValue_strictMono (power * format.leadingBit + multiple).lt_succ_self
    have unit : (0 : ℚ) < 2 ^ (format.leastExponent + power) := by positivity
    have bound := mul_lt_mul_of_pos_right high unit
    rw [here] at step ⊢
    rw [full] at step ⊢
    push_cast at step ⊢
    linarith

/-- The value before is that of the multiple before, unless this one begins the power. Then it is
even, and the number is not below both. -/
theorem rankValue_add_previous [format.Standard] (fits : multiple ≤ 2 * format.leadingBit)
    (normal : power = 0 ∨ format.leadingBit ≤ multiple)
    (low : power = 0 ∨ (format.leadingBit : ℚ) ≤ number) {m : Nat}
    (before : m + 1 = power * format.leadingBit + multiple) :
    (∃ k, k + 1 = multiple ∧
      format.rankValue m + format.rankValue (power * format.leadingBit + multiple) =
        (k + multiple) * 2 ^ (format.leastExponent + power)) ∨
    multiple % 2 = 0 ∧
      format.rankValue m + format.rankValue (power * format.leadingBit + multiple) ≤
        2 * (number * 2 ^ (format.leastExponent + power)) := by
  have here := format.rankValue_scaled fits normal
  by_cases inside : power = 0 ∨ format.leadingBit < multiple
  · left
    obtain ⟨k, rfl⟩ : ∃ k, multiple = k + 1 := by
      refine Nat.exists_eq_add_one_of_ne_zero ?_
      rintro rfl
      rcases inside with rfl | positive <;> omega
    obtain rfl : m = power * format.leadingBit + k := by omega
    refine ⟨k, rfl, ?_⟩
    rw [here, format.rankValue_scaled (by omega) (inside.imp_right Nat.lt_succ_iff.mp), add_mul]
  · right
    rw [not_or, not_lt] at inside
    obtain rfl := Nat.le_antisymm inside.2 (normal.resolve_left inside.1)
    refine ⟨format.leadingBit_even, ?_⟩
    have step := format.rankValue_strictMono
      (show m < power * format.leadingBit + format.leadingBit by omega)
    have unit : (0 : ℚ) < 2 ^ (format.leastExponent + power) := by positivity
    have bound := mul_le_mul_of_nonneg_right (low.resolve_left inside.1) unit.le
    rw [here] at step ⊢
    linarith

/-- A multiple that is nearest on the grid of one power is the nearest value of all. The number is
not above the next power of two and, unless the power is the least, not below this one. -/
theorem nearest_scaled [format.Standard] (nearest : Nearest Nat.cast number multiple)
    (high : number < 2 * format.leadingBit)
    (low : power = 0 ∨ (format.leadingBit : ℚ) ≤ number) :
    Nearest format.rankValue (number * 2 ^ (format.leastExponent + power))
      (power * format.leadingBit + multiple) := by
  have fits := multiple_le nearest high
  have normal := low.imp_right (leadingBit_le_multiple nearest)
  have next := rankValue_add_next fits normal high
  have parity : (power * format.leadingBit + multiple) % 2 = multiple % 2 := by
    rw [Nat.add_mod, Nat.mul_mod, format.leadingBit_even, Nat.mul_zero, Nat.zero_mod,
      Nat.zero_add, Nat.mod_mod]
  have unit : (0 : ℚ) < 2 ^ (format.leastExponent + power) := by positivity
  refine ⟨fun m before => ?_, ?_, fun odd => ⟨fun m before => ?_, ?_⟩⟩
  · rcases rankValue_add_previous fits normal low before with ⟨k, same, sum⟩ | ⟨-, bound⟩
    · rw [sum, ← mul_assoc]
      exact mul_le_mul_of_nonneg_right (nearest.below k same) unit.le
    · exact bound
  · rcases next with sum | bound
    · rw [sum, ← mul_assoc]
      exact mul_le_mul_of_nonneg_right nearest.above unit.le
    · exact bound.le
  · rcases rankValue_add_previous fits normal low before with ⟨k, same, sum⟩ | ⟨tie, -⟩
    · rw [sum, ← mul_assoc]
      exact mul_lt_mul_of_pos_right ((nearest.odd (parity ▸ odd)).1 k same) unit
    · omega
  · rcases next with sum | bound
    · rw [sum, ← mul_assoc]
      exact mul_lt_mul_of_pos_right (nearest.odd (parity ▸ odd)).2 unit
    · exact bound

end Scaled

variable [format.Standard]

theorem nearestRank_nearest (num : Nat) {den : Nat} (positive : 0 < den) :
    Nearest format.rankValue ((num : ℚ) / den) (format.nearestRank num den) := by
  rcases Nat.eq_zero_or_pos num with rfl | nonzero
  · have exact := Nearest.exact format.rankValue_strictMono 0
    simpa [nearestRank] using exact
  · obtain ⟨low, high⟩ := log2Div_spec nonzero.ne' positive
    unfold nearestRank
    rw [if_neg nonzero.ne']
    dsimp only
    generalize hpower : max format.leastExponent (log2Div num den - format.fractionBits) = power
    obtain ⟨above, same⟩ := Int.eq_ofNat_of_zero_le (show 0 ≤ power - format.leastExponent by omega)
    obtain rfl : power = format.leastExponent + above := by omega
    have unit : (0 : ℚ) < 2 ^ (format.leastExponent + above) := by positivity
    have leading (p : ℤ) : (2 : ℚ) ^ (format.fractionBits + p) = format.leadingBit * 2 ^ p := by
      rw [zpow_add₀ two_ne_zero, leadingBit_eq, zpow_natCast, Nat.cast_pow, Nat.cast_two]
    have scaled := roundDiv_nearest (scaleDown num den (format.leastExponent + above)).1
      (scaleDown_pos num positive (format.leastExponent + above))
    rw [scaleDown_div] at scaled
    have below : (num : ℚ) / den / 2 ^ (format.leastExponent + above) < 2 * format.leadingBit := by
      rw [div_lt_iff₀ unit, mul_assoc, ← leading, mul_comm, ← zpow_add_one₀ two_ne_zero]
      exact high.trans_le (zpow_le_zpow_right₀ one_le_two (by omega))
    have normal : above = 0 ∨
        (format.leadingBit : ℚ) ≤ (num : ℚ) / den / 2 ^ (format.leastExponent + above) := by
      refine (Nat.eq_zero_or_pos above).imp_right fun positive => ?_
      rw [le_div_iff₀ unit, ← leading]
      exact (zpow_le_zpow_right₀ one_le_two (by omega)).trans low
    have nearest := nearest_scaled scaled below normal
    rw [div_mul_cancel₀ _ unit.ne'] at nearest
    simpa using nearest

end FloatFormat

namespace Floating

variable {format other : FloatFormat}

theorem ofRatio_magnitude (negative : Bool) (num den : Nat) :
    (ofRatio negative num den : Floating format).magnitude.toNat =
      min (format.nearestRank num den) format.infinity.toNat := by
  have bound := format.infinity.isLt
  rw [ofRatio, BitVec.toNat_ofNat, Nat.mod_eq_of_lt (by omega)]

theorem ratio_pos (x : Floating format) : 0 < x.ratio.2 := scaleDown_pos _ Nat.one_pos _

theorem ratio_div (x : Floating format) : (x.ratio.1 : ℚ) / x.ratio.2 = x.absolute := by
  rw [ratio, scaleDown_div, absolute, zpow_neg, div_inv_eq_mul, Nat.cast_one, div_one]

theorem convert_of_isFinite {x : Floating format} (finite : x.isFinite = true) :
    (x.convert : Floating other) = ofRatio x.negative x.ratio.1 x.ratio.2 := by
  simp [convert, isNaN_of_isFinite finite, finite]

theorem equal_of_magnitude {x y : Floating format} (finite : x.isFinite = true)
    (magnitude : y.magnitude.toNat = x.magnitude.toNat)
    (sign : x.magnitude.toNat ≠ 0 → y.negative = x.negative) : x.equal y = true := by
  have same : y.magnitude = x.magnitude := BitVec.eq_of_toNat_eq magnitude
  have number := isNaN_of_isFinite finite
  have number' : y.isNaN = false := by
    rw [← number, isNaN, isNaN, same]
  rw [equal, number, number']
  rcases eq_or_ne x.magnitude.toNat 0 with zero | nonzero
  · simp [isZero_iff.mpr zero, isZero_iff.mpr (magnitude.trans zero)]
  · have isSame : x = y := by
      cases x
      cases y
      simp_all
    simp [isSame]

theorem magnitude_of_equal {x y : Floating format} (equal : x.equal y = true) :
    y.magnitude = x.magnitude := by
  simp only [Floating.equal, isZero, Bool.and_eq_true, Bool.or_eq_true, beq_iff_eq] at equal
  rcases equal.2 with rfl | ⟨left, right⟩
  · rfl
  · rw [left, right]

theorem rank_of_equal {x y : Floating format} (equal : x.equal y = true) : y.rank = x.rank := by
  have magnitude := magnitude_of_equal equal
  simp only [Floating.equal, isZero, Bool.and_eq_true, Bool.or_eq_true, beq_iff_eq] at equal
  rcases equal.2 with rfl | ⟨zero, -⟩
  · rfl
  · simp [rank, magnitude, zero]

variable [format.Standard]

/-- A quotient is rounded to a value exactly if this is the nearest one. -/
theorem equal_ofRatio_iff {x : Floating format} (finite : x.isFinite = true) {negative : Bool}
    {num den : Nat} (positive : 0 < den) (sign : num ≠ 0 → negative = x.negative) :
    x.equal (ofRatio negative num den) = true ↔
      Nearest format.rankValue ((num : ℚ) / den) x.magnitude.toNat := by
  have grows := format.rankValue_strictMono
  have rounded := @FloatFormat.nearestRank_nearest format _ num den positive
  have inRange := isFinite_iff.mp finite
  constructor
  · intro equal
    have magnitude := congrArg BitVec.toNat (magnitude_of_equal equal)
    rw [ofRatio_magnitude] at magnitude
    have same : format.nearestRank num den = x.magnitude.toNat := by omega
    exact same ▸ rounded
  · intro nearest
    have same := rounded.unique grows nearest
    refine equal_of_magnitude finite ?_ fun nonzero => sign fun zero => nonzero ?_
    · rw [ofRatio_magnitude, same, Nat.min_eq_left inRange.le]
    · rw [zero, Nat.cast_zero, zero_div, ← format.rankValue_zero] at nearest
      exact nearest.eq_of_exact grows

theorem equal_convert_iff {x : Floating format} {z : Floating other} (finite : x.isFinite = true)
    (isFinite : z.isFinite = true) (sign : z.negative = x.negative) :
    x.equal z.convert = true ↔ Nearest format.rankValue z.absolute x.magnitude.toNat := by
  rw [convert_of_isFinite isFinite, equal_ofRatio_iff finite z.ratio_pos fun _ => sign, z.ratio_div]

theorem equal_ofInt {x : Floating format} (finite : x.isFinite = true) {n : Int} {q : ℚ}
    (nonneg : 0 ≤ q) (nearest : Nearest format.rankValue q x.magnitude.toNat)
    (value : (n : ℚ) = if x.negative then -q else q) : x.equal (ofInt n) = true := by
  have size : ((n.natAbs : ℕ) : ℚ) = q := by
    rw [Nat.cast_natAbs, Int.cast_abs, value]
    split
    · rw [abs_neg, abs_of_nonneg nonneg]
    · rw [abs_of_nonneg nonneg]
  refine (equal_ofRatio_iff finite Nat.one_pos fun nonzero => ?_).mpr
    (by simpa [size] using nearest)
  have some : q ≠ 0 := fun none => nonzero (by exact_mod_cast size.trans none)
  have positive : 0 < q := lt_of_le_of_ne nonneg some.symm
  cases sign : x.negative with
  | true =>
    rw [sign, if_pos rfl] at value
    refine decide_eq_true ?_
    have : (n : ℚ) < 0 := by linarith
    exact_mod_cast this
  | false =>
    rw [sign, if_neg Bool.false_ne_true] at value
    refine decide_eq_false (not_lt.mpr ?_)
    have : (0 : ℚ) ≤ n := by linarith
    exact_mod_cast this

variable [other.Standard]

/-- A format with all the bits of another one has all of its values. -/
theorem convert_exact (fraction : format.fractionBits ≤ other.fractionBits)
    (least : other.leastExponent ≤ format.leastExponent)
    (greatest : format.greatestExponent ≤ other.greatestExponent) {x : Floating format}
    (finite : x.isFinite = true) :
    (x.convert : Floating other).isFinite = true ∧
      (x.convert : Floating other).toRat = x.toRat := by
  obtain ⟨below, same⟩ := Int.eq_ofNat_of_zero_le (Int.sub_nonneg.mpr least)
  have fits : x.significand < 2 * other.leadingBit := by
    have small := x.significand_lt
    have wider : format.leadingBit ≤ other.leadingBit := by
      rw [FloatFormat.leadingBit_eq, FloatFormat.leadingBit_eq]
      exact Nat.pow_le_pow_right two_pos fraction
    omega
  obtain ⟨rank, isRank⟩ := other.exists_rank fits (below + (x.exponentField - 1))
  have value : other.rankValue rank = x.absolute := by
    rw [isRank, absolute, exponent]
    congr 2
    push_cast
    omega
  have inRange : rank < other.infinity.toNat := by
    rw [← other.rankValue_strictMono.lt_iff_lt, value, other.rankValue_infinity]
    exact (absolute_lt_of_isFinite finite).trans_le
      (zpow_le_zpow_right₀ one_le_two (by exact_mod_cast greatest))
  have magnitude : (x.convert : Floating other).magnitude.toNat = rank := by
    have nearest := @FloatFormat.nearestRank_nearest other _ x.ratio.1 _ x.ratio_pos
    rw [ratio_div, ← value] at nearest
    rw [convert_of_isFinite finite, ofRatio_magnitude,
      nearest.eq_of_exact other.rankValue_strictMono, Nat.min_eq_left inRange.le]
  have sign : (x.convert : Floating other).negative = x.negative := by
    rw [convert_of_isFinite finite]
    rfl
  refine ⟨isFinite_iff.mpr (magnitude ▸ inRange), ?_⟩
  rw [toRat, toRat, sign, absolute_eq_rankValue, magnitude, value]

end Floating

end TypedRecords
