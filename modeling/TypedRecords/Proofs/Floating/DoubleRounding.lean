import TypedRecords.Proofs.Floating.Rounding

/-! Rounding to a wide format first and from there to a narrow one. The midpoints of the narrow
format are values of the wide one, so that the first step crosses none of them. It can end on one,
and then the second step does not know from which side. -/
namespace TypedRecords

namespace FloatFormat

/-- Halfway between the value of a rank and that of one of its neighbours. -/
def Halfway (format : FloatFormat) (rank : Nat) (q : ℚ) : Prop :=
  ∃ m, (m = rank ∨ m + 1 = rank) ∧ 2 * q = format.rankValue m + format.rankValue (m + 1)

variable {format wide : FloatFormat}

/-- One bit more at both ends is enough for the midpoints. -/
theorem exists_midpoint (fraction : format.fractionBits < wide.fractionBits)
    (least : wide.leastExponent < format.leastExponent) (rank : Nat) :
    ∃ r, 2 * wide.rankValue r = format.rankValue rank + format.rankValue (rank + 1) := by
  obtain ⟨power, multiple, rfl, bound, normal⟩ := format.exists_scaled rank
  obtain ⟨below, same⟩ := Int.eq_ofNat_of_zero_le
    (show 0 ≤ format.leastExponent - 1 - wide.leastExponent by omega)
  have wider : 2 * format.leadingBit ≤ wide.leadingBit := by
    rw [leadingBit_eq, leadingBit_eq, ← Nat.pow_succ']
    exact Nat.pow_le_pow_right two_pos fraction
  obtain ⟨r, isRank⟩ := wide.exists_rank (show 2 * multiple + 1 < 2 * wide.leadingBit by omega)
    (below + power)
  refine ⟨r, ?_⟩
  have half : (2 : ℚ) ^ (format.leastExponent + power) =
      2 * 2 ^ (wide.leastExponent + (below + power : ℕ)) := by
    rw [← zpow_one_add₀ two_ne_zero]
    congr 1
    push_cast
    omega
  rw [isRank, Nat.add_assoc, format.rankValue_scaled bound.le normal,
    format.rankValue_scaled bound (normal.imp_right Nat.le_succ_of_le), half]
  push_cast
  ring

section Twice

variable (fraction : format.fractionBits < wide.fractionBits)
  (least : wide.leastExponent < format.leastExponent) {q : ℚ} {n w : Nat}
  (nearest : Nearest format.rankValue q n) (first : Nearest wide.rankValue q w)

include fraction least nearest first

/-- The first step stays between the midpoints. -/
theorem between_midpoints :
    (∀ m, m + 1 = n → format.rankValue m + format.rankValue n ≤ 2 * wide.rankValue w) ∧
      2 * wide.rankValue w ≤ format.rankValue n + format.rankValue (n + 1) := by
  have grows := wide.rankValue_strictMono
  constructor
  · rintro m rfl
    obtain ⟨r, isMidpoint⟩ := exists_midpoint fraction least m
    have below := (Nearest.exact grows r).mono grows first (by linarith [nearest.below m rfl])
    linarith [grows.monotone below]
  · obtain ⟨r, isMidpoint⟩ := exists_midpoint fraction least n
    have above := first.mono grows (Nearest.exact grows r) (by linarith [nearest.above])
    linarith [grows.monotone above]

/-- The first step of what is rounded to a finite value is finite. -/
theorem first_lt_infinity [format.Standard] [wide.Standard]
    (greatest : format.greatestExponent ≤ wide.greatestExponent)
    (finite : n < format.infinity.toNat) : w < wide.infinity.toNat := by
  obtain ⟨-, above⟩ := between_midpoints fraction least nearest first
  have next := format.rankValue_strictMono n.lt_succ_self
  have last : format.rankValue (n + 1) ≤ wide.rankValue wide.infinity.toNat :=
    calc format.rankValue (n + 1) ≤ format.rankValue format.infinity.toNat :=
          format.rankValue_strictMono.monotone finite
      _ = 2 ^ (format.greatestExponent : ℤ) := format.rankValue_infinity
      _ ≤ 2 ^ (wide.greatestExponent : ℤ) :=
          zpow_le_zpow_right₀ one_le_two (by exact_mod_cast greatest)
      _ = wide.rankValue wide.infinity.toNat := wide.rankValue_infinity.symm
  rw [← wide.rankValue_strictMono.lt_iff_lt]
  linarith

/-- Two steps give the nearest value, unless this is an odd one and the first step ends halfway to a
neighbour. -/
theorem nearest_twice_iff : Nearest format.rankValue (wide.rankValue w) n ↔
    ¬(n % 2 = 1 ∧ format.Halfway n (wide.rankValue w)) := by
  obtain ⟨below, above⟩ := between_midpoints fraction least nearest first
  constructor
  · rintro second ⟨odd, m, rfl | before, halfway⟩
    · linarith [(second.odd odd).2]
    · have := (second.odd odd).1 m before
      rw [before] at halfway
      linarith
  · intro regular
    refine ⟨below, above, fun odd => ⟨fun m before => ?_, ?_⟩⟩
    · refine (below m before).lt_of_ne fun same => regular ⟨odd, m, .inr before, ?_⟩
      rw [before, same]
    · exact above.lt_of_ne fun same => regular ⟨odd, n, .inl rfl, same⟩

/-- Two steps give the nearest value or a neighbour of it. -/
theorem twice_close {m : Nat} (second : Nearest format.rankValue (wide.rankValue w) m) :
    m ≤ n + 1 ∧ n ≤ m + 1 := by
  obtain ⟨below, above⟩ := between_midpoints fraction least nearest first
  have grows := format.rankValue_strictMono
  constructor
  · have next := grows n.lt_succ_self
    exact second.mono grows (Nearest.exact grows (n + 1)) (by linarith)
  · cases n with
    | zero => omega
    | succ k =>
      have previous := grows k.lt_succ_self
      have low := below k rfl
      exact Nat.succ_le_succ ((Nearest.exact grows k).mono grows second (by linarith))

end Twice

end FloatFormat

end TypedRecords
