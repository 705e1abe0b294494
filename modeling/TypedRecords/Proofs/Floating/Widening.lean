import TypedRecords.Proofs.Floating.Rounding

/-! Values of single precision as doubles. All of them have a double of the same value, so that
widening neither joins values nor loses them. Only what is no number is not given back. -/
namespace TypedRecords.Floating

section Parts

variable {format : FloatFormat} {x y : Floating format}

theorem eq_of_parts (sign : x.negative = y.negative) (magnitude : x.magnitude = y.magnitude) :
    x = y := by
  cases x
  cases y
  simp_all

/-- What equals a finite value stands for the same number. -/
theorem equal_iff_toRat (finite : x.isFinite = true) : x.equal y = true ↔ x.toRat = y.toRat := by
  have ranks : x.toRat = y.toRat ↔ x.rank = y.rank := by
    rw [le_antisymm_iff, le_antisymm_iff, rank_le_iff, rank_le_iff]
  rw [ranks]
  constructor
  · exact fun equal => (rank_of_equal equal).symm
  · intro same
    unfold rank at same
    have magnitude : y.magnitude.toNat = x.magnitude.toNat := by
      split at same <;> split at same <;> omega
    refine equal_of_magnitude finite magnitude fun nonzero => ?_
    -- numbers of different signs would have different ranks
    cases sign : x.negative <;> cases sign' : y.negative <;> simp [sign, sign'] at same ⊢ <;> omega

/-- Above the finite values infinity is the only number. -/
theorem eq_infinity (notFinite : x.isFinite = false) (number : x.isNaN = false) :
    x = infinity x.negative := by
  refine eq_of_parts rfl (BitVec.eq_of_toNat_eq ?_)
  have above := mt isFinite_iff.mpr (by simpa using notFinite)
  have below := mt isNaN_iff.mpr (by simpa using number)
  exact Nat.le_antisymm (Nat.le_of_not_lt below) (Nat.le_of_not_lt above)

end Parts

theorem convert_infinity (negative : Bool) :
    ((infinity negative : Single).convert : Double) = infinity negative ∧
      ((infinity negative : Double).convert : Single) = infinity negative := by
  cases negative <;> decide

/-- A finite value keeps its number and its sign. -/
theorem widen_of_isFinite {x : Single} (finite : x.isFinite = true) :
    (x.convert : Double).isFinite = true ∧ (x.convert : Double).toRat = x.toRat ∧
      (x.convert : Double).negative = x.negative := by
  obtain ⟨stays, same⟩ :=
    @convert_exact .single .double _ _ (by decide) (by decide) (by decide) x finite
  refine ⟨stays, same, ?_⟩
  rw [convert_of_isFinite finite]
  rfl

theorem isFinite_widen (x : Single) : (x.convert : Double).isFinite = x.isFinite := by
  cases finite : x.isFinite with
  | true => exact (widen_of_isFinite finite).1
  | false =>
    cases number : x.isNaN with
    | true =>
      have invalid : (x.convert : Double) = nan := by simp [convert, number]
      rw [invalid]
      decide
    | false =>
      rw [eq_infinity finite number, (convert_infinity x.negative).1]
      cases x.negative <;> decide

theorem equal_widen_iff {x y : Single} (left : x.isFinite = true) (right : y.isFinite = true) :
    (x.convert : Double).equal y.convert = true ↔ x.equal y = true := by
  obtain ⟨leftStays, leftSame, -⟩ := widen_of_isFinite left
  obtain ⟨-, rightSame, -⟩ := widen_of_isFinite right
  rw [equal_iff_toRat leftStays, leftSame, rightSame, equal_iff_toRat left]

/-- Rounded back, a value is itself again. -/
theorem narrow_widen {x : Single} (number : x.isNaN = false) :
    ((x.convert : Double).convert : Single) = x := by
  cases finite : x.isFinite with
  | false =>
    have isInfinity := eq_infinity finite number
    obtain ⟨widened, narrowed⟩ := convert_infinity x.negative
    rw [isInfinity, widened, narrowed]
  | true =>
    obtain ⟨stays, same, sign⟩ := widen_of_isFinite finite
    have absolute : (x.convert : Double).absolute = x.absolute := by
      rw [toRat, toRat, sign] at same
      split at same
      · exact neg_inj.mp same
      · exact same
    have equal := (equal_convert_iff finite stays sign).mpr (by
      rw [absolute, absolute_eq_rankValue]
      exact Nearest.exact FloatFormat.single.rankValue_strictMono _)
    refine eq_of_parts ?_ (magnitude_of_equal equal)
    rw [convert_of_isFinite stays]
    exact sign

end TypedRecords.Floating
