import TypedRecords.Coercion
import TypedRecords.Proofs.Decimal.Layout
import TypedRecords.Proofs.Decimal.Shortest
import TypedRecords.Proofs.Floating.DoubleRounding

/-! Floating point values as texts, and these read back. The shortest decimal of a value rounds to
it. Double precision reads this decimal as an integer or rounds it once, and so does not miss the
value. Single precision rounds it to a double first, and misses the values for which this double is
a midpoint that does not belong to them. -/
namespace TypedRecords

namespace Number

/-- A number read from the text of a decimal: the decimal itself, or the double nearest to it. -/
inductive Stands (negative : Bool) (d : Decimal) : Number → Prop
  | integer {n : Int64} (value : (n.toInt : ℚ) = if negative then -d.value else d.value) :
      Stands negative d (integer n)
  | floating {e : Decimal} (value : e.value = d.value) :
      Stands negative d (floating (.ofDecimal negative e.coefficient e.exponent))

theorem toInt_of_int64? {n : Int} {i : Int64} (fits : int64? n = some i) : i.toInt = n := by
  have greatest : Int64.maxValue.toInt = 2 ^ 63 - 1 := rfl
  unfold int64? at fits
  split at fits
  · next inRange =>
    obtain rfl := Option.some.inj fits
    exact Int64.toInt_ofInt_of_le inRange.1 (by omega)
  · cases fits

/-- What is read back from a decimal that was written out stands for this decimal. -/
theorem read?_written (negative : Bool) (d : Decimal) : ∃ number,
    read? (String.ofList (Numeral.signed negative (d.written false))) = some number ∧
      Stands negative d number := by
  have solid := Numeral.solid_signed negative d.solid_written
  have trimmed := @trimBlanks_between [] _ [] (by simp) (by simp) solid
  rw [List.nil_append, List.append_nil] at trimmed
  unfold read?
  dsimp only
  rw [String.toList_ofList, trimmed]
  cases read : (Numeral.integer? (Numeral.signed negative (d.written false))).bind int64? with
  | some n =>
    obtain ⟨i, isInteger, fits⟩ := Option.bind_eq_some_iff.mp read
    refine ⟨_, rfl, .integer ?_⟩
    rw [toInt_of_int64? fits]
    exact Decimal.value_of_integer?_written isInteger
  | none =>
    obtain ⟨e, value, isNumber⟩ := d.number?_written negative
    refine ⟨_, ?_, .floating value⟩
    rw [isNumber]
    rfl

theorem read?_floatingText {format : FloatFormat} {x : Floating format}
    (finite : x.isFinite = true) : ∃ number, read? (floatingText x) = some number ∧
      Stands x.negative (x.shortest .up) number := by
  have isText : floatingText x =
      String.ofList (Numeral.signed x.negative ((x.shortest .up).written false)) := by
    rw [floatingText, Floating.isNaN_of_isFinite finite, finite]
    rfl
  rw [isText]
  exact read?_written _ _

end Number

namespace Coercion

/-- An odd value of single precision whose text is read as a double halfway to one of its
neighbours. -/
structure Misread (x : Single) : Prop where
  odd : x.magnitude.toNat % 2 = 1
  halfway : ∃ z, Number.read? (Number.floatingText x) = some (.floating z) ∧
    FloatFormat.single.Halfway x.magnitude.toNat z.absolute

theorem toDouble_of_stands {x : Double} (finite : x.isFinite = true) {number : Number}
    (stands : number.Stands x.negative (x.shortest .up)) : x.equal number.toDouble = true := by
  have nearest := x.shortest_nearest (by decide) .up
  cases stands with
  | integer value => exact Floating.equal_ofInt finite (Decimal.value_nonneg _) nearest value
  | floating value => exact Floating.equal_ofDecimal finite (value ▸ nearest)

/-- The double that a value of single precision is read through: finite, and nearest to its text. -/
theorem double_of_stands {x : Single} (finite : x.isFinite = true) {z : Double}
    (stands : (Number.floating z).Stands x.negative (x.shortest .up)) :
    z.isFinite = true ∧ z.negative = x.negative ∧
      Nearest FloatFormat.double.rankValue (x.shortest .up).value z.magnitude.toNat := by
  cases stands with
  | @floating e value =>
    obtain ⟨w, first⟩ := e.exists_nearest .double
    obtain ⟨sign, magnitude⟩ := Floating.ofDecimal_nearest x.negative e first
    have inRange := FloatFormat.first_lt_infinity (by decide) (by decide)
      (x.shortest_nearest (by decide) .up) (value ▸ first) (by decide)
      (Floating.isFinite_iff.mp finite)
    rw [Nat.min_eq_left inRange.le] at magnitude
    refine ⟨?_, sign, ?_⟩
    · rw [Floating.isFinite_iff, magnitude]
      exact inRange
    · rw [magnitude, ← value]
      exact first

theorem toSingle_of_stands {x : Single} (finite : x.isFinite = true) {number : Number}
    (read : Number.read? (Number.floatingText x) = some number)
    (stands : number.Stands x.negative (x.shortest .up)) :
    x.equal number.toSingle = true ↔ ¬Misread x := by
  have nearest := x.shortest_nearest (by decide) .up
  cases number with
  | integer n =>
    -- an integer is rounded only once
    obtain ⟨value⟩ := stands
    refine iff_of_true (Floating.equal_ofInt finite (Decimal.value_nonneg _) nearest value) ?_
    rintro ⟨-, z, isFloating, -⟩
    cases read.symm.trans isFloating
  | floating z =>
    obtain ⟨isFinite, sign, first⟩ := double_of_stands finite stands
    change x.equal z.convert = true ↔ _
    rw [Floating.equal_convert_iff finite isFinite sign, Floating.absolute_eq_rankValue,
      FloatFormat.nearest_twice_iff (by decide) (by decide) nearest first]
    refine not_congr ⟨fun ⟨odd, halfway⟩ => ⟨odd, z, read, halfway⟩, ?_⟩
    rintro ⟨odd, _, same, halfway⟩
    cases read.symm.trans same
    exact ⟨odd, halfway⟩

/-- What is not the value is the one next to it. -/
theorem toSingle_close {x : Single} (finite : x.isFinite = true) {number : Number}
    (stands : number.Stands x.negative (x.shortest .up)) :
    (number.toSingle.rank - x.rank).natAbs ≤ 1 := by
  have nearest := x.shortest_nearest (by decide) .up
  cases number with
  | integer n =>
    obtain ⟨value⟩ := stands
    have equal := Floating.equal_ofInt finite (Decimal.value_nonneg _) nearest value
    change ((Floating.ofInt n.toInt).rank - x.rank).natAbs ≤ 1
    rw [Floating.rank_of_equal equal]
    omega
  | floating z =>
    obtain ⟨isFinite, sign, first⟩ := double_of_stands finite stands
    have second := @FloatFormat.nearestRank_nearest .single _ z.ratio.1 _ z.ratio_pos
    rw [z.ratio_div, Floating.absolute_eq_rankValue] at second
    have close := FloatFormat.twice_close (by decide) (by decide) nearest first second
    have inRange := Floating.isFinite_iff.mp finite
    change ((z.convert : Single).rank - x.rank).natAbs ≤ 1
    rw [Floating.convert_of_isFinite isFinite, sign, Floating.rank, Floating.rank,
      Floating.ofRatio_magnitude]
    change Int.natAbs ((if x.negative then _ else _) - _) ≤ 1
    split <;> omega

/-- Written as a string and read from it, every finite value of double precision equals itself
again. Of single precision this holds exactly for the values that are not misread, and a misread one
comes back as a value next to it. -/
theorem floating_text_reads (x : Double) (s : Single) :
    (x.isFinite = true → ∃ text y,
      standard (.double x) .string = some (.value (.string text)) ∧
        standard (.string text) .double = some (.value (.double y)) ∧ x.equal y = true) ∧
    (s.isFinite = true → ∃ text y,
      standard (.float s) .string = some (.value (.string text)) ∧
        standard (.string text) .float = some (.value (.float y)) ∧
          (s.equal y = true ↔ ¬Misread s) ∧ (y.rank - s.rank).natAbs ≤ 1) := by
  constructor
  · intro finite
    obtain ⟨number, read, stands⟩ := Number.read?_floatingText finite
    refine ⟨Number.floatingText x, number.toDouble, rfl, ?_, toDouble_of_stands finite stands⟩
    simp only [standard, Number.ofValue?, read, Option.map_some]
  · intro finite
    obtain ⟨number, read, stands⟩ := Number.read?_floatingText finite
    refine ⟨Number.floatingText s, number.toSingle, rfl, ?_, toSingle_of_stands finite read stands,
      toSingle_close finite stands⟩
    simp only [standard, Number.ofValue?, read, Option.map_some]

theorem floating_text_reads_tenth : (Floating.ofBits 0x3DCCCCCD : Single).isFinite = true ∧
    ∃ text y, standard (.float (.ofBits 0x3DCCCCCD)) .string = some (.value (.string text)) ∧
      standard (.string text) .float = some (.value (.float y)) ∧
        ((Floating.ofBits 0x3DCCCCCD : Single).equal y = true ↔ ¬Misread (.ofBits 0x3DCCCCCD)) ∧
        (y.rank - (Floating.ofBits 0x3DCCCCCD : Single).rank).natAbs ≤ 1 :=
  ⟨by decide, (floating_text_reads (.ofBits 0x3FB999999999999A) (.ofBits 0x3DCCCCCD)).2 (by decide)⟩

/-- A value of single precision that comes back as its neighbour. -/
theorem single_text_misread :
    standard (.float (.ofBits 0x15AE43FD)) .string =
        some (.value (.string "0.00000000000000000000000007038531")) ∧
      standard (.string "0.00000000000000000000000007038531") .float =
        some (.value (.float (.ofBits 0x15AE43FE))) ∧
      (Floating.ofBits 0x15AE43FD : Single).equal (.ofBits 0x15AE43FE) = false := by
  refine ⟨?_, ?_, by decide⟩
  · rfl
  · rfl

end Coercion

end TypedRecords
