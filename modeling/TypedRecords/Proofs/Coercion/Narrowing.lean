import TypedRecords.Coercion
import TypedRecords.Proofs.Floating.Truncation
import TypedRecords.Proofs.Floating.Widening

/-! Numbers that are read as integers. A floating point value loses its fraction, and is refused if
what is left is out of range. The ends of the ranges are compared as doubles: those of 32 bits are
doubles themselves, and so is the least integer of 64 bits. The greatest one is not, and becomes the
power of two above it, which is then excluded. -/
namespace TypedRecords

def Floating.rational? {format : FloatFormat} (x : Floating format) : Option ℚ :=
  if x.isFinite then some x.toRat else none

namespace Floating

theorem toRat_of_parts {format : FloatFormat} {x : Floating format} {negative : Bool}
    {significand : Nat} {exponent : Int} (sign : x.negative = negative)
    (whole : x.significand = significand) (power : x.exponent = exponent) :
    x.toRat = (if negative then -1 else 1) * significand * 2 ^ exponent := by
  rw [toRat, absolute, sign, whole, power]
  split <;> ring

theorem toRat_int32_min : (ofInt Int32.minValue.toInt : Double).toRat = (-2 ^ 31 : Int) := by
  have parts := @toRat_of_parts _ (ofInt Int32.minValue.toInt : Double) true (2 ^ 52) (-21)
    (by decide +kernel) (by decide +kernel) (by decide +kernel)
  rw [parts]
  norm_num

theorem toRat_int32_max : (ofInt Int32.maxValue.toInt : Double).toRat = (2 ^ 31 - 1 : Int) := by
  have parts := @toRat_of_parts _ (ofInt Int32.maxValue.toInt : Double) false
    ((2 ^ 31 - 1) * 2 ^ 22) (-22) (by decide +kernel) (by decide +kernel) (by decide +kernel)
  rw [parts]
  norm_num

theorem toRat_int64_min : (ofInt Int64.minValue.toInt : Double).toRat = (-2 ^ 63 : Int) := by
  have parts := @toRat_of_parts _ (ofInt Int64.minValue.toInt : Double) true (2 ^ 52) 11
    (by decide +kernel) (by decide +kernel) (by decide +kernel)
  rw [parts]
  norm_num

/-- The greatest integer of 64 bits is rounded up. -/
theorem toRat_int64_max : (ofInt Int64.maxValue.toInt : Double).toRat = (2 ^ 63 : Int) := by
  have parts := @toRat_of_parts _ (ofInt Int64.maxValue.toInt : Double) false (2 ^ 52) 11
    (by decide +kernel) (by decide +kernel) (by decide +kernel)
  rw [parts]
  norm_num

end Floating

namespace Number

/-- A range check that lets only finite values through, and those whose integer part is in range. -/
theorem narrowed_eq {α : Type} {x : Double} {inside : Bool} {low high : Int} (ofInt : Int → α)
    (finite : inside = true → x.isFinite = true)
    (inRange : x.isFinite = true →
      (inside = true ↔ low ≤ towardZero x.toRat ∧ towardZero x.toRat ≤ high)) :
    (if inside then some (ofInt (x.truncate.clampToInt low high)) else none) =
      (x.rational?.map towardZero).bind fun t =>
        if low ≤ t ∧ t ≤ high then some (ofInt t) else none := by
  unfold Floating.rational?
  cases isFinite : x.isFinite with
  | false =>
    refine if_neg fun passed => ?_
    exact Bool.false_ne_true (isFinite.symm.trans (finite passed))
  | true =>
    rw [if_pos rfl]
    refine if_ctx_congr (inRange isFinite) (fun ⟨above, below⟩ => ?_) fun _ => rfl
    rw [Floating.clampToInt_eq (x.isFinite_truncate.trans isFinite) x.toRat_truncate above below]

/-- The range is closed at both ends. -/
theorem toInt32?_floating (x : Double) : toInt32? (floating x) =
    (x.rational?.map towardZero).bind fun t =>
      if -2 ^ 31 ≤ t ∧ t ≤ 2 ^ 31 - 1 then some (.ofInt t) else none := by
  have lowFinite : (Floating.ofInt Int32.minValue.toInt : Double).isFinite = true := by
    decide +kernel
  have highFinite : (Floating.ofInt Int32.maxValue.toInt : Double).isFinite = true := by
    decide +kernel
  refine narrowed_eq Int32.ofInt (fun passed => ?_) fun finite => ?_
  · obtain ⟨above, below⟩ := Bool.and_eq_true_iff.mp passed
    rw [← x.isFinite_truncate]
    exact Floating.isFinite_of_between lowFinite highFinite above below
  · have whole := x.isFinite_truncate.trans finite
    rw [Bool.and_eq_true, Floating.le_iff lowFinite whole, Floating.le_iff whole highFinite,
      Floating.toRat_int32_min, Floating.toRat_int32_max, Floating.toRat_truncate, Int.cast_le,
      Int.cast_le]
    exact Iff.rfl

/-- The range is open at its upper end, which as a double is one above it. -/
theorem toInt64?_floating (x : Double) : toInt64? (floating x) =
    (x.rational?.map towardZero).bind fun t =>
      if -2 ^ 63 ≤ t ∧ t ≤ 2 ^ 63 - 1 then some (.ofInt t) else none := by
  have lowFinite : (Floating.ofInt Int64.minValue.toInt : Double).isFinite = true := by
    decide +kernel
  have highFinite : (Floating.ofInt Int64.maxValue.toInt : Double).isFinite = true := by
    decide +kernel
  refine narrowed_eq Int64.ofInt (fun passed => ?_) fun finite => ?_
  · obtain ⟨above, below⟩ := Bool.and_eq_true_iff.mp passed
    rw [← x.isFinite_truncate]
    exact Floating.isFinite_of_between lowFinite highFinite above (Floating.le_of_lt below)
  · have whole := x.isFinite_truncate.trans finite
    rw [Bool.and_eq_true, Floating.le_iff lowFinite whole, Floating.lt_iff whole highFinite,
      Floating.toRat_int64_min, Floating.toRat_int64_max, Floating.toRat_truncate, Int.cast_le,
      Int.cast_lt, ← Int.le_sub_one_iff]
    exact Iff.rfl

end Number

/-- Single precision is read in double precision, which changes no value. -/
theorem Floating.rational?_widen (x : Single) :
    (x.convert : Double).rational? = x.rational? := by
  unfold rational?
  rw [isFinite_widen]
  split
  · next finite => rw [(widen_of_isFinite finite).2.1]
  · rfl

namespace Coercion

/-- The value is read as the integer under each of the two types that it is in range of. -/
structure NarrowsTo (v : Value) (whole? : Option Int) : Prop where
  int : standard v .int = whole?.bind fun t =>
    if -2 ^ 31 ≤ t ∧ t ≤ 2 ^ 31 - 1 then some (.value (.int (.ofInt t))) else none
  long : standard v .long = whole?.bind fun t =>
    if -2 ^ 63 ≤ t ∧ t ≤ 2 ^ 63 - 1 then some (.value (.long (.ofInt t))) else none

theorem narrowsTo_of_number {v : Value} {number : Number} {whole? : Option Int}
    (isNumber : Number.ofValue? v = some number)
    (int : number.toInt32? = whole?.bind fun t =>
      if -2 ^ 31 ≤ t ∧ t ≤ 2 ^ 31 - 1 then some (.ofInt t) else none)
    (long : number.toInt64? = whole?.bind fun t =>
      if -2 ^ 63 ≤ t ∧ t ≤ 2 ^ 63 - 1 then some (.ofInt t) else none) : NarrowsTo v whole? := by
  constructor
  · simp only [standard, isNumber, Option.bind_some, int]
    cases whole? with
    | none => rfl
    | some t => simp only [Option.bind_some]; split <;> rfl
  · simp only [standard, isNumber, Option.bind_some, long]
    cases whole? with
    | none => rfl
    | some t => simp only [Option.bind_some]; split <;> rfl

theorem narrowsTo_of_integer {v : Value} {n : Int64}
    (isNumber : Number.ofValue? v = some (.integer n)) : NarrowsTo v (some n.toInt) := by
  refine narrowsTo_of_number isNumber rfl ?_
  have above := n.le_toInt
  have below := n.toInt_lt
  rw [Option.bind_some, if_pos (by omega), Int64.ofInt_toInt]
  rfl

theorem narrowsTo_of_floating {v : Value} {x : Double}
    (isNumber : Number.ofValue? v = some (.floating x)) :
    NarrowsTo v (x.rational?.map towardZero) :=
  narrowsTo_of_number isNumber (Number.toInt32?_floating x) (Number.toInt64?_floating x)

/-- Floating point values are truncated exactly, and integers keep their value. What is out of range
is refused, and so is what is no finite number. -/
theorem narrow_exact :
    (∀ x : Single, NarrowsTo (.float x) (x.rational?.map towardZero)) ∧
    (∀ x : Double, NarrowsTo (.double x) (x.rational?.map towardZero)) ∧
    (∀ n : Int32, NarrowsTo (.int n) (some n.toInt)) ∧
    (∀ n : Int64, NarrowsTo (.long n) (some n.toInt)) ∧
    ∀ millis : Int64, NarrowsTo (.dateTime millis) (some millis.toInt) := by
  refine ⟨fun x => ?_, fun x => narrowsTo_of_floating rfl, fun n => ?_,
    fun n => narrowsTo_of_integer rfl, fun millis => narrowsTo_of_integer rfl⟩
  · rw [← Floating.rational?_widen]
    exact narrowsTo_of_floating rfl
  · rw [← Int32.toInt_toInt64]
    exact narrowsTo_of_integer rfl

/-- At the end of the range a fraction is dropped before the comparison. -/
example : standard (.double (.ofBits 0xC1E00000001CCCCD)) .int =
    some (.value (.int Int32.minValue)) := by
  rfl

end Coercion

end TypedRecords
