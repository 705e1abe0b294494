import TypedRecords.Proofs.Coercion.Narrowing
import TypedRecords.Proofs.Decimal.Numeral
import TypedRecords.Proofs.Decimal.Rounding

/-! Written integers. Within 64 bits they are read as they are. Beyond, they are read as doubles,
which keep away from the range, but for those just below its lower end: these are rounded into it.
-/
namespace TypedRecords

def Numeral.Spells (text : List Char) (n : Int) : Prop :=
  ∃ negative digits, digits ≠ [] ∧ (∀ c ∈ digits, c.isDigit = true) ∧
    text = signed negative digits ∧
    n = if negative then -(Nat.ofDigitChars 10 digits 0 : Int) else Nat.ofDigitChars 10 digits 0

namespace FloatFormat

def rank63 : Nat := 1085 * double.leadingBit + double.leadingBit

theorem rankValue_rank63 : double.rankValue rank63 = 2 ^ 63 := by
  have value := @rankValue_scaled double 1085 double.leadingBit (by decide) (.inr le_rfl)
  have power : double.leastExponent + (1085 : ℕ) = 11 := by decide
  have leading : double.leadingBit = 2 ^ 52 := by decide
  rw [power, leading] at value
  rw [rank63, leading, value]
  norm_num

/-- There the doubles lie 2048 apart. -/
theorem rankValue_rank63_succ : double.rankValue (rank63 + 1) = 2 ^ 63 + 2 ^ 11 := by
  have value := @rankValue_scaled double 1085 (double.leadingBit + 1) (by decide) (.inr (by decide))
  have power : double.leastExponent + (1085 : ℕ) = 11 := by decide
  have leading : double.leadingBit = 2 ^ 52 := by decide
  rw [power, leading, ← Nat.add_assoc] at value
  rw [rank63, leading, value]
  norm_num

theorem rank63_lt_infinity : rank63 < double.infinity.toNat := by
  rw [← double.rankValue_strictMono.lt_iff_lt, rankValue_rank63, double.rankValue_infinity,
    ← zpow_natCast]
  exact zpow_lt_zpow_right₀ one_lt_two (by decide)

theorem rank63_le {m rank : Nat} (large : 2 ^ 63 ≤ m)
    (nearest : Nearest double.rankValue m rank) : rank63 ≤ rank := by
  refine (Nearest.exact double.rankValue_strictMono rank63).mono double.rankValue_strictMono
    nearest ?_
  rw [rankValue_rank63]
  exact_mod_cast large

/-- Half of the distance decides, and the midpoint belongs to the even one. -/
theorem rank63_eq_iff {m rank : Nat} (large : 2 ^ 63 ≤ m)
    (nearest : Nearest double.rankValue m rank) : rank = rank63 ↔ m ≤ 2 ^ 63 + 2 ^ 10 := by
  have grows := double.rankValue_strictMono
  have here := rankValue_rank63
  have next := rankValue_rank63_succ
  constructor
  · rintro rfl
    have above := nearest.above
    rw [here, next] at above
    have : (m : ℚ) ≤ (2 ^ 63 + 2 ^ 10 : ℕ) := by
      push_cast
      linarith
    exact_mod_cast this
  · intro close
    have large' : (2 : ℚ) ^ 63 ≤ m := by exact_mod_cast large
    have close' : (m : ℚ) ≤ 2 ^ 63 + 2 ^ 10 := by exact_mod_cast close
    have even : rank63 % 2 = 0 := by decide
    refine nearest.unique grows ⟨fun k before => ?_, ?_, fun odd => by omega⟩
    · have previous := grows (show k < rank63 by omega)
      linarith
    · rw [here, next]
      linarith

end FloatFormat

namespace Number

open FloatFormat

/-- A number beyond 64 bits as a double. -/
theorem ofDecimal_beyond (negative : Bool) {m : Nat} (large : 2 ^ 63 ≤ m) :
    (Floating.ofDecimal negative m 0 : Double).negative = negative ∧
      if m ≤ 2 ^ 63 + 2 ^ 10 then
        (Floating.ofDecimal negative m 0 : Double).isFinite = true ∧
          (Floating.ofDecimal negative m 0 : Double).absolute = 2 ^ 63
      else (Floating.ofDecimal negative m 0 : Double).isFinite = true →
        2 ^ 63 + 2 ^ 11 ≤ (Floating.ofDecimal negative m 0 : Double).absolute := by
  have nearest := @nearestRank_nearest double _ m 1 one_pos
  rw [Nat.cast_one, div_one] at nearest
  have isValue : (⟨m, 0⟩ : Decimal).value = m := by simp [Decimal.value]
  obtain ⟨sign, magnitude⟩ := Floating.ofDecimal_nearest negative ⟨m, 0⟩ (isValue ▸ nearest)
  dsimp only at sign magnitude
  refine ⟨sign, ?_⟩
  rw [Floating.isFinite_iff, Floating.absolute_eq_rankValue, magnitude]
  have reaches := rank63_le large nearest
  have below := rank63_lt_infinity
  split
  · next close =>
    have same := (rank63_eq_iff large nearest).mpr close
    rw [same, Nat.min_eq_left below.le]
    exact ⟨below, rankValue_rank63⟩
  · next far =>
    intro finite
    have other : double.nearestRank m 1 ≠ rank63 :=
      fun same => far ((rank63_eq_iff large nearest).mp same)
    rw [Nat.min_eq_left (by omega), ← rankValue_rank63_succ]
    exact double.rankValue_strictMono.monotone (by omega)

/-- What such a double is as an integer: just beyond the range the end of the range, and farther
out nothing that is in range. -/
theorem whole_beyond (negative : Bool) {m : Nat} (large : 2 ^ 63 ≤ m) :
    if m ≤ 2 ^ 63 + 2 ^ 10 then
      (Floating.ofDecimal negative m 0 : Double).rational?.map towardZero =
        some (if negative then -2 ^ 63 else 2 ^ 63)
    else ∀ t ∈ (Floating.ofDecimal negative m 0 : Double).rational?.map towardZero,
      t < -2 ^ 63 ∨ 2 ^ 63 ≤ t := by
  obtain ⟨sign, value⟩ := ofDecimal_beyond negative large
  generalize (Floating.ofDecimal negative m 0 : Double) = x at sign value ⊢
  unfold Floating.rational?
  split at value
  · next close =>
    obtain ⟨finite, absolute⟩ := value
    have floor : ⌊(2 : ℚ) ^ 63⌋₊ = 2 ^ 63 := by exact_mod_cast Nat.floor_natCast (2 ^ 63)
    rw [if_pos close, if_pos finite, Option.map_some, Floating.towardZero_toRat, sign, absolute,
      floor]
    rfl
  · next far =>
    rw [if_neg far]
    intro t isWhole
    split at isWhole
    · next finite =>
      rw [Option.map_some, Option.mem_some_iff, Floating.towardZero_toRat] at isWhole
      have floor : 2 ^ 63 + 2 ^ 11 ≤ ⌊x.absolute⌋₊ := by
        rw [Nat.le_floor_iff x.absolute_nonneg]
        exact_mod_cast value finite
      split at isWhole <;> omega
    · simp at isWhole

/-- The sign, the digits and the size of a numeral decide how it is read; blanks around it do not
count. -/
theorem read?_spells {text before after : List Char} {n : Int} (spelled : Numeral.Spells text n)
    (blankBefore : ∀ c ∈ before, isBlank c = true) (blankAfter : ∀ c ∈ after, isBlank c = true) :
    read? (String.ofList (before ++ text ++ after)) =
      some (if -2 ^ 63 ≤ n ∧ n ≤ 2 ^ 63 - 1 then integer (.ofInt n)
        else floating (.ofDecimal (decide (n < 0)) n.natAbs 0)) := by
  obtain ⟨negative, digits, nonempty, allDigits, rfl, isNumber⟩ := spelled
  have solid := Numeral.solid_signed negative
    fun c member => isBlank_of_isDigit (allDigits c member)
  unfold read?
  dsimp only
  rw [String.toList_ofList, trimBlanks_between blankBefore blankAfter solid,
    Numeral.integer?_signed nonempty allDigits, Numeral.number?_signed nonempty allDigits,
    ← isNumber, Option.bind_some]
  by_cases inRange : -2 ^ 63 ≤ n ∧ n ≤ 2 ^ 63 - 1
  · have fits : int64? n = some (.ofInt n) := if_pos inRange
    simp only [fits, if_pos inRange]
  · have outside : int64? n = none := if_neg inRange
    have size : n.natAbs = Nat.ofDigitChars 10 digits 0 := by
      rw [isNumber]
      split <;> simp
    have sign : decide (n < 0) = negative := by
      cases negative with
      | true =>
        rw [if_pos rfl] at isNumber
        exact decide_eq_true (by omega)
      | false =>
        rw [if_neg Bool.false_ne_true] at isNumber
        exact decide_eq_false (by omega)
    simp only [outside, if_neg inRange, Option.map_some, Numeral.toFloating, size, sign]

end Number

namespace Coercion

/-- Integers out of both ranges are all alike. -/
theorem NarrowsTo.of_beyond {v : Value} {whole? : Option Int} {n : Int}
    (narrows : NarrowsTo v whole?)
    (beyond : ∀ t ∈ whole?, t < -2 ^ 63 ∨ 2 ^ 63 ≤ t) (out : n < -2 ^ 63 ∨ 2 ^ 63 ≤ n) :
    NarrowsTo v (some n) := by
  obtain ⟨int, long⟩ := narrows
  cases whole? with
  | none =>
    refine ⟨int.trans ?_, long.trans ?_⟩
    · rw [Option.bind_some, if_neg (by omega)]
      rfl
    · rw [Option.bind_some, if_neg (by omega)]
      rfl
  | some t =>
    have outside := beyond t rfl
    refine ⟨int.trans ?_, long.trans ?_⟩
    · rw [Option.bind_some, Option.bind_some, if_neg (by omega), if_neg (by omega)]
    · rw [Option.bind_some, Option.bind_some, if_neg (by omega), if_neg (by omega)]

/-- A written integer of any size is read as itself, under each of the two types that it is in range
of, but for those at most 1024 below the range of 64 bits: these are read as its least integer. -/
theorem integer_text_reads {text before after : List Char} {n : Int}
    (spelled : Numeral.Spells text n) (blankBefore : ∀ c ∈ before, isBlank c = true)
    (blankAfter : ∀ c ∈ after, isBlank c = true) :
    NarrowsTo (.string (String.ofList (before ++ text ++ after)))
      (some (if -2 ^ 63 - 2 ^ 10 ≤ n ∧ n < -2 ^ 63 then -2 ^ 63 else n)) := by
  have reads := Number.read?_spells spelled blankBefore blankAfter
  by_cases inRange : -2 ^ 63 ≤ n ∧ n ≤ 2 ^ 63 - 1
  · rw [if_pos inRange] at reads
    have narrows := narrowsTo_of_integer (v := .string _) reads
    rw [Int64.toInt_ofInt_of_le (by omega) (by omega)] at narrows
    rwa [if_neg (by omega)]
  · rw [if_neg inRange] at reads
    have narrows := narrowsTo_of_floating (v := .string _) reads
    have whole := Number.whole_beyond (decide (n < 0)) (show 2 ^ 63 ≤ n.natAbs by omega)
    by_cases close : n.natAbs ≤ 2 ^ 63 + 2 ^ 10
    · rw [if_pos close] at whole
      rcases Int.lt_or_le n 0 with below | above
      · rw [whole, decide_eq_true below, if_pos rfl] at narrows
        rwa [if_pos (by omega)]
      · rw [whole, decide_eq_false (by omega), if_neg Bool.false_ne_true] at narrows
        rw [if_neg (by omega)]
        exact narrows.of_beyond (fun t isEnd => by cases isEnd; omega) (by omega)
    · rw [if_neg close] at whole
      rw [if_neg (by omega)]
      exact narrows.of_beyond whole (by omega)

/-- Between blanks, the greatest integer below the range of 32 bits. -/
theorem integer_text_reads_padded :
    NarrowsTo (.string "\u3000-2147483649\n") (some (-2147483649)) := by
  have reads := @integer_text_reads ['-', '2', '1', '4', '7', '4', '8', '3', '6', '4', '9']
    ['\u3000'] ['\n'] (-2147483649)
    ⟨true, ['2', '1', '4', '7', '4', '8', '3', '6', '4', '9'], by simp, List.all_eq_true.mp rfl,
      rfl, rfl⟩
    (List.all_eq_true.mp rfl) (List.all_eq_true.mp rfl)
  rwa [if_neg (by decide)] at reads

/-- The integer before the least one of 64 bits is read as a double, and so as this least one. -/
theorem integer_before_least_read :
    standard (.string "-9223372036854775809") .long = some (.value (.long Int64.minValue)) := by
  rfl

end Coercion

end TypedRecords
