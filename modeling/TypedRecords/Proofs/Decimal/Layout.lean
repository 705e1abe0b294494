import TypedRecords.Decimal.Layout
import TypedRecords.Proofs.Decimal.Numeral
import TypedRecords.Proofs.Decimal.Rounding

/-! Decimals written out. A whole number is its digits and zeros after them; any other decimal has a
point, with zeros before its digits if it is small. What is read back has the value of the decimal.
-/
namespace TypedRecords.Decimal

theorem isDigit_digits (d : Decimal) : ∀ c ∈ d.digits, c.isDigit = true :=
  fun _ member => Nat.isDigit_of_mem_toDigits (by decide) (by decide) member

theorem isDigit_replicate (zeros : Nat) : ∀ c ∈ List.replicate zeros '0', c.isDigit = true := by
  intro c member
  rw [List.eq_of_mem_replicate member]
  decide

theorem isDigit_whole (d : Decimal) (zeros : Nat) :
    ∀ c ∈ d.digits ++ List.replicate zeros '0', c.isDigit = true :=
  fun c member => (List.mem_append.mp member).elim (d.isDigit_digits c) (isDigit_replicate _ c)

/-- The digits before a point and those after it, together the coefficient. -/
structure Pointed (d : Decimal) (whole fraction : List Char) : Prop where
  nonempty : whole ≠ []
  wholeDigits : ∀ c ∈ whole, c.isDigit = true
  fractionDigits : ∀ c ∈ fraction, c.isDigit = true
  coefficient : Nat.ofDigitChars 10 (whole ++ fraction) 0 = d.coefficient
  exponent : d.exponent = -(fraction.length : ℤ)

theorem written_whole {d : Decimal} (whole : 0 ≤ d.exponent) :
    d.written false = d.digits ++ List.replicate d.exponent.toNat '0' := by
  simp [written, whole]

theorem ofDigitChars_whole (d : Decimal) (zeros : Nat) :
    Nat.ofDigitChars 10 (d.digits ++ List.replicate zeros '0') 0 = d.coefficient * 10 ^ zeros := by
  rw [Nat.ofDigitChars_append, Nat.ofDigitChars_replicate_zero, digits,
    Nat.ofDigitChars_ten_toDigits, Nat.mul_comm]

theorem written_pointed {d : Decimal} (parted : d.exponent < 0) :
    ∃ whole fraction, d.written false = whole ++ '.' :: fraction ∧ d.Pointed whole fraction := by
  obtain ⟨places, same⟩ := Int.eq_ofNat_of_zero_le (show 0 ≤ -d.exponent by omega)
  have padded : ∀ c ∈ List.replicate (places + 1 - d.digits.length) '0' ++ d.digits,
      c.isDigit = true := by
    intro c member
    exact (List.mem_append.mp member).elim (isDigit_replicate _ c) (d.isDigit_digits c)
  have long :
      places + 1 ≤ (List.replicate (places + 1 - d.digits.length) '0' ++ d.digits).length := by
    rw [List.length_append, List.length_replicate]
    omega
  have number :
      Nat.ofDigitChars 10 (List.replicate (places + 1 - d.digits.length) '0' ++ d.digits) 0 =
        d.coefficient := by
    rw [Nat.ofDigitChars_append, Nat.ofDigitChars_replicate_zero, Nat.mul_zero, digits,
      Nat.ofDigitChars_ten_toDigits]
  unfold written
  rw [if_neg (by omega), same, Int.toNat_natCast]
  dsimp only
  generalize List.replicate (places + 1 - d.digits.length) '0' ++ d.digits = text
    at padded long number
  refine ⟨_, _, rfl, ?_, fun c member => padded c (List.mem_of_mem_take member),
    fun c member => padded c (List.mem_of_mem_drop member), ?_, ?_⟩
  · rw [Ne, List.take_eq_nil_iff]
    rintro (none | nothing)
    · omega
    · simp [nothing] at long
  · rw [List.take_append_drop, number]
  · rw [List.length_drop]
    omega

theorem solid_written (d : Decimal) : ∀ c ∈ d.written false, isBlank c = false := by
  rcases lt_or_ge d.exponent 0 with parted | whole
  · obtain ⟨whole, fraction, isText, pointed⟩ := written_pointed parted
    have point : isBlank '.' = false := by decide
    intro c member
    rw [isText, List.mem_append, List.mem_cons] at member
    rcases member with before | rfl | after
    · exact isBlank_of_isDigit (pointed.wholeDigits c before)
    · exact point
    · exact isBlank_of_isDigit (pointed.fractionDigits c after)
  · rw [written_whole whole]
    exact fun c member => isBlank_of_isDigit (d.isDigit_whole _ c member)

/-- The numeral has the value of the decimal that was written, perhaps by another power of ten. -/
theorem number?_written (negative : Bool) (d : Decimal) : ∃ e : Decimal, e.value = d.value ∧
    Numeral.number? (Numeral.signed negative (d.written false)) =
      some (.finite negative e.coefficient e.exponent) := by
  rcases lt_or_ge d.exponent 0 with parted | whole
  · obtain ⟨whole, fraction, isText, pointed⟩ := written_pointed parted
    refine ⟨d, rfl, ?_⟩
    rw [isText, Numeral.number?_point pointed.nonempty pointed.wholeDigits negative
      pointed.fractionDigits, pointed.coefficient, pointed.exponent]
  · obtain ⟨zeros, same⟩ := Int.eq_ofNat_of_zero_le whole
    refine ⟨⟨d.coefficient * 10 ^ zeros, 0⟩, ?_, ?_⟩
    · simp [value, same]
    · rw [written_whole whole, same, Int.toNat_natCast,
        Numeral.number?_signed (by simp [digits]) (d.isDigit_whole zeros), ofDigitChars_whole]

/-- What can be read as an integer is the decimal itself. -/
theorem value_of_integer?_written {negative : Bool} {d : Decimal} {n : Int}
    (read : Numeral.integer? (Numeral.signed negative (d.written false)) = some n) :
    (n : ℚ) = if negative then -d.value else d.value := by
  rcases lt_or_ge d.exponent 0 with parted | whole
  · obtain ⟨whole, fraction, isText, pointed⟩ := written_pointed parted
    rw [isText, Numeral.integer?_point pointed.nonempty pointed.wholeDigits] at read
    cases read
  · obtain ⟨zeros, same⟩ := Int.eq_ofNat_of_zero_le whole
    rw [written_whole whole, same, Int.toNat_natCast,
      Numeral.integer?_signed (by simp [digits]) (d.isDigit_whole zeros),
      ofDigitChars_whole] at read
    rw [← Option.some.inj read, value, same]
    split <;> simp

end TypedRecords.Decimal
