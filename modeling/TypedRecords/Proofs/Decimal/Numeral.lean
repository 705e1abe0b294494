import Mathlib.Data.List.TakeWhile
import TypedRecords.Coercion.Number

/-! How written numbers are read. Digits with a minus or none are an integer and a number; digits
with a point among them are a number only. Blanks around them do not count. -/
namespace TypedRecords

theorem isBlank_of_isDigit {c : Char} (digit : c.isDigit = true) : isBlank c = false := by
  have digitless : blanks.any Char.isDigit = false := by decide
  by_contra blank
  have member : c ∈ blanks := by simpa [isBlank] using blank
  exact absurd (List.any_eq_true.mpr ⟨c, member, digit⟩) (by simp [digitless])

/-- A text that has no blank at its ends is what is left of it between blanks. -/
theorem trimBlanks_between {before text after : List Char}
    (blankBefore : ∀ c ∈ before, isBlank c = true) (blankAfter : ∀ c ∈ after, isBlank c = true)
    (solid : ∀ c ∈ text, isBlank c = false) : trimBlanks (before ++ text ++ after) = text := by
  have starts (rest : List Char) (nonempty : text ≠ []) :
      (text ++ rest).dropWhile isBlank = text ++ rest := by
    cases text with
    | nil => exact absurd rfl nonempty
    | cons c text => simp [solid c List.mem_cons_self]
  have ends : text.reverse.dropWhile isBlank = text.reverse := by
    cases reversed : text.reverse with
    | nil => rfl
    | cons c rest =>
      have member : c ∈ text := List.mem_reverse.mp (by simp [reversed])
      simp [solid c member]
  have reversedBlank : ∀ c ∈ after.reverse, isBlank c = true :=
    fun c member => blankAfter c (List.mem_reverse.mp member)
  unfold trimBlanks
  rw [List.append_assoc, List.dropWhile_append_of_pos blankBefore]
  rcases eq_or_ne text [] with rfl | nonempty
  · have nothing : ([] ++ after).dropWhile isBlank = [] := by simpa using blankAfter
    rw [nothing]
    rfl
  · rw [starts after nonempty, List.reverse_append, List.dropWhile_append_of_pos reversedBlank,
      ends, List.reverse_reverse]

namespace Numeral

def signed (negative : Bool) (body : List Char) : List Char :=
  if negative then '-' :: body else body

def StartsWithDigit (text : List Char) : Prop := ∃ d rest, text = d :: rest ∧ d.isDigit = true

theorem startsWithDigit_append {digits : List Char} (nonempty : digits ≠ [])
    (allDigits : ∀ c ∈ digits, c.isDigit = true) (rest : List Char) :
    StartsWithDigit (digits ++ rest) := by
  cases digits with
  | nil => exact absurd rfl nonempty
  | cons d digits => exact ⟨d, digits ++ rest, rfl, allDigits d List.mem_cons_self⟩

theorem splitSign_signed {negative : Bool} {body : List Char} (starts : StartsWithDigit body) :
    splitSign (signed negative body) = (negative, body) := by
  obtain ⟨d, rest, rfl, digit⟩ := starts
  cases negative with
  | true => rfl
  | false =>
    simp only [signed, Bool.false_eq_true, if_false]
    unfold splitSign
    split
    · next same => simp [(List.cons.inj same).1] at digit
    · next same => simp [(List.cons.inj same).1] at digit
    · rfl

theorem solid_signed (negative : Bool) {body : List Char}
    (solid : ∀ c ∈ body, isBlank c = false) : ∀ c ∈ signed negative body, isBlank c = false := by
  have minus : isBlank '-' = false := by decide
  cases negative with
  | true => simpa [signed, minus] using solid
  | false => simpa [signed] using solid

section Digits

variable {digits : List Char} (nonempty : digits ≠ [])
  (allDigits : ∀ c ∈ digits, c.isDigit = true)

include nonempty allDigits

theorem integer?_signed (negative : Bool) : integer? (signed negative digits) =
    some (if negative then -(Nat.ofDigitChars 10 digits 0 : Int)
      else Nat.ofDigitChars 10 digits 0) := by
  have starts := startsWithDigit_append nonempty allDigits []
  rw [List.append_nil] at starts
  have all : digits.all Char.isDigit = true := List.all_eq_true.mpr allDigits
  simp [integer?, splitSign_signed starts, natural?, nonempty, all]

theorem number?_signed (negative : Bool) : number? (signed negative digits) =
    some (finite negative (Nat.ofDigitChars 10 digits 0) 0) := by
  have starts := startsWithDigit_append nonempty allDigits []
  rw [List.append_nil] at starts
  have whole : digits.takeWhile Char.isDigit = digits := List.takeWhile_eq_self_iff.mpr allDigits
  have rest : digits.dropWhile Char.isDigit = [] := List.dropWhile_eq_nil_iff.mpr allDigits
  simp [number?, splitSign_signed starts, unsigned?, whole, rest, nonempty, exponent?]

/-- The digits after the point count as powers of ten. -/
theorem number?_point (negative : Bool) {fraction : List Char}
    (fractionDigits : ∀ c ∈ fraction, c.isDigit = true) :
    number? (signed negative (digits ++ '.' :: fraction)) =
      some (finite negative (Nat.ofDigitChars 10 (digits ++ fraction) 0) (-fraction.length)) := by
  have starts := startsWithDigit_append nonempty allDigits ('.' :: fraction)
  have whole : (digits ++ '.' :: fraction).takeWhile Char.isDigit = digits := by
    rw [List.takeWhile_append_of_pos allDigits]
    simp
  have point : (digits ++ '.' :: fraction).dropWhile Char.isDigit = '.' :: fraction := by
    rw [List.dropWhile_append_of_pos allDigits]
    simp
  have places : fraction.takeWhile Char.isDigit = fraction :=
    List.takeWhile_eq_self_iff.mpr fractionDigits
  have rest : fraction.dropWhile Char.isDigit = [] := List.dropWhile_eq_nil_iff.mpr fractionDigits
  simp [number?, splitSign_signed starts, unsigned?, whole, point, places, rest, nonempty,
    exponent?]

theorem integer?_point (negative : Bool) (fraction : List Char) :
    integer? (signed negative (digits ++ '.' :: fraction)) = none := by
  have starts := startsWithDigit_append nonempty allDigits ('.' :: fraction)
  have notAll : (digits ++ '.' :: fraction).all Char.isDigit = false := by
    rw [List.all_eq_false]
    exact ⟨'.', by simp, by decide⟩
  simp [integer?, splitSign_signed starts, natural?, notAll]

end Digits

end Numeral

end TypedRecords
