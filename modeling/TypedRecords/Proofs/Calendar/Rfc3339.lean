import Mathlib.Data.List.TakeWhile
import TypedRecords.Calendar.Rfc3339
import TypedRecords.Proofs.Calendar.Instant

/-! Instants written out and read back. Every part of the text has a fixed width, so that the reader
of a part takes what its writer wrote and leaves the text after it. -/
namespace TypedRecords.Rfc3339

section Digits

variable {width n : Nat}

theorem isDigit_padded : ∀ c ∈ padded width n, c.isDigit = true := by
  intro c member
  rcases List.mem_append.mp member with zero | digit
  · rw [List.eq_of_mem_replicate zero]
    decide
  · exact Nat.isDigit_of_mem_toDigits (by decide) (by decide) digit

theorem ofDigitChars_padded : Nat.ofDigitChars 10 (padded width n) 0 = n := by
  simp [padded, Nat.ofDigitChars_append, Nat.ofDigitChars_replicate_zero]

theorem length_padded (positive : 0 < width) (fits : n < 10 ^ width) :
    (padded width n).length = width := by
  have short := (Nat.length_toDigits_le_iff (show 1 < 10 by decide) positive).mpr fits
  simp only [padded, List.length_append, List.length_replicate]
  omega

/-- A number is read at the width that it was written at. -/
theorem digits?_padded (positive : 0 < width) (fits : n < 10 ^ width) (rest : List Char) :
    digits? width (padded width n ++ rest) = some (n, rest) := by
  have length := length_padded positive fits
  have taken : (padded width n ++ rest).take width = padded width n := List.take_left' length
  have dropped : (padded width n ++ rest).drop width = rest := List.drop_left' length
  have all : (padded width n).all Char.isDigit = true := List.all_eq_true.mpr isDigit_padded
  simp only [digits?, taken, dropped, length, all, and_self, if_true, ofDigitChars_padded]

theorem digits?_eq_some {text rest : List Char} (read : digits? width text = some (n, rest)) :
    ∃ digits, digits.length = width ∧ (∀ c ∈ digits, c.isDigit = true) ∧ text = digits ++ rest ∧
      Nat.ofDigitChars 10 digits 0 = n := by
  unfold digits? at read
  dsimp only at read
  split at read
  · next spelled =>
    obtain ⟨value, rfl⟩ := Prod.mk.inj (Option.some.inj read)
    exact ⟨text.take width, spelled.1, List.all_eq_true.mp spelled.2,
      (List.take_append_drop width text).symm, value⟩
  · cases read

end Digits

@[simp] theorem char?_cons (c : Char) (rest : List Char) : char? c (c :: rest) = some rest := by
  simp [char?]

theorem char?_eq_some {c : Char} {text rest : List Char} (read : char? c text = some rest) :
    text = c :: rest := by
  unfold char? at read
  split at read
  · cases read
  · split at read
    · next same => rw [same, Option.some.inj read]
    · cases read

/-- Months and days have at most two digits. -/
theorem date_fits {date : Date} (valid : date.Valid) :
    date.month < 10 ^ 2 ∧ date.day < 10 ^ 2 := by
  obtain ⟨-, month, -, day⟩ := valid
  have short : Date.monthLength date.year date.month ≤ 31 := by
    unfold Date.monthLength
    split
    · split <;> decide
    · split <;> decide
  omega

theorem date?_dateText {date : Date} (valid : date.Valid) (first : 0 ≤ date.year)
    (last : date.year ≤ 9999) (rest : List Char) :
    date? (dateText date ++ rest) = some (date, rest) := by
  obtain ⟨month, day⟩ := date_fits valid
  have isYear : yearText date.year = padded 4 date.year.toNat := if_pos ⟨first, last⟩
  have same : ((date.year.toNat : Int)) = date.year := Int.toNat_of_nonneg first
  simp only [date?, dateText, isYear, List.append_assoc, List.cons_append, Option.bind_eq_bind]
  rw [digits?_padded (by decide) (by omega)]
  simp only [Option.bind_some, char?_cons]
  rw [digits?_padded (by decide) month]
  simp only [Option.bind_some, char?_cons]
  rw [digits?_padded (by decide) day]
  simp only [Option.bind_some, same]
  exact if_pos valid

def Stops (rest : List Char) : Prop := ∀ c ∈ rest.head?, c.isDigit = false

theorem span_digits {digits rest : List Char} (allDigits : ∀ c ∈ digits, c.isDigit = true)
    (stops : Stops rest) : (digits ++ rest).takeWhile Char.isDigit = digits ∧
      (digits ++ rest).dropWhile Char.isDigit = rest := by
  rw [List.takeWhile_append_of_pos allDigits, List.dropWhile_append_of_pos allDigits]
  cases rest with
  | nil => simp
  | cons c rest => simp [stops c rfl]

theorem fraction?_padded {millis : Nat} (fits : millis < 1000) {rest : List Char}
    (stops : Stops rest) :
    fraction? ('.' :: (padded 3 millis ++ rest)) = some (millis * 1000000, rest) := by
  have length : (padded 3 millis).length = 3 := length_padded (by decide) fits
  obtain ⟨places, after⟩ := span_digits (@isDigit_padded 3 millis) stops
  have kept : (padded 3 millis ++ List.replicate 9 '0').take 9 =
      padded 3 millis ++ List.replicate 6 '0' := by
    rw [List.take_append, length, List.take_of_length_le (by omega)]
    rfl
  have nonempty : padded 3 millis ≠ [] := List.ne_nil_of_length_eq_add_one length
  simp only [fraction?, places, after, kept, List.isEmpty_eq_false_iff.mpr nonempty]
  rw [Nat.ofDigitChars_append, ofDigitChars_padded, Nat.ofDigitChars_replicate_zero]
  simp [Nat.mul_comm]

theorem time?_timeText {second nanos : Nat} (inDay : second < 86400)
    (whole : nanos % 1000000 = 0) (leap : nanos < 1000000000 ∨ second % 60 = 59)
    (nanos_lt : nanos < 2000000000) {rest : List Char} (stops : Stops rest) :
    time? (timeText second nanos ++ rest) = some (second, nanos, rest) := by
  simp only [time?, timeText, List.append_assoc, List.cons_append, Option.bind_eq_bind]
  rw [digits?_padded (by decide) (by omega)]
  simp only [Option.bind_some, char?_cons]
  rw [digits?_padded (by decide) (by omega)]
  simp only [Option.bind_some, char?_cons]
  rw [digits?_padded (by decide) (by omega)]
  simp only [Option.bind_some]
  rw [fraction?_padded (by omega) stops]
  simp only [Option.bind_some]
  rw [if_pos (by omega)]
  split
  · next sixty =>
    congr 3 <;> omega
  · next plain =>
    congr 3 <;> omega

/-- An instant of a year of four digits is read back from its text, if it has no part of a
millisecond. Leap seconds are written only after second 59. -/
theorem read?_render {t : Instant} (whole : t.nanos % 1000000 = 0)
    (leap : t.nanos < 1000000000 ∨ t.secs % 60 = 59)
    (first : 0 ≤ (Date.ofDays (t.secs / 86400)).year)
    (last : (Date.ofDays (t.secs / 86400)).year ≤ 9999) :
    read? (render t).toList = some (.utc t) := by
  have valid := Date.valid_ofDays (t.secs / 86400)
  have isDay := Date.toDays_ofDays (t.secs / 86400)
  have stops : Stops ['Z'] := by simp [Stops]
  have inDay : (t.secs % 86400).toNat < 86400 := by omega
  have time := time?_timeText inDay whole (by omega) t.nanos_lt stops
  have separates (rest : List Char) : separator? ('T' :: rest) = some rest := rfl
  have universal : offset? ['Z'] = some (0, []) := rfl
  have isInstant : Instant.ofParts? (t.secs / 86400 * 86400 + (t.secs % 86400).toNat - 0) t.nanos =
      some t := Instant.ofParts?_eq_some_iff.mpr ⟨by omega, rfl⟩
  rw [render, String.toList_ofList, read?, List.append_assoc, date?_dateText valid first last]
  simp only [Option.bind_eq_bind, Option.bind_some, List.cons_append, separates, time, universal,
    isDay, isInstant]
  rfl

/-- A leap second is written as the sixtieth. -/
example :
    let text := "2024-02-29T10:30:60.500Z"
    let t? := Instant.ofParts? 1709202659 1500000000
    t?.map render = some text ∧ read? text.toList = t?.map Zoned.utc := by decide +kernel

section Range

/-- A number of so many digits. -/
theorem digits?_lt {width n : Nat} {text rest : List Char}
    (read : digits? width text = some (n, rest)) : n < 10 ^ width := by
  obtain ⟨digits, rfl, allDigits, -, rfl⟩ := digits?_eq_some read
  clear read
  induction digits with
  | nil => decide
  | cons d digits ih =>
    obtain ⟨digit, allDigits⟩ := List.forall_mem_cons.mp allDigits
    have small : d.toNat - '0'.toNat ≤ 9 := by
      simp only [Char.isDigit, Bool.and_eq_true, decide_eq_true_eq] at digit
      have upper : d.toNat ≤ '9'.toNat := UInt32.le_iff_toNat_le.mp digit.2
      have nine : '9'.toNat = '0'.toNat + 9 := rfl
      omega
    rw [Nat.ofDigitChars_cons, Nat.ofDigitChars_eq_ofDigitChars_zero, List.length_cons,
      Nat.pow_succ]
    calc 10 ^ digits.length * (10 * 0 + (d.toNat - '0'.toNat)) + Nat.ofDigitChars 10 digits 0
        < 10 ^ digits.length * (d.toNat - '0'.toNat) + 10 ^ digits.length := by
          rw [Nat.mul_zero, Nat.zero_add]
          exact Nat.add_lt_add_left (ih allDigits) _
      _ = 10 ^ digits.length * (d.toNat - '0'.toNat + 1) := (Nat.mul_succ _ _).symm
      _ ≤ 10 ^ digits.length * 10 := Nat.mul_le_mul_left _ (Nat.succ_le_succ small)

theorem date?_bounds {text rest : List Char} {date : Date} (read : date? text = some (date, rest)) :
    date.Valid ∧ 0 ≤ date.year ∧ date.year ≤ 9999 := by
  simp only [date?, Option.bind_eq_bind, Option.bind_eq_some_iff] at read
  obtain ⟨⟨year, _⟩, yearRead, _, -, ⟨month, _⟩, -, _, -, ⟨day, _⟩, -, checked⟩ := read
  dsimp only at checked
  split at checked
  · next valid =>
    obtain ⟨rfl, -⟩ := Prod.mk.inj (Option.some.inj checked)
    have short : year < 10 ^ 4 := digits?_lt yearRead
    exact ⟨valid, by dsimp only; omega, by dsimp only; omega⟩
  · cases checked

theorem time?_bounds {text rest : List Char} {second nanos : Nat}
    (read : time? text = some (second, nanos, rest)) : second < 86400 := by
  simp only [time?, Option.bind_eq_bind, Option.bind_eq_some_iff] at read
  obtain ⟨⟨hour, _⟩, -, _, -, ⟨minute, _⟩, -, _, -, ⟨second', _⟩, -, ⟨nanos', _⟩, -, checked⟩ :=
    read
  dsimp only at checked
  split at checked
  · split at checked
    · simp only [Option.some.injEq, Prod.mk.injEq] at checked
      omega
    · simp only [Option.some.injEq, Prod.mk.injEq] at checked
      omega
  · cases checked

theorem offset?_bounds {text rest : List Char} {offset : Int}
    (read : offset? text = some (offset, rest)) : -86400 < offset ∧ offset < 86400 := by
  unfold offset? at read
  split at read
  · cases read
  · split at read
    · obtain ⟨rfl, -⟩ := Prod.mk.inj (Option.some.inj read)
      decide
    · split at read
      · simp only [Option.bind_eq_bind, Option.bind_eq_some_iff] at read
        obtain ⟨⟨hours, _⟩, -, _, -, ⟨minutes, _⟩, -, checked⟩ := read
        dsimp only at checked
        split at checked
        · obtain ⟨rfl, -⟩ := Prod.mk.inj (Option.some.inj checked)
          split <;> omega
        · cases checked
      · cases read

/-- Instants that are read are far from the ends of the calendar, and so are their milliseconds. -/
theorem exists_ofMillis?_of_read? {text : List Char} {z : Zoned} (read : read? text = some z) :
    ∃ t, Instant.ofMillis? z.instant.toMillis = some t := by
  simp only [read?, Option.bind_eq_bind, Option.bind_eq_some_iff] at read
  obtain ⟨⟨date, _⟩, dateRead, _, -, ⟨second, nanos, _⟩, timeRead, ⟨offset, _⟩, offsetRead, -, -,
    instant, isInstant, result⟩ := read
  obtain rfl := Option.some.inj result
  obtain ⟨valid, first, last⟩ := date?_bounds dateRead
  obtain ⟨begun, ends⟩ := Date.toDays_bounds valid
  have inDay := time?_bounds timeRead
  have east := offset?_bounds offsetRead
  have nanos_lt := instant.nanos_lt
  obtain ⟨secs, -⟩ := Instant.ofParts?_eq_some_iff.mp isInstant
  have least := Date.toDays_newYear_mono first
  have greatest := Date.toDays_newYear_mono (show date.year + 1 ≤ 10000 by omega)
  have start : (Date.newYear 0).toDays = -719528 := by decide
  have finish : (Date.newYear 10000).toDays = 2932897 := by decide
  dsimp only at secs
  rw [Instant.exists_ofMillis?_iff]
  unfold Instant.toMillis
  dsimp only
  omega

end Range

end TypedRecords.Rfc3339
