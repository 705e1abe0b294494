import TypedRecords.Proofs.Calendar.Rfc3339
import TypedRecords.Proofs.Decimal.Numeral

/-! Texts of instants in all years. A year outside the first ten thousand has a sign and no fixed
width, so that the reader does not take it; still its digits end where the month begins, and a text
belongs to one instant only. -/
namespace TypedRecords.Rfc3339

/-- The sign of a year is read as that of a number. -/
theorem splitSign_yearText (year : Int) (rest : List Char) :
    Numeral.splitSign (yearText year ++ rest) =
      (decide (year < 0), padded 4 year.natAbs ++ rest) := by
  have nonempty : padded 4 year.natAbs ≠ [] := by simp [padded]
  have starts := Numeral.startsWithDigit_append nonempty isDigit_padded rest
  unfold yearText
  split
  · next four =>
    have plain := @Numeral.splitSign_signed false _ starts
    have same : year.toNat = year.natAbs := by omega
    simpa [Numeral.signed, same, show ¬year < 0 by omega] using plain
  · next outside =>
    by_cases negative : year < 0
    · simp [negative, Numeral.splitSign]
    · simp [negative, Numeral.splitSign]

/-- The first sign after the digits of a year ends it. -/
theorem yearText_inj {year year' : Int} {rest rest' : List Char}
    (same : yearText year ++ '-' :: rest = yearText year' ++ '-' :: rest') :
    year = year' ∧ rest = rest' := by
  have stops (rest : List Char) : Stops ('-' :: rest) := by simp [Stops]
  have split := congrArg Numeral.splitSign same
  rw [splitSign_yearText, splitSign_yearText] at split
  obtain ⟨sign, digits⟩ := Prod.mk.inj split
  -- what is left are digits up to the hyphen, however many
  obtain ⟨taken, left⟩ := span_digits (@isDigit_padded 4 year.natAbs) (stops rest)
  obtain ⟨taken', left'⟩ := span_digits (@isDigit_padded 4 year'.natAbs) (stops rest')
  rw [digits] at taken left
  have absolute : year.natAbs = year'.natAbs := by
    rw [← @ofDigitChars_padded 4 year.natAbs, ← taken, taken', ofDigitChars_padded]
  refine ⟨?_, List.tail_eq_of_cons_eq (left.symm.trans left')⟩
  rw [decide_eq_decide] at sign
  omega

theorem padded_inj {width n n' : Nat} {rest rest' : List Char} (positive : 0 < width)
    (fits : n < 10 ^ width) (fits' : n' < 10 ^ width)
    (same : padded width n ++ rest = padded width n' ++ rest') : n = n' ∧ rest = rest' := by
  have read := congrArg (digits? width) same
  rw [digits?_padded positive fits, digits?_padded positive fits'] at read
  exact Prod.mk.inj (Option.some.inj read)

theorem dateText_inj {date date' : Date} {rest rest' : List Char} (valid : date.Valid)
    (valid' : date'.Valid) (same : dateText date ++ rest = dateText date' ++ rest') :
    date = date' ∧ rest = rest' := by
  have fits := date_fits valid
  have fits' := date_fits valid'
  simp only [dateText, List.append_assoc, List.cons_append] at same
  obtain ⟨year, same⟩ := yearText_inj same
  obtain ⟨month, same⟩ := padded_inj (by decide) fits.1 fits'.1 same
  obtain ⟨day, same⟩ := padded_inj (by decide) fits.2 fits'.2 (List.tail_eq_of_cons_eq same)
  cases date
  cases date'
  simp_all

/-- Whole milliseconds outside leap seconds are told apart by their texts. -/
theorem render_inj {t t' : Instant} (whole : t.nanos % 1000000 = 0)
    (whole' : t'.nanos % 1000000 = 0) (inSecond : t.nanos < 1000000000)
    (inSecond' : t'.nanos < 1000000000) (same : render t = render t') : t = t' := by
  have stops : Stops ['Z'] := by simp [Stops]
  have inDay : (t.secs % 86400).toNat < 86400 := by omega
  have inDay' : (t'.secs % 86400).toNat < 86400 := by omega
  have time := time?_timeText inDay whole (.inl inSecond) t.nanos_lt stops
  have time' := time?_timeText inDay' whole' (.inl inSecond') t'.nanos_lt stops
  have texts := String.ofList_injective same
  simp only [List.append_assoc, List.cons_append] at texts
  obtain ⟨date, texts⟩ := dateText_inj (Date.valid_ofDays _) (Date.valid_ofDays _) texts
  have day := congrArg Date.toDays date
  rw [Date.toDays_ofDays, Date.toDays_ofDays] at day
  rw [List.tail_eq_of_cons_eq texts, time'] at time
  simp only [Option.some.injEq, Prod.mk.injEq, and_true] at time
  cases t
  cases t'
  simp only [Instant.mk.injEq]
  dsimp only at time day
  omega

end TypedRecords.Rfc3339
