import Mathlib.Data.Option.Basic
import TypedRecords.Builder
import TypedRecords.Proofs.Calendar.Rfc3339
import TypedRecords.Proofs.Decimal.Numeral
import TypedRecords.Proofs.Record.Read

/-! One field read as an instant and as milliseconds. The two reads agree on stored milliseconds.
They part on written instants: an instant begins with the digits of a year and a hyphen, and no
number does, so that the text is read as an instant and never as milliseconds. -/
namespace TypedRecords

def StartsDated (text : List Char) : Prop :=
  ∃ digits rest, digits ≠ [] ∧ (∀ c ∈ digits, c.isDigit = true) ∧ text = digits ++ '-' :: rest

namespace StartsDated

variable {text : List Char}

/-- Only what follows the hyphen can be dropped. -/
theorem trimBlanks (dated : StartsDated text) : StartsDated (trimBlanks text) := by
  obtain ⟨digits, rest, nonempty, allDigits, rfl⟩ := dated
  have starts : (digits ++ '-' :: rest).dropWhile isBlank = digits ++ '-' :: rest := by
    cases digits with
    | nil => exact absurd rfl nonempty
    | cons d digits => simp [isBlank_of_isDigit (allDigits d List.mem_cons_self)]
  have kept : isBlank '-' = false := by decide
  refine ⟨digits, (rest.reverse.dropWhile isBlank).reverse, nonempty, allDigits, ?_⟩
  rw [TypedRecords.trimBlanks, starts, List.reverse_append, List.reverse_cons, List.append_assoc,
    List.dropWhile_append]
  split
  · next blank =>
    rw [List.isEmpty_iff] at blank
    simp [blank, kept]
  · simp

theorem splitSign (dated : StartsDated text) : Numeral.splitSign text = (false, text) := by
  obtain ⟨digits, rest, nonempty, allDigits, rfl⟩ := dated
  cases digits with
  | nil => exact absurd rfl nonempty
  | cons d digits =>
    have digit := allDigits d List.mem_cons_self
    unfold Numeral.splitSign
    split
    · next same => simp [(List.cons.inj same).1] at digit
    · next same => simp [(List.cons.inj same).1] at digit
    · rfl

theorem mem_hyphen (dated : StartsDated text) : '-' ∈ text := by
  obtain ⟨digits, rest, -, -, rfl⟩ := dated
  simp

theorem integer?_eq_none (dated : StartsDated text) : Numeral.integer? text = none := by
  have notAll : text.all Char.isDigit = false := by
    rw [List.all_eq_false]
    exact ⟨'-', dated.mem_hyphen, by decide⟩
  simp [Numeral.integer?, dated.splitSign, Numeral.natural?, notAll]

/-- After the digits of a number there is a point, the mark of a power of ten, or nothing. -/
theorem unsigned?_eq_none (dated : StartsDated text) (negative : Bool) :
    Numeral.unsigned? negative text = none := by
  obtain ⟨digits, rest, nonempty, allDigits, rfl⟩ := dated
  have whole : (digits ++ '-' :: rest).takeWhile Char.isDigit = digits := by
    rw [List.takeWhile_append_of_pos allDigits]
    simp
  have after : (digits ++ '-' :: rest).dropWhile Char.isDigit = '-' :: rest := by
    rw [List.dropWhile_append_of_pos allDigits]
    simp
  simp [Numeral.unsigned?, whole, after, nonempty, Numeral.exponent?]

theorem word?_eq_none (dated : StartsDated text) (negative : Bool) :
    Numeral.word? negative text = none := by
  have hyphen : '-' ∈ text.map Char.toLower := List.mem_map.mpr ⟨'-', dated.mem_hyphen, by decide⟩
  have other (word : String) (plain : '-' ∉ word.toList) :
      String.ofList (text.map Char.toLower) ≠ word := by
    rintro rfl
    simp [hyphen] at plain
  unfold Numeral.word?
  split
  · next same => exact absurd same (other _ (by decide))
  · next same => exact absurd same (other _ (by decide))
  · next same => exact absurd same (other _ (by decide))
  · rfl

theorem number?_eq_none (dated : StartsDated text) : Numeral.number? text = none := by
  rw [Numeral.number?, dated.splitSign]
  simp [dated.unsigned?_eq_none, dated.word?_eq_none]

end StartsDated

namespace Rfc3339

/-- An instant begins with its year. -/
theorem startsDated_of_read? {text : List Char} {z : Zoned} (read : read? text = some z) :
    StartsDated text := by
  simp only [read?, date?, Option.bind_eq_bind, Option.bind_eq_some_iff] at read
  obtain ⟨_, ⟨⟨year, afterYear⟩, yearRead, afterHyphen, hyphenRead, -⟩, -⟩ := read
  obtain ⟨digits, four, allDigits, rfl, -⟩ := digits?_eq_some yearRead
  obtain rfl := char?_eq_some hyphenRead
  refine ⟨digits, afterHyphen, ?_, allDigits, rfl⟩
  rintro rfl
  cases four

end Rfc3339

/-- No written instant is a number. -/
theorem Number.read?_of_instant {text : String} {z : Zoned}
    (written : Rfc3339.read? text.toList = some z) : Number.read? text = none := by
  have dated := (Rfc3339.startsDated_of_read? written).trimBlanks
  simp [Number.read?, dated.integer?_eq_none, dated.number?_eq_none]

namespace Record

/-- What is read as an instant is read as the milliseconds of the same instant, unless it was
written as a text. A text is read as an instant, to the millisecond, and as no number. -/
theorem timestamp_of_instant {r : Record} {name : String} {t : Instant}
    (read : r.get .instant name = .ok (some t)) :
    ((∀ text, r.value? name ≠ some (.string text)) →
      r.get .long name = .ok (some t.epochMillis)) ∧
    ∀ text, r.value? name = some (.string text) →
      (∃ z, Rfc3339.read? text.toList = some z ∧ t.epochMillis = z.instant.epochMillis) ∧
        r.get .long name = .error (.noCoercion name "String" "Long") := by
  obtain ⟨v, stored, isInstant⟩ := get_instant_iff.mp read
  obtain ⟨millis, counted, inRange⟩ := Option.bind_eq_some_iff.mp isInstant
  have epoch : t.epochMillis = millis := Instant.epochMillis_of_ofMillis? inRange
  rw [epoch, stored]
  cases v with
  | dateTime held | long held =>
    obtain rfl := Option.some.inj counted
    refine ⟨fun _ => ?_, by simp⟩
    simp [get, getWith, stored, Value.readAs, Representation.direct?, Except.map]
  | string text =>
    obtain ⟨z, written, rfl⟩ := Option.map_eq_some_iff.mp counted
    refine ⟨fun noText => absurd rfl (noText text), fun other same => ?_⟩
    obtain rfl := Value.string.inj (Option.some.inj same)
    refine ⟨⟨z, written, rfl⟩, ?_⟩
    simp [get, getWith, stored, Value.readAs, Representation.direct?, Coercion.standard,
      Number.ofValue?, Number.read?_of_instant written, Except.map, Value.variantName,
      Representation.name]
  | _ => cases counted

/-- Milliseconds before 1970, and a text. -/
theorem timestamp_of_instant_stored :
    let b := (Builder.start none {}).run
      [.named "at" (.timestamp (-1)), .named "text" (.string "1970-01-01T01:00:00.5+01:00")]
    ∃ r t u, b.build = .ok r ∧ r.get .instant "at" = .ok (some t) ∧
      r.get .long "at" = .ok (some (-1)) ∧ r.get .instant "text" = .ok (some u) ∧
      u.epochMillis = 500 ∧ r.get .long "text" = .error (.noCoercion "text" "String" "Long") := by
  intro b
  have early : (⟨b.schema, b.staged⟩ : Record).get .instant "at" =
      .ok (some ⟨-1, 999000000, by decide, by decide, by decide⟩) := rfl
  have written : (⟨b.schema, b.staged⟩ : Record).get .instant "text" =
      .ok (some ⟨0, 500000000, by decide, by decide, by decide⟩) := rfl
  have noText : ∀ text, (⟨b.schema, b.staged⟩ : Record).value? "at" ≠ some (.string text) := nofun
  exact ⟨_, _, _, rfl, early, (timestamp_of_instant early).1 noText, written, rfl,
    ((timestamp_of_instant written).2 _ rfl).2⟩

/-- A text that is read as an instant and not as its milliseconds. -/
theorem written_instant_is_no_timestamp :
    let b := (Builder.start none {}).run [.named "at" (.string "1970-01-01T00:00:01Z")]
    ∃ r t, b.build = .ok r ∧
      r.get .instant "at" = .ok (some t) ∧ t.epochMillis = 1000 ∧
      r.get .long "at" = .error (.noCoercion "at" "String" "Long") :=
  ⟨_, ⟨1, 0, by decide, by decide, by decide⟩, rfl, rfl, rfl, rfl⟩

end Record

end TypedRecords
