import TypedRecords.Coercion
import TypedRecords.Proofs.Calendar.Rfc3339

/-! Stored milliseconds as a text and back. The text has the whole of the instant: it has a date for
every day, and milliseconds are written to the last one. -/
namespace TypedRecords.Coercion

theorem instant?_millis {v : Value} {millis : Int64}
    (held : v = .dateTime millis ∨ v = .long millis) :
    instant? v = Instant.ofMillis? millis.toInt := by
  rcases held with rfl | rfl <;> rfl

theorem instant?_string {text : String} {z : Zoned} (written : Rfc3339.read? text.toList = some z) :
    instant? (.string text) = Instant.ofMillis? z.instant.toMillis := by
  simp [instant?, millis?, written, Instant.toInt_epochMillis]

/-- In the years that are written with four digits, milliseconds have a text that names their
instant exactly, in universal time. Read from the text, this instant is the one that is read from
the milliseconds themselves. -/
theorem instant_text_reads_back {millis : Int64}
    (first : 0 ≤ (Date.ofDays (millis.toInt / 86400000)).year)
    (last : (Date.ofDays (millis.toInt / 86400000)).year ≤ 9999) :
    ∃ text t, millisText? millis = some text ∧
      Rfc3339.read? text.toList = some ⟨t, 0⟩ ∧
      t.toNanos = millis.toInt * 1000000 ∧ t.nanos < 1000000000 ∧
      standard (.string text) .instant = some (.instant t) ∧
      standard (.string text) .zoned = some (.zoned ⟨t, 0⟩) ∧
      standard (.dateTime millis) .string = some (.value (.string text)) ∧
      standard (.dateTime millis) .instant = some (.instant t) ∧
      standard (.dateTime millis) .zoned = some (.zoned ⟨t, 0⟩) := by
  have hasInstant : ∃ t, Instant.ofMillis? millis.toInt = some t :=
    Instant.exists_ofMillis?_iff_year.mpr (by omega)
  obtain ⟨t, inRange⟩ := hasInstant
  obtain ⟨exact, inSecond⟩ := Instant.ofMillis?_eq_some_iff.mp inRange
  have whole : t.nanos % 1000000 = 0 := by
    unfold Instant.toNanos at exact
    omega
  have sameDay : t.secs / 86400 = millis.toInt / 86400000 := by
    unfold Instant.toNanos at exact
    omega
  have written : Rfc3339.read? (Rfc3339.render t).toList = some ⟨t, 0⟩ :=
    Rfc3339.read?_render whole (.inl inSecond) (sameDay ▸ first) (sameDay ▸ last)
  have isText : millisText? millis = some (Rfc3339.render t) := by simp [millisText?, inRange]
  have stored : instant? (.dateTime millis) = some t := (instant?_millis (.inl rfl)).trans inRange
  have back : instant? (.string (Rfc3339.render t)) = some t := by
    rw [instant?_string written, Instant.toMillis_of_ofMillis? inRange, inRange]
  refine ⟨Rfc3339.render t, t, isText, written, exact, inSecond, ?_, ?_, ?_, ?_, ?_⟩
  · simp [standard, back]
  · simp [standard, back, Zoned.utc]
  · simp [standard, text?, isText]
  · simp [standard, stored]
  · simp [standard, stored, Zoned.utc]

/-- The last millisecond of a leap day, in year zero. -/
theorem instant_text_reads_back_leapDay :
    millisText? (-62162035200001) = some "0000-02-29T23:59:59.999Z" ∧
      ∃ t, t.toNanos = -62162035200001000000 ∧
        standard (.string "0000-02-29T23:59:59.999Z") .instant = some (.instant t) ∧
        standard (.dateTime (-62162035200001)) .instant = some (.instant t) := by
  have isText : millisText? (-62162035200001) = some "0000-02-29T23:59:59.999Z" := by
    decide +kernel
  obtain ⟨text, t, written, -, exact, -, back, -, -, stored, -⟩ :=
    @instant_text_reads_back (-62162035200001) (by decide +kernel) (by decide +kernel)
  obtain rfl := Option.some.inj (written.symm.trans isText)
  exact ⟨isText, t, exact, back, stored⟩

end TypedRecords.Coercion
