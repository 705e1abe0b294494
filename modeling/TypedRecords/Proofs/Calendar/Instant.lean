import TypedRecords.Calendar.Instant
import TypedRecords.Proofs.Calendar.Date

/-! Instants as nanoseconds since 1970, and the milliseconds that have an instant. -/
namespace TypedRecords.Instant

/-- Those of a leap second run on into the second after it. -/
def toNanos (t : Instant) : Int := t.secs * 1000000000 + t.nanos

theorem toMillis_eq (t : Instant) : t.toMillis = t.toNanos / 1000000 := by
  unfold toMillis toNanos
  omega

theorem ofParts?_eq_some_iff {secs : Int} {nanos : Nat} {t : Instant} :
    ofParts? secs nanos = some t ↔ t.secs = secs ∧ t.nanos = nanos := by
  obtain ⟨tSecs, tNanos, start_le, le_end, nanos_lt⟩ := t
  unfold ofParts?
  split
  · simp [eq_comm]
  · next outside =>
    simp only [reduceCtorEq, false_iff]
    rintro ⟨rfl, rfl⟩
    exact outside ⟨start_le, le_end, nanos_lt⟩

/-- The instant of a whole number of milliseconds, which is in no leap second. -/
theorem ofMillis?_eq_some_iff {millis : Int} {t : Instant} :
    ofMillis? millis = some t ↔ t.toNanos = millis * 1000000 ∧ t.nanos < 1000000000 := by
  unfold ofMillis?
  rw [ofParts?_eq_some_iff]
  unfold toNanos
  constructor
  · rintro ⟨secs, nanos⟩
    omega
  · rintro ⟨total, inSecond⟩
    omega

theorem exists_ofMillis?_iff {millis : Int} : (∃ t, ofMillis? millis = some t) ↔
    -8334601228800000 ≤ millis ∧ millis ≤ 8210266876799999 := by
  unfold ofMillis? ofParts?
  split
  · simp only [Option.some.injEq, exists_eq', true_iff]
    omega
  · simp only [reduceCtorEq, exists_false, false_iff]
    omega

/-- The milliseconds of the years that instants can have. -/
theorem exists_ofMillis?_iff_year {millis : Int} : (∃ t, ofMillis? millis = some t) ↔
    -262143 ≤ (Date.ofDays (millis / 86400000)).year ∧
      (Date.ofDays (millis / 86400000)).year ≤ 262142 := by
  have first : (Date.newYear (-262143)).toDays = -96465292 := by decide
  have last : (Date.newYear (262142 + 1)).toDays = 95026237 := by decide
  rw [exists_ofMillis?_iff, Date.year_ofDays_iff, first, last]
  omega

theorem toMillis_of_ofMillis? {millis : Int} {t : Instant} (inRange : ofMillis? millis = some t) :
    t.toMillis = millis := by
  rw [toMillis_eq, (ofMillis?_eq_some_iff.mp inRange).1]
  omega

theorem epochMillis_of_ofMillis? {millis : Int64} {t : Instant}
    (inRange : ofMillis? millis.toInt = some t) : t.epochMillis = millis := by
  rw [epochMillis, toMillis_of_ofMillis? inRange, Int64.ofInt_toInt]

end TypedRecords.Instant
