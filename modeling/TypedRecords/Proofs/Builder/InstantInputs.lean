import TypedRecords.Proofs.Builder.Step
import TypedRecords.Proofs.Calendar.Instant

/-! The ways to write an instant. An input of the type of instants counts only by its milliseconds:
what it was given as, and seen from which offset, leaves no trace in the builder. -/
namespace TypedRecords

namespace TemporalInput

/-- The milliseconds of an input among all integers. A part of a millisecond does not count, before
1970 neither, and a civil time has whole seconds only. -/
def millis : TemporalInput → Int
  | epochMillis millis => millis.toInt
  | date t => t.toNanos / 1000000
  | zoned t => t.instant.toNanos / 1000000
  | civil t => t.secs * 1000

theorem millis_bounds (input : TemporalInput) :
    -2 ^ 63 ≤ input.millis ∧ input.millis < 2 ^ 63 := by
  cases input with
  | epochMillis millis => exact ⟨millis.le_toInt, millis.toInt_lt⟩
  | date t | zoned t =>
    rw [millis, ← Instant.toMillis_eq]
    exact Instant.toMillis_bounds _
  | civil t =>
    have := t.start_le
    have := t.le_end
    change -2 ^ 63 ≤ t.secs * 1000 ∧ t.secs * 1000 < 2 ^ 63
    omega

theorem toInt_toMillis (input : TemporalInput) : input.toMillis.toInt = input.millis := by
  cases input with
  | epochMillis millis => rfl
  | date t | zoned t => rw [toMillis, Instant.toInt_epochMillis, millis, Instant.toMillis_eq]
  | civil t =>
    obtain ⟨lower, upper⟩ := (civil t).millis_bounds
    exact Int64.toInt_ofInt_of_le lower upper

theorem toMillis_eq_of_millis {input : TemporalInput} {millis : Int64}
    (same : input.millis = millis.toInt) : input.toMillis = millis :=
  Int64.toInt_inj.mp (input.toInt_toMillis.trans same)

end TemporalInput

namespace Builder

/-- Two inputs that a setter takes are the same to it if they are stored the same. -/
theorem set_congr {b : Builder} {entry : Entry} {setter : FieldType} {input other : FieldInput}
    (compatible : setter.isCompatible input = true) (compatible' : setter.isCompatible other = true)
    (null : input.isNull = other.isNull)
    (stored : b.stored? entry setter input = b.stored? entry setter other) :
    b.set entry setter input = b.set entry setter other := by
  have objections : b.objection? entry setter input = b.objection? entry setter other := by
    simp only [objection?, compatible, compatible', null, if_true]
  rw [set, set, objections, stored]

theorem set_long (b : Builder) (entry : Entry) (millis : Int64) :
    b.set entry .dateTime (.value (.long millis)) =
      b.set entry .dateTime (.value (.dateTime millis)) :=
  set_congr rfl rfl rfl rfl

theorem set_temporal (b : Builder) (entry : Entry) (input : TemporalInput) :
    b.set entry .dateTime (.temporal input) =
      b.set entry .dateTime (.value (.dateTime input.toMillis)) :=
  set_congr rfl rfl rfl rfl

/-- What a temporal input leaves under the name that it is written to. -/
theorem write_temporal_value? {b : Builder} {w : Write} {input : TemporalInput}
    (given : w.input = .temporal input) (accepted : (b.write w).error? = none) :
    (b.write w).builder.value? w.name = some (.dateTime input.toMillis) := by
  rcases b.write_cases w with ⟨error, refused⟩ | ⟨entry, through, -, isStage⟩
  · simp [refused] at accepted
  · rw [isStage, stage_value?, if_pos (entryOf_name through).symm, given]
    rfl

/-- Every input that comes to the same milliseconds, within 64 bits as they always are, is answered
the same and leaves the same builder: milliseconds by their own setter, generically as a long or as
stored, and any temporal input by its setter or generically. By name the two setters are alike too,
whatever the name resolves to. -/
theorem instant_inputs_converge (b : Builder) {entry : Entry} (typed : entry.type = .dateTime) :
    (∀ millis : Int64,
      let result := b.write (.through entry (.timestamp millis))
      b.write (.generic entry (.value (.long millis))) = result ∧
      b.write (.generic entry (.value (.dateTime millis))) = result ∧
      ∀ input : TemporalInput, input.millis = millis.toInt →
        b.write (.through entry (.dateTime input)) = result ∧
        b.write (.generic entry (.temporal input)) = result ∧
        ∀ name,
          b.write (.named name (.dateTime input)) = b.write (.named name (.timestamp millis))) ∧
    ∀ input : TemporalInput, -2 ^ 63 ≤ input.millis ∧ input.millis < 2 ^ 63 ∧
      input.toMillis.toInt = input.millis := by
  refine ⟨fun millis => ?_, fun input => ?_⟩
  · intro result
    have isResult : b.set entry .dateTime (.value (.dateTime millis)) = result := rfl
    refine ⟨?_, ?_, fun input same => ?_⟩
    · change b.set entry entry.type _ = result
      rw [typed, set_long, isResult]
    · change b.set entry entry.type _ = result
      rw [typed, isResult]
    · have stored := TemporalInput.toMillis_eq_of_millis same
      refine ⟨?_, ?_, fun name => ?_⟩
      · change b.set entry .dateTime (.temporal input) = result
        rw [set_temporal, stored, isResult]
      · change b.set entry entry.type (.temporal input) = result
        rw [typed, set_temporal, stored, isResult]
      · change b.setNamed name (.observed name .dateTime) .dateTime (.temporal input) =
          b.setNamed name (.observed name .dateTime) .dateTime (.value (.dateTime millis))
        unfold setNamed
        cases b.resolve name (.observed name .dateTime) with
        | error error => rfl
        | ok known => simp only [set_temporal, stored]
  · obtain ⟨lower, upper⟩ := input.millis_bounds
    exact ⟨lower, upper, input.toInt_toMillis⟩

/-- A nanosecond before 1970, seen from an hour east, and the end of a leap second. -/
theorem instant_inputs_converge_early :
    let b := start none {}
    let entry : Entry := { name := "at", type := .dateTime }
    let early : Instant := ⟨-1, 999999999, by decide, by decide, by decide⟩
    let leap : Instant := ⟨59, 1999999999, by decide, by decide, by decide⟩
    entry.type = .dateTime ∧
      (TemporalInput.zoned ⟨early, 3600⟩).millis = -1 ∧
      b.write (.through entry (.dateTime (.zoned ⟨early, 3600⟩))) =
        b.write (.through entry (.timestamp (-1))) ∧
      b.write (.generic entry (.value (.long (-1)))) = b.write (.through entry (.timestamp (-1))) ∧
      (b.write (.through entry (.timestamp (-1)))).builder.value? "at" = some (.dateTime (-1)) ∧
      (TemporalInput.date leap).toMillis.toInt = 60999 := by
  intro b entry early leap
  have isMillis : (TemporalInput.zoned ⟨early, 3600⟩).millis = (-1 : Int64).toInt := rfl
  obtain ⟨converge, fits⟩ := @instant_inputs_converge b entry rfl
  obtain ⟨long, -, temporal⟩ := converge (-1)
  have atEnd : (TemporalInput.date leap).millis = 60999 := by decide
  exact ⟨rfl, isMillis, (temporal _ isMillis).1, long, rfl, (fits (.date leap)).2.2.trans atEnd⟩

end Builder

end TypedRecords
