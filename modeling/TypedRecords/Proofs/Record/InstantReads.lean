import TypedRecords.Proofs.Builder.InstantInputs
import TypedRecords.Proofs.Coercion.InstantTexts
import TypedRecords.Proofs.Record.Read

/-! Instants read from a record. Both forms of the read go through one coercion and give one
instant, in whole milliseconds and in universal time, and a write of it stores these milliseconds.
-/
namespace TypedRecords

namespace Coercion

variable {v : Value} {t : Instant}

/-- The coercion gives instants of whole milliseconds only. -/
theorem toNanos_of_instant? (coerced : instant? v = some t) :
    t.toNanos % 1000000 = 0 ∧ t.nanos < 1000000000 := by
  obtain ⟨millis, -, inRange⟩ := Option.bind_eq_some_iff.mp coerced
  obtain ⟨exact, inSecond⟩ := Instant.ofMillis?_eq_some_iff.mp inRange
  exact ⟨by omega, inSecond⟩

theorem exists_instant?_string_iff {text : String} :
    (∃ t, instant? (.string text) = some t) ↔ ∃ z, Rfc3339.read? text.toList = some z := by
  constructor
  · rintro ⟨t, coerced⟩
    obtain ⟨millis, counted, -⟩ := Option.bind_eq_some_iff.mp coerced
    obtain ⟨z, written, -⟩ := Option.map_eq_some_iff.mp counted
    exact ⟨z, written⟩
  · rintro ⟨z, written⟩
    rw [instant?_string written]
    exact Rfc3339.exists_ofMillis?_of_read? written

end Coercion

namespace Record

variable {r : Record} {name : String} {v : Value}

/-- The two reads of a stored value give the same instant or both fail. The instant is a whole
number of milliseconds: those that are stored, if they lie in the years of the calendar, or those of
the instant that a text spells, without the rest of it. Written to a builder that takes it, in
either form, it is stored as these milliseconds. -/
theorem instant_reads_agree (stored : r.value? name = some v) :
    ((∃ t, r.get .instant name = .ok (some t) ∧ r.get .zoned name = .ok (some ⟨t, 0⟩) ∧
        t.toNanos % 1000000 = 0 ∧ t.nanos < 1000000000) ∨
      r.get .instant name = .error (.noCoercion name v.variantName "Instant") ∧
        r.get .zoned name = .error (.noCoercion name v.variantName "Zoned")) ∧
    (∀ millis, v = .dateTime millis ∨ v = .long millis →
      ((∃ t, r.get .instant name = .ok (some t)) ↔
        -262143 ≤ (Date.ofDays (millis.toInt / 86400000)).year ∧
          (Date.ofDays (millis.toInt / 86400000)).year ≤ 262142) ∧
      ∀ t, r.get .instant name = .ok (some t) → t.toNanos = millis.toInt * 1000000) ∧
    (∀ text, v = .string text →
      ((∃ t, r.get .instant name = .ok (some t)) ↔ ∃ z, Rfc3339.read? text.toList = some z) ∧
      ∀ t z, r.get .instant name = .ok (some t) → Rfc3339.read? text.toList = some z →
        t.toNanos = z.instant.toNanos / 1000000 * 1000000) ∧
    ∀ t z, r.get .instant name = .ok (some t) → r.get .zoned name = .ok (some z) →
      ∀ (b : Builder) (w : Write),
        w.input = .temporal (.date t) ∨ w.input = .temporal (.zoned z) →
        (b.write w).error? = none →
        ∃ millis : Int64, (b.write w).builder.value? w.name = some (.dateTime millis) ∧
          millis.toInt * 1000000 = t.toNanos := by
  simp only [get_instant_eq_ok_iff stored, get_zoned_eq_ok_iff stored]
  refine ⟨?_, ?_, ?_, ?_⟩
  · rw [get_instant_of_stored stored, get_zoned_of_stored stored]
    cases coerced : Coercion.instant? v with
    | none => exact .inr ⟨rfl, rfl⟩
    | some t => exact .inl ⟨t, rfl, ⟨t, rfl, rfl⟩, Coercion.toNanos_of_instant? coerced⟩
  · intro millis held
    rw [Coercion.instant?_millis held]
    exact ⟨Instant.exists_ofMillis?_iff_year, fun t inRange =>
      (Instant.ofMillis?_eq_some_iff.mp inRange).1⟩
  · rintro text rfl
    refine ⟨Coercion.exists_instant?_string_iff, fun t z coerced written => ?_⟩
    rw [Coercion.instant?_string written, Instant.ofMillis?_eq_some_iff,
      Instant.toMillis_eq] at coerced
    exact coerced.1
  · rintro t z coerced ⟨t', coerced', rfl⟩ b w given accepted
    obtain rfl := Option.some.inj (coerced'.symm.trans coerced)
    obtain ⟨whole, -⟩ := Coercion.toNanos_of_instant? coerced
    -- both forms have the same milliseconds
    have isStored : (b.write w).builder.value? w.name = some (.dateTime t'.epochMillis) := by
      rcases given with date | zoned
      · exact Builder.write_temporal_value? date accepted
      · exact Builder.write_temporal_value? zoned accepted
    refine ⟨_, isStored, ?_⟩
    rw [Instant.toInt_epochMillis, Instant.toMillis_eq]
    omega

/-- A text with an offset, a tenth of a millisecond before 1970. -/
theorem instant_reads_agree_early :
    let b := (Builder.start none {}).run [.named "at" (.string "1970-01-01T00:59:59.9999+01:00")]
    let r : Record := ⟨b.schema, b.staged⟩
    b.build = .ok r ∧ r.value? "at" = some (.string "1970-01-01T00:59:59.9999+01:00") ∧
      ∃ t, r.get .instant "at" = .ok (some t) ∧ r.get .zoned "at" = .ok (some ⟨t, 0⟩) ∧
        t.toNanos = -1000000 ∧
        (b.write (.named "copy" (.dateTime (.zoned ⟨t, 0⟩)))).builder.value? "copy" =
          some (.dateTime (-1)) := by
  intro b r
  have stored : r.value? "at" = some (.string "1970-01-01T00:59:59.9999+01:00") := rfl
  have instant : r.get .instant "at" =
      .ok (some ⟨-1, 999000000, by decide, by decide, by decide⟩) := rfl
  have zoned : r.get .zoned "at" =
      .ok (some ⟨⟨-1, 999000000, by decide, by decide, by decide⟩, 0⟩) := rfl
  obtain ⟨-, -, -, writesBack⟩ := instant_reads_agree stored
  obtain ⟨millis, isStored, exact⟩ := writesBack _ _ instant zoned b
    (.named "copy" (.dateTime (.zoned _))) (.inr rfl) rfl
  have same : millis = -1 := Int64.toInt_inj.mp (by
    have early : millis.toInt * 1000000 = -1000000 := exact.trans rfl
    have one : (-1 : Int64).toInt = -1 := rfl
    omega)
  exact ⟨rfl, stored, _, instant, zoned, rfl, same ▸ isStored⟩

end Record

end TypedRecords
