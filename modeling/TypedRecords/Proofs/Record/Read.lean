import TypedRecords.Record.Read

/-! The outcomes of a read. The payload that a value has in itself comes first, and only a value
without one depends on the coercer. No value has an instant in itself, so that both forms of an
instant are read through the one coercion that gives it. -/
namespace TypedRecords.Record

section Stored

variable {r : Record} {name : String} {v : Value} (stored : r.value? name = some v)

include stored

theorem getWith_of_direct (coercer : Coercer) {target : Representation} {payload : target.Carrier}
    (direct : target.direct? v = some payload) :
    r.getWith coercer target name = .ok (some payload) := by
  simp [getWith, stored, Value.readAs, direct, Except.map]

/-- Without a payload of its own the value depends on the coercer. -/
theorem getWith_of_coerced (coercer : Coercer) {target : Representation}
    (indirect : target.direct? v = none) : r.getWith coercer target name =
      match (coercer v target).bind (Coerced.payload? target) with
      | some payload => .ok (some payload)
      | none => .error (.noCoercion name v.variantName target.name) := by
  simp only [getWith, stored, Value.readAs, indirect, Option.none_or]
  cases (coercer v target).bind (Coerced.payload? target) <;> rfl

theorem get_instant_of_stored : r.get .instant name = match Coercion.instant? v with
    | some t => .ok (some t)
    | none => .error (.noCoercion name v.variantName "Instant") := by
  refine (getWith_of_coerced stored Coercion.standard rfl).trans ?_
  simp only [Coercion.standard]
  cases Coercion.instant? v <;> rfl

/-- The offset is none. -/
theorem get_zoned_of_stored : r.get .zoned name = match Coercion.instant? v with
    | some t => .ok (some ⟨t, 0⟩)
    | none => .error (.noCoercion name v.variantName "Zoned") := by
  refine (getWith_of_coerced stored Coercion.standard rfl).trans ?_
  simp only [Coercion.standard]
  cases Coercion.instant? v <;> rfl

theorem get_instant_eq_ok_iff {t : Instant} :
    r.get .instant name = .ok (some t) ↔ Coercion.instant? v = some t := by
  rw [get_instant_of_stored stored]
  cases Coercion.instant? v <;> simp

theorem get_zoned_eq_ok_iff {z : Zoned} :
    r.get .zoned name = .ok (some z) ↔ ∃ t, Coercion.instant? v = some t ∧ z = ⟨t, 0⟩ := by
  rw [get_zoned_of_stored stored]
  cases Coercion.instant? v <;> simp [eq_comm]

end Stored

theorem get_instant_iff {r : Record} {name : String} {t : Instant} :
    r.get .instant name = .ok (some t) ↔
      ∃ v, r.value? name = some v ∧ Coercion.instant? v = some t := by
  cases stored : r.value? name with
  | none => simp [get, getWith, stored]
  | some v => simp [get_instant_eq_ok_iff stored]

end TypedRecords.Record
