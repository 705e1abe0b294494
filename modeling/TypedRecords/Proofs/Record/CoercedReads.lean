import TypedRecords.Proofs.Coercion.Narrowing
import TypedRecords.Proofs.Floating.Widening
import TypedRecords.Proofs.Record.Read

/-! Reads beside the coercer behind them. A value has its payload in itself or gets it from the
coercer. The coercions that are made by default give what the read asks for, and for a value that
needs none they give the payload that it has. -/
namespace TypedRecords

/-- The results of a coercion that can be read as a representation, by their kind. Instants are read
with an offset or without one, whichever was asked for. -/
def Representation.Takes : Representation → Coerced → Prop
  | string, c => ∃ text, c = .value (.string text)
  | bytes, c => ∃ data, c = .value (.bytes data)
  | int, c => ∃ n, c = .value (.int n)
  | long, c => ∃ n, c = .value (.long n) ∨ c = .value (.dateTime n)
  | float, c => ∃ x, c = .value (.float x)
  | double, c => ∃ x, c = .value (.double x)
  | boolean, c => ∃ b, c = .value (.boolean b)
  | instant, c | zoned, c => (∃ t, c = .instant t) ∨ ∃ z, c = .zoned z
  | array, c => ∃ items, c = .value (.array items)
  | record, c => ∃ r, c = .value (.record r)
  | value, c => ∃ v, c = .value v

/-- One payload. Single precision has one of all the patterns that are no number. -/
def Representation.Agree : (target : Representation) → target.Carrier → target.Carrier → Prop
  | float, x, y => x = y ∨ x.isNaN = true ∧ y.isNaN = true
  | _, x, y => x = y

theorem Coerced.exists_payload?_iff {target : Representation} {c : Coerced} :
    (∃ payload, Coerced.payload? target c = some payload) ↔ target.Takes c := by
  cases c with
  | value v =>
    cases target <;> cases v <;> simp [payload?, Representation.direct?, Representation.Takes]
  | instant t => cases target <;> simp [payload?, Representation.Takes]
  | zoned z => cases target <;> simp [payload?, Representation.Takes]

/-- What a coercer answers is read exactly if it is of a kind that is taken. -/
theorem Coerced.exists_bind_payload?_iff {target : Representation} {answer : Option Coerced} :
    (∃ payload, answer.bind (Coerced.payload? target) = some payload) ↔
      ∃ c, answer = some c ∧ target.Takes c := by
  simp only [Option.bind_eq_some_iff, ← Coerced.exists_payload?_iff]
  exact ⟨fun ⟨payload, c, given, read⟩ => ⟨c, given, payload, read⟩,
    fun ⟨c, given, payload, read⟩ => ⟨payload, c, given, read⟩⟩

namespace Coercion

variable {target : Representation} {v : Value} {c : Coerced}

/-- The coercions give what they are asked for. -/
theorem takes_of_standard (coerced : standard v target = some c) : target.Takes c := by
  cases target with
  | string | bytes | float | double | boolean =>
    obtain ⟨payload, -, rfl⟩ := Option.map_eq_some_iff.mp coerced
    exact ⟨_, rfl⟩
  | int =>
    obtain ⟨number, -, narrowed⟩ := Option.bind_eq_some_iff.mp coerced
    obtain ⟨n, -, rfl⟩ := Option.map_eq_some_iff.mp narrowed
    exact ⟨n, rfl⟩
  | long =>
    obtain ⟨number, -, narrowed⟩ := Option.bind_eq_some_iff.mp coerced
    obtain ⟨n, -, rfl⟩ := Option.map_eq_some_iff.mp narrowed
    exact ⟨n, .inl rfl⟩
  | instant =>
    obtain ⟨t, -, rfl⟩ := Option.map_eq_some_iff.mp coerced
    exact .inl ⟨t, rfl⟩
  | zoned =>
    obtain ⟨t, -, rfl⟩ := Option.map_eq_some_iff.mp coerced
    exact .inr ⟨.utc t, rfl⟩
  | value => exact ⟨v, (Option.some.inj coerced).symm⟩
  | array | record => cases coerced

theorem standard_int (n : Int32) : standard (.int n) .int = some (.value (.int n)) := by
  have lower := n.le_toInt
  have upper := n.toInt_lt
  have same : n.toInt64.toInt = n.toInt := n.toInt_toInt64
  rw [(narrowsTo_of_integer (v := .int n) rfl).int, Option.bind_some, same, if_pos (by omega),
    Int32.ofInt_toInt]

/-- A float is a number in double precision on its way. -/
theorem agree_float (x : Single) :
    Representation.Agree .float x (x.convert : Double).convert := by
  cases number : x.isNaN with
  | false => exact .inl (Floating.narrow_widen number).symm
  | true =>
    refine .inr ⟨number, ?_⟩
    have invalid : (x.convert : Double) = .nan := by simp [Floating.convert, number]
    rw [invalid]
    decide

/-- A value that is read directly is coerced to its own payload, if it is coerced at all. -/
theorem agree_of_standard (coerced : standard v target = some c) {direct payload : target.Carrier}
    (isDirect : target.direct? v = some direct) (read : Coerced.payload? target c = some payload) :
    target.Agree direct payload := by
  cases target with
  | string | long | double | value =>
    cases v <;> cases isDirect
    all_goals
      cases coerced
      cases read
      rfl
  | bytes | boolean | array | record =>
    cases v <;> cases isDirect
    cases coerced
  | instant | zoned => cases isDirect
  | int =>
    cases v with
    | int n =>
      cases (standard_int n).symm.trans coerced
      exact Option.some.inj (isDirect.symm.trans read)
    | _ => cases isDirect
  | float =>
    cases v with
    | float x =>
      cases isDirect
      cases coerced
      cases read
      exact agree_float _
    | _ => cases isDirect

end Coercion

namespace Record

/-- Reads of a stored value. What the coercions made by default produce can be read, so that a read
fails exactly for a value that neither is its own payload nor is coerced; where it is both, the two
payloads are one. With any other coercer a value is its own payload all the same, and else the read
succeeds exactly if the coercer's answer is of a kind that the representation takes. -/
theorem get_coherent {r : Record} {name : String} {v : Value} (stored : r.value? name = some v)
    (target : Representation) :
    (∀ c, Coercion.standard v target = some c →
      ∃ payload, Coerced.payload? target c = some payload) ∧
    (∀ error, r.get target name = .error error ↔ target.direct? v = none ∧
      Coercion.standard v target = none ∧ error = .noCoercion name v.variantName target.name) ∧
    (∀ c direct payload, Coercion.standard v target = some c → target.direct? v = some direct →
      Coerced.payload? target c = some payload → target.Agree direct payload) ∧
    ∀ coercer : Coercer,
      (∀ payload, target.direct? v = some payload →
        r.getWith coercer target name = .ok (some payload)) ∧
      (target.direct? v = none →
        ((∃ payload, r.getWith coercer target name = .ok (some payload)) ↔
          ∃ c, coercer v target = some c ∧ target.Takes c) ∧
        ((¬ ∃ c, coercer v target = some c ∧ target.Takes c) →
          r.getWith coercer target name =
            .error (.noCoercion name v.variantName target.name))) := by
  have readable : ∀ c, Coercion.standard v target = some c →
      ∃ payload, Coerced.payload? target c = some payload := fun c coerced =>
    Coerced.exists_payload?_iff.mpr (Coercion.takes_of_standard coerced)
  refine ⟨readable, fun error => ?_, fun c direct payload coerced isDirect read =>
    Coercion.agree_of_standard coerced isDirect read, fun coercer =>
    ⟨fun payload => getWith_of_direct stored coercer, fun indirect => ?_⟩⟩
  · unfold get
    cases direct : target.direct? v with
    | some payload => simp [getWith_of_direct stored Coercion.standard direct]
    | none =>
      rw [getWith_of_coerced stored Coercion.standard direct]
      cases coerced : Coercion.standard v target with
      | none => simp [eq_comm]
      | some c =>
        obtain ⟨payload, read⟩ := readable c coerced
        simp [read]
  · rw [getWith_of_coerced stored coercer indirect, ← Coerced.exists_bind_payload?_iff]
    cases (coercer v target).bind (Coerced.payload? target) <;> simp

def invalidFloat : Record :=
  ⟨{ type := .record }, [("x", .float (.ofBits 0x7FC00001))]⟩

/-- What is no number stays so under its own type and is no integer. A coercer that answers with the
start of 1970 whatever it is asked for is of use for instants only. -/
theorem get_coherent_invalidFloat :
    let start : Instant := ⟨0, 0, by decide, by decide, by decide⟩
    let coercer : Coercer := fun _ _ => some (.zoned (.utc start))
    invalidFloat.value? "x" = some (.float (.ofBits 0x7FC00001)) ∧
      (∃ x, Coercion.standard (.float (.ofBits 0x7FC00001)) .float = some (.value (.float x)) ∧
        Representation.Agree .float (.ofBits 0x7FC00001) x) ∧
      invalidFloat.get .int "x" = .error (.noCoercion "x" "Float" "Int") ∧
      invalidFloat.getWith coercer .float "x" = .ok (some (.ofBits 0x7FC00001)) ∧
      (∃ t, invalidFloat.getWith coercer .instant "x" = .ok (some t)) ∧
      invalidFloat.getWith coercer .long "x" = .error (.noCoercion "x" "Float" "Long") := by
  intro start coercer
  have stored : invalidFloat.value? "x" = some (.float (.ofBits 0x7FC00001)) := rfl
  refine ⟨stored, ⟨_, rfl, ?_⟩, ?_, ?_, ?_, ?_⟩
  · exact (get_coherent stored .float).2.2.1 _ _ _ rfl rfl rfl
  · exact ((get_coherent stored .int).2.1 _).mpr ⟨rfl, rfl, rfl⟩
  · exact ((get_coherent stored .float).2.2.2 coercer).1 _ rfl
  · exact (((get_coherent stored .instant).2.2.2 coercer).2 rfl).1.mpr ⟨_, rfl, .inr ⟨_, rfl⟩⟩
  · refine (((get_coherent stored .long).2.2.2 coercer).2 rfl).2 ?_
    rintro ⟨c, answer, n, kind⟩
    cases answer
    rcases kind with kind | kind <;> cases kind

end Record

end TypedRecords
