import TypedRecords.Proofs.Schema.Equality
import TypedRecords.Value.Input

/-! Values compared with themselves. A value differs from itself exactly if there is something in it
that is no number, at whatever depth. -/
namespace TypedRecords

mutual

def Value.hasNaN : Value → Bool
  | .float x => x.isNaN
  | .double x => x.isNaN
  | .array items => itemsHaveNaN items
  | .record r => r.hasNaN
  | _ => false

def Record.hasNaN : Record → Bool
  | ⟨_, values⟩ => valuesHaveNaN values

def itemsHaveNaN : List Value → Bool
  | [] => false
  | v :: vs => v.hasNaN || itemsHaveNaN vs

def valuesHaveNaN : List (String × Value) → Bool
  | [] => false
  | (_, v) :: vs => v.hasNaN || valuesHaveNaN vs

end

def FieldInput.hasNaN : FieldInput → Bool
  | .value v => v.hasNaN
  | _ => false

theorem Floating.equal_self {format : FloatFormat} (x : Floating format) :
    x.equal x = !x.isNaN := by
  simp [equal]

theorem byteArray_beq_self (data : ByteArray) : (data == data) = true := by
  change (data.data == data.data) = true
  exact beq_self_eq_true data.data

theorem Schema.beq_self (schema : Schema) : (schema == schema) = true :=
  Schema.beq_equivalence.refl schema

mutual

theorem Value.same_self : ∀ v : Value, v.same v = !v.hasNaN
  | .float x | .double x => by simp [Value.same, Value.hasNaN, Floating.equal_self]
  | .array items => by simp [Value.same, Value.hasNaN, sameItems_self items]
  | .record r => by simp [Value.same, Value.hasNaN, Record.same_self r]
  | .string _ | .bytes _ | .int _ | .long _ | .boolean _ | .dateTime _ => by
    simp [Value.same, Value.hasNaN, byteArray_beq_self]

theorem Record.same_self : ∀ r : Record, r.same r = !r.hasNaN
  | ⟨schema, values⟩ => by
    simp [Record.same, Record.hasNaN, schema.beq_self, sameValues_self values]

theorem sameItems_self : ∀ vs : List Value, sameItems vs vs = !itemsHaveNaN vs
  | [] => by simp [sameItems, itemsHaveNaN]
  | v :: vs => by simp [sameItems, itemsHaveNaN, Value.same_self v, sameItems_self vs]

theorem sameValues_self : ∀ vs : List (String × Value), sameValues vs vs = !valuesHaveNaN vs
  | [] => by simp [sameValues, valuesHaveNaN]
  | (_, v) :: vs => by
    simp [sameValues, valuesHaveNaN, Value.same_self v, sameValues_self vs]

end

/-- Under equal schemas the values decide. -/
theorem Record.beq_eq_sameValues {r s : Record} (same : (r.schema == s.schema) = true) :
    (r == s) = sameValues r.values s.values := by
  change r.same s = _
  cases r
  dsimp only at same ⊢
  rw [Record.same, same, Bool.true_and]

/-- Values without such parts are compared by what they are, so that the schemas decide. -/
theorem Record.beq_of_schema {schema other : Schema} (same : (schema == other) = true)
    {values : List (String × Value)} (numbers : valuesHaveNaN values = false) :
    ((⟨schema, values⟩ : Record) == ⟨other, values⟩) = true := by
  rw [Record.beq_eq_sameValues same, sameValues_self, numbers]
  rfl

theorem valuesHaveNaN_eq_false_iff {vs : List (String × Value)} :
    valuesHaveNaN vs = false ↔ ∀ pair ∈ vs, pair.2.hasNaN = false := by
  induction vs with
  | nil => simp [valuesHaveNaN]
  | cons pair vs ih =>
    obtain ⟨name, v⟩ := pair
    simp [valuesHaveNaN, ih]

end TypedRecords
