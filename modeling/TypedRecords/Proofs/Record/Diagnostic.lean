import TypedRecords.Proofs.Builder.Soundness
import TypedRecords.Proofs.Builder.Typing
import TypedRecords.Proofs.Calendar.Rendering
import TypedRecords.Proofs.Floating.Widening
import TypedRecords.Proofs.Value.Equality
import TypedRecords.Record.Diagnostic

/-! What the JSON of a record keeps. The JSON of a value does not tell its type, since bytes and an
array of integers look the same there. But over a declared schema the type of each field is known,
and within one type nothing of a finite scalar is lost. -/
namespace TypedRecords

section Bytes

/-- Bytes are listed from an index on, with those before it in reverse. -/
theorem bytesFrom_eq (data : ByteArray) (i : Nat) (before : List UInt8) :
    ByteArray.toList.loop data i before = before.reverse ++ data.data.toList.drop i := by
  fun_induction ByteArray.toList.loop data i before with
  | case1 i before inside ih =>
    have isByte : data.data.toList.drop i = data.get! i :: data.data.toList.drop (i + 1) := by
      have inList : i < data.data.toList.length := by simpa using inside
      rw [List.drop_eq_getElem_cons inList]
      simp [ByteArray.get!, inside]
    simp [ih, isByte]
  | case2 i before outside =>
    have none : data.data.toList.drop i = [] :=
      List.drop_eq_nil_of_le (by simpa using Nat.le_of_not_lt outside)
    simp [none]

theorem byteArray_beq_eq (a b : ByteArray) : (a == b) = (a.toList == b.toList) := by
  have list (data : ByteArray) : data.toList = data.data.toList := by
    simp [ByteArray.toList, bytesFrom_eq]
  change (a.data == b.data) = _
  rw [list, list, Bool.eq_iff_iff, beq_iff_eq, beq_iff_eq, Array.toList_inj]

end Bytes

namespace Json

theorem sameItems_bytes (a b : List UInt8) :
    sameItems (a.map fun byte => .integer byte.toNat) (b.map fun byte => .integer byte.toNat) =
      (a == b) := by
  induction a generalizing b with
  | nil => cases b <;> rfl
  | cons x a ih =>
    cases b with
    | nil => rfl
    | cons y b =>
      have byte : ((x.toNat : Int) == y.toNat) = (x == y) := by
        rw [Bool.eq_iff_iff, beq_iff_eq, beq_iff_eq, Int.natCast_inj, UInt8.toNat_inj]
      rw [List.map_cons, List.map_cons, sameItems, same, ih, List.cons_beq_cons, byte]

theorem same_ofDouble {x y : Double} (left : x.isFinite = true) (right : y.isFinite = true) :
    (ofDouble x).same (ofDouble y) = x.equal y := by
  simp [ofDouble, left, right, same]

end Json

/-- Milliseconds that have a text are read off it. -/
theorem Coercion.millisText?_inj {a b : Int64} {text : String} (left : millisText? a = some text)
    (right : millisText? b = some text) : a = b := by
  obtain ⟨t, isInstant, rendered⟩ := Option.map_eq_some_iff.mp left
  obtain ⟨t', isInstant', rendered'⟩ := Option.map_eq_some_iff.mp right
  obtain ⟨nanos, inSecond⟩ := Instant.ofMillis?_eq_some_iff.mp isInstant
  obtain ⟨nanos', inSecond'⟩ := Instant.ofMillis?_eq_some_iff.mp isInstant'
  have same : t = t' := Rfc3339.render_inj (by unfold Instant.toNanos at nanos; omega)
    (by unfold Instant.toNanos at nanos'; omega) inSecond inSecond' (rendered.trans rendered'.symm)
  rw [← Instant.epochMillis_of_ofMillis? isInstant, same,
    Instant.epochMillis_of_ofMillis? isInstant']

namespace Value

/-- Instants that have a text are not confused with each other, and the rest are numbers. -/
theorem dateTime_toJson_same (a b : Int64) :
    (dateTime a).toJson.same (dateTime b).toJson = (a == b) := by
  rw [Bool.eq_iff_iff, beq_iff_eq]
  constructor
  · intro same
    simp only [toJson] at same
    cases left : Coercion.millisText? a with
    | some text =>
      cases right : Coercion.millisText? b with
      | some text' =>
        simp only [left, right, Json.same, beq_iff_eq] at same
        exact Coercion.millisText?_inj left (same ▸ right)
      | none => simp [left, right, Json.same] at same
    | none =>
      cases right : Coercion.millisText? b with
      | some text' => simp [left, right, Json.same] at same
      | none =>
        simp only [left, right, Json.same, beq_iff_eq] at same
        exact Int64.toInt_inj.mp same
  · rintro rfl
    simp only [toJson]
    cases Coercion.millisText? a <;> simp [Json.same]

def isFinite : Value → Bool
  | float x => x.isFinite
  | double x => x.isFinite
  | _ => true

/-- No finite value is written as null. -/
theorem toJson_ne_null {v : Value} (finite : v.isFinite = true) : v.toJson ≠ .null := by
  cases v with
  | float x =>
    have stays : (x.convert : Double).isFinite = true := (Floating.isFinite_widen x).trans finite
    simp [toJson, Json.ofDouble, stays]
  | double x =>
    have isFinite : x.isFinite = true := finite
    simp [toJson, Json.ofDouble, isFinite]
  | dateTime millis =>
    simp only [toJson]
    split <;> nofun
  | record r =>
    cases r
    simp [toJson, Record.toJson]
  | string | bytes | int | long | boolean | array => simp [toJson]

/-- Within one type the JSON of a value keeps what the value is compared by. -/
theorem toJson_same {v w : Value} (type : v.type = w.type)
    (scalar : v.type.isPrimitive = true) (left : v.isFinite = true) (right : w.isFinite = true) :
    v.toJson.same w.toJson = v.same w := by
  cases v <;> cases w <;> cases type
  case array | record => cases scalar
  all_goals simp only [Value.same]
  case string | boolean => simp only [toJson, Json.same]
  case dateTime a b => exact dateTime_toJson_same a b
  case double x y =>
    simp only [toJson]
    exact Json.same_ofDouble left right
  case float x y =>
    simp only [toJson]
    rw [Json.same_ofDouble ((Floating.isFinite_widen x).trans left)
      ((Floating.isFinite_widen y).trans right), Bool.eq_iff_iff]
    exact Floating.equal_widen_iff left right
  case bytes a b =>
    rw [byteArray_beq_eq, toJson, toJson, Json.same]
    exact Json.sameItems_bytes _ _
  case int a b =>
    rw [toJson, toJson, Json.same, Bool.eq_iff_iff, beq_iff_eq, beq_iff_eq, Int32.toInt_inj]
  case long a b =>
    rw [toJson, toJson, Json.same, Bool.eq_iff_iff, beq_iff_eq, beq_iff_eq, Int64.toInt_inj]

end Value

section Members

variable {vs ws : List (String × Value)}

/-- Members are written in the order of the values, so that they are compared pair by pair. -/
theorem sameMembers_valuesToJson (agree : ∀ name v w, (name, v) ∈ vs → (name, w) ∈ ws →
    v.toJson.same w.toJson = v.same w) :
    Json.sameMembers (valuesToJson vs) (valuesToJson ws) = sameValues vs ws := by
  induction vs generalizing ws with
  | nil => cases ws <;> simp [valuesToJson, Json.sameMembers, sameValues]
  | cons pair vs ih =>
    obtain ⟨name, v⟩ := pair
    cases ws with
    | nil => simp [valuesToJson, Json.sameMembers, sameValues]
    | cons pair ws =>
      obtain ⟨other, w⟩ := pair
      have later := @ih ws fun name v w left right =>
        agree name v w (List.mem_cons_of_mem _ left) (List.mem_cons_of_mem _ right)
      rw [valuesToJson, valuesToJson, Json.sameMembers, sameValues, later]
      by_cases named : name = other
      · subst named
        rw [agree name v w List.mem_cons_self List.mem_cons_self]
      · simp only [beq_eq_false_iff_ne.mpr named, Bool.false_and]

/-- Equal values have the same names, and equal values at each. -/
theorem find?_beq_of_sameValues (same : sameValues vs ws = true) (name : String) :
    (NameMap.find? name vs == NameMap.find? name ws) = true := by
  induction vs generalizing ws with
  | nil =>
    cases ws with
    | nil => rfl
    | cons pair ws =>
      cases pair
      simp [sameValues] at same
  | cons pair vs ih =>
    cases ws with
    | nil =>
      cases pair
      simp [sameValues] at same
    | cons pair' ws =>
      obtain ⟨key, v⟩ := pair
      obtain ⟨other, w⟩ := pair'
      simp only [sameValues, Bool.and_eq_true, beq_iff_eq] at same
      obtain ⟨⟨rfl, here⟩, later⟩ := same
      simp only [NameMap.find?]
      split
      · exact here
      · exact ih later

end Members

namespace Builder

/-- What a builder over a schema finishes has the schema, and values of the types of its entries. -/
theorem typed_of_built {schema : Schema} {policy : Policy} {writes : List Write} {r : Record}
    (built : ((start (some schema) policy).run writes).build = .ok r) :
    r.schema = schema ∧ NameMap.Sorted r.values ∧ ∀ name v, r.value? name = some v →
      ∃ known, schema.lastEntry? name = some known ∧ v.type = known.type := by
  obtain ⟨-, rfl⟩ := build_eq_ok_iff.mp built
  exact ⟨schema_of_declared (by simp [start]), run_staged_sorted _ policy writes,
    run_typed schema policy writes⟩

end Builder

namespace Record

theorem toJson_beq (r s : Record) :
    (r.toJson == s.toJson) = Json.sameMembers (valuesToJson r.values) (valuesToJson s.values) := by
  change r.toJson.same s.toJson = _
  cases r
  cases s
  rw [toJson, toJson, Json.same]

def isFinite (r : Record) : Bool := r.values.all fun pair => pair.2.isFinite

theorem isFinite_of_value? {r : Record} (finite : r.isFinite = true) {name : String} {v : Value}
    (found : r.value? name = some v) : v.isFinite = true :=
  List.all_eq_true.mp finite (name, v) (NameMap.mem_of_find? found)

/-- Over a schema of scalars, whatever the policies and the writes, records whose numbers with a
point are finite are equal exactly if their JSON is. No absent field is confused with a value, for
no value is null; equal JSON has equal values under each name; and instants are told apart, be they
written as texts or as numbers. -/
theorem toJson_faithful {schema : Schema}
    (scalars : ∀ entry ∈ schema.entries, entry.type.isPrimitive = true)
    {policy policy' : Policy} {writes writes' : List Write} {r s : Record}
    (left : ((Builder.start (some schema) policy).run writes).build = .ok r)
    (right : ((Builder.start (some schema) policy').run writes').build = .ok s)
    (finite : r.isFinite = true) (finite' : s.isFinite = true) :
    (r.toJson == s.toJson) = (r == s) ∧
    (∀ name v, r.value? name = some v → v.toJson ≠ .null) ∧
    (∀ name v w, r.value? name = some v → s.value? name = some w →
      (v.toJson == w.toJson) = (v == w)) ∧
    ((r.toJson == s.toJson) = true → ∀ name, (r.value? name == s.value? name) = true) ∧
    ∀ a b : Int64, ((Value.dateTime a).toJson == (Value.dateTime b).toJson) = (a == b) := by
  obtain ⟨isSchema, sorted, typed⟩ := Builder.typed_of_built left
  obtain ⟨isSchema', sorted', typed'⟩ := Builder.typed_of_built right
  have agree (name : String) (v w : Value) (found : r.value? name = some v)
      (found' : s.value? name = some w) : v.toJson.same w.toJson = v.same w := by
    obtain ⟨known, isKnown, type⟩ := typed name v found
    obtain ⟨known', isKnown', type'⟩ := typed' name w found'
    -- one entry is declared for both values
    obtain rfl := Option.some.inj (isKnown.symm.trans isKnown')
    exact Value.toJson_same (type.trans type'.symm)
      (type ▸ scalars known (Schema.lastEntry?_some isKnown).1)
      (isFinite_of_value? finite found) (isFinite_of_value? finite' found')
  have json : (r.toJson == s.toJson) = sameValues r.values s.values := by
    rw [toJson_beq]
    exact sameMembers_valuesToJson fun name v w member member' =>
      agree name v w (sorted.find?_of_mem member) (sorted'.find?_of_mem member')
  have records : (r == s) = sameValues r.values s.values :=
    beq_eq_sameValues (by rw [isSchema, isSchema', Schema.beq_self])
  refine ⟨json.trans records.symm, fun name v found => ?_, agree, fun same => ?_,
    Value.dateTime_toJson_same⟩
  · exact Value.toJson_ne_null (isFinite_of_value? finite found)
  · exact find?_beq_of_sameValues (json ▸ same)

def ratios : SchemaDraft :=
  { entries :=
    [{ name := "at", type := .dateTime, nullable := true }, { name := "ratio", type := .float }] }

def ratioAt (millis : Int64) (ratio : Single) : Record :=
  ⟨{ type := .record, entries := ratios.entries },
    [("at", .dateTime millis), ("ratio", .float ratio)]⟩

/-- A null that is kept as an instant is this instant, and a zero is a zero with any sign. One
millisecond after the last instant that has a text there is another one. -/
theorem toJson_faithful_ratios :
    ∃ schema, ratios.freeze = .ok schema ∧
      let zero : Single := .ofBits 0
      let negative : Single := .ofBits 0x80000000
      ((Builder.start (some schema) .legacy).run
        [.namedNull "at" .dateTime, .named "ratio" (.float negative)]).build =
          .ok (ratioAt (-1) negative) ∧
      ((Builder.start (some schema) {}).run
        [.named "ratio" (.float zero), .named "at" (.timestamp (-1))]).build =
          .ok (ratioAt (-1) zero) ∧
      ((Builder.start (some schema) {}).run
        [.named "at" (.timestamp 8210266876800000), .named "ratio" (.float zero)]).build =
          .ok (ratioAt 8210266876800000 zero) ∧
      ((ratioAt (-1) negative).toJson == (ratioAt (-1) zero).toJson) = true ∧
      ((ratioAt (-1) zero).toJson == (ratioAt 8210266876800000 zero).toJson) = false := by
  have scalars : ∀ entry ∈ ratios.entries, entry.type.isPrimitive = true := by decide
  refine ⟨_, rfl, ?_⟩
  intro zero negative
  have null : ((Builder.start (some ⟨.record, ratios.entries, .empty⟩) .legacy).run
      [.namedNull "at" .dateTime, .named "ratio" (.float negative)]).build =
        .ok (ratioAt (-1) negative) := rfl
  have before : ((Builder.start (some ⟨.record, ratios.entries, .empty⟩) {}).run
      [.named "ratio" (.float zero), .named "at" (.timestamp (-1))]).build =
        .ok (ratioAt (-1) zero) := rfl
  have late : ((Builder.start (some ⟨.record, ratios.entries, .empty⟩) {}).run
      [.named "at" (.timestamp 8210266876800000), .named "ratio" (.float zero)]).build =
        .ok (ratioAt 8210266876800000 zero) := rfl
  refine ⟨null, before, late, ?_, ?_⟩
  · exact (toJson_faithful scalars null before rfl rfl).1.trans (by decide +kernel)
  · exact (toJson_faithful scalars before late rfl rfl).1.trans (by decide +kernel)

end Record

end TypedRecords
