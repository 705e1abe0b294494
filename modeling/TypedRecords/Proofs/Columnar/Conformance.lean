import TypedRecords.Proofs.Columnar.Encoding

/-! When records become a batch, and which error stops them. Conformance is a condition on each
value by itself; the error that counts belongs to the first field with a value that does not
conform, there to the first such record, and inside of its value to the leftmost violation. -/
namespace TypedRecords

mutual

/-- An optional value belongs into a column of the type. Timestamps are also taken from longs. -/
def ColumnType.Conforms : ColumnType → Option Value → Prop
  | _, none => True
  | .cells type, some v => type.Takes v
  | .list ⟨_, type, _, _⟩, some v =>
    ∃ items, v = .array items ∧ ∀ item ∈ items, ColumnType.Conforms type (some item)
  | .struct fields, some v => ∃ r, v = .record r ∧ fieldsConform fields r

def fieldsConform : List Field → Record → Prop
  | [], _ => True
  | ⟨name, type, nullable, _⟩ :: fields, r =>
    (((r.value? name).isSome = true ∨ nullable = true) ∧ ColumnType.Conforms type (r.value? name)) ∧
      fieldsConform fields r

end

def Field.Conforms (field : Field) (slot : Option Value) : Prop :=
  (slot.isSome = true ∨ field.nullable = true) ∧ field.type.Conforms slot

mutual

/-- The leftmost violation in a slot, by the error for it. What precedes it conforms. -/
inductive ColumnType.FirstViolation (column : String) :
    ColumnType → Option Value → ColumnarError → Prop
  | cell {type : CellType} {v : Value} (other : ¬ type.Takes v) :
      ColumnType.FirstViolation column (.cells type) (some v)
        (.valueType column type.variantName v.variantName)
  | notArray {item : Field} {v : Value} (other : ∀ items, v ≠ .array items) :
      ColumnType.FirstViolation column (.list item) (some v)
        (.valueType column "Array" v.variantName)
  | item {item : Field} {before after : List Value} {v : Value} {error : ColumnarError}
      (conform : ∀ w ∈ before, item.type.Conforms (some w))
      (violation : ColumnType.FirstViolation column item.type (some v) error) :
      ColumnType.FirstViolation column (.list item) (some (.array (before ++ v :: after))) error
  | notRecord {fields : List Field} {v : Value} (other : ∀ r, v ≠ .record r) :
      ColumnType.FirstViolation column (.struct fields) (some v)
        (.valueType column "Record" v.variantName)
  | field {before after : List Field} {field : Field} {r : Record} {error : ColumnarError}
      (conform : ∀ f ∈ before, f.Conforms (r.value? f.name))
      (violation : Field.FirstViolation column field (r.value? field.name) error) :
      ColumnType.FirstViolation column (.struct (before ++ field :: after)) (some (.record r)) error

inductive Field.FirstViolation (column : String) : Field → Option Value → ColumnarError → Prop
  | missing {field : Field} (required : field.nullable = false) :
      Field.FirstViolation column field none (.valueType column field.type.variantName "Null")
  | value {field : Field} {slot : Option Value} {error : ColumnarError}
      (violation : ColumnType.FirstViolation column field.type slot error) :
      Field.FirstViolation column field slot error

end

theorem fieldsConform_iff (fields : List Field) (r : Record) :
    fieldsConform fields r ↔ ∀ field ∈ fields, field.Conforms (r.value? field.name) := by
  induction fields with
  | nil => simp [fieldsConform]
  | cons field fields ih =>
    obtain ⟨name, type, nullable, metadata⟩ := field
    simp [fieldsConform, ih, Field.Conforms]

theorem fieldsFaults_eq_flatMap (column : String) (fields : List Field) (r : Record) :
    fieldsFaults column fields r =
      fields.flatMap fun field => field.faults column (r.value? field.name) := by
  induction fields with
  | nil => rfl
  | cons field fields ih =>
    obtain ⟨name, type, nullable, metadata⟩ := field
    simp [fieldsFaults, ih, Field.faults]

theorem Field.absence_eq_nil_iff (column : String) (field : Field) (slot : Option Value) :
    field.absence column slot = [] ↔ slot.isSome = true ∨ field.nullable = true := by
  cases slot <;> simp [absence]

mutual

/-- Conformance is the absence of faults, whatever the column is called. -/
theorem ColumnType.faults_eq_nil_iff (column : String) : ∀ (type : ColumnType)
    (slot : Option Value), type.faults column slot = [] ↔ type.Conforms slot
  | _, none => by simp [ColumnType.faults, ColumnType.Conforms]
  | .cells type, some v => by simp [ColumnType.faults, ColumnType.Conforms]
  | .list ⟨_, type, _, _⟩, some v => by
    cases v with
    | array items =>
      simp only [ColumnType.faults, ColumnType.Conforms, List.flatMap_eq_nil_iff,
        ColumnType.faults_eq_nil_iff column type]
      simp
    | _ => simp [ColumnType.faults, ColumnType.Conforms]
  | .struct fields, some v => by
    cases v with
    | record r =>
      simp only [ColumnType.faults, ColumnType.Conforms, fieldsFaults_eq_nil_iff column fields]
      simp
    | _ => simp [ColumnType.faults, ColumnType.Conforms]

theorem fieldsFaults_eq_nil_iff (column : String) : ∀ (fields : List Field) (r : Record),
    fieldsFaults column fields r = [] ↔ fieldsConform fields r
  | [], _ => by simp [fieldsFaults, fieldsConform]
  | ⟨name, type, nullable, metadata⟩ :: fields, r => by
    simp only [fieldsFaults, fieldsConform, List.append_eq_nil_iff, Field.absence_eq_nil_iff,
      ColumnType.faults_eq_nil_iff column type, fieldsFaults_eq_nil_iff column fields]

end

theorem Field.faults_eq_nil_iff (column : String) (field : Field) (slot : Option Value) :
    field.faults column slot = [] ↔ field.Conforms slot := by
  rw [faults, List.append_eq_nil_iff, absence_eq_nil_iff, field.type.faults_eq_nil_iff]
  rfl

instance (type : ColumnType) (slot : Option Value) : Decidable (type.Conforms slot) :=
  decidable_of_iff _ (type.faults_eq_nil_iff "" slot)

instance (field : Field) (slot : Option Value) : Decidable (field.Conforms slot) :=
  inferInstanceAs (Decidable (_ ∧ _))

/-- The first of the faults of some things is the first fault of the first thing that has one. -/
theorem head?_flatMap_eq_some_iff {α β : Type} {faults : α → List β} {Clean Faulty : α → Prop}
    {fault : β} (xs : List α) (clean : ∀ x, faults x = [] ↔ Clean x)
    (faulty : ∀ x ∈ xs, (faults x).head? = some fault ↔ Faulty x) :
    (xs.flatMap faults).head? = some fault ↔
      ∃ before x after, xs = before ++ x :: after ∧ (∀ y ∈ before, Clean y) ∧ Faulty x := by
  rw [List.head?_flatMap, List.findSome?_eq_some_iff]
  constructor
  · rintro ⟨before, x, after, rfl, found, none_before⟩
    have clean_before : ∀ y ∈ before, Clean y := by
      intro y member
      exact (clean y).mp (List.head?_eq_none_iff.mp (none_before y member))
    exact ⟨before, x, after, rfl, clean_before, (faulty x (by simp)).mp found⟩
  · rintro ⟨before, x, after, rfl, clean_before, found⟩
    have none_before : ∀ y ∈ before, (faults y).head? = none := by
      intro y member
      exact List.head?_eq_none_iff.mpr ((clean y).mpr (clean_before y member))
    exact ⟨before, x, after, rfl, (faulty x (by simp)).mpr found, none_before⟩

theorem ColumnType.not_firstViolation_none {column : String} {type : ColumnType}
    {error : ColumnarError} : ¬ type.FirstViolation column none error := by
  rintro ⟨⟩

/-- A missing value is the only violation that a field adds to those of its type. -/
theorem Field.head?_faults_of_type {column : String} {field : Field} {slot : Option Value}
    {error : ColumnarError} (inside : (field.type.faults column slot).head? = some error ↔
      field.type.FirstViolation column slot error) :
    (field.faults column slot).head? = some error ↔ field.FirstViolation column slot error := by
  rw [faults, List.head?_append, Option.or_eq_some_iff, inside, List.head?_eq_none_iff,
    absence_eq_nil_iff]
  constructor
  · rintro (missing | ⟨-, violation⟩)
    · cases slot with
      | none =>
        cases required : field.nullable <;> simp [absence, required] at missing
        exact missing ▸ .missing required
      | some v => simp [absence] at missing
    · exact .value violation
  · rintro (required | violation)
    · simp [absence, required]
    · cases slot with
      | none => exact absurd violation ColumnType.not_firstViolation_none
      | some v => exact .inr ⟨.inl rfl, violation⟩

mutual

/-- The first fault of a slot is its leftmost violation. -/
theorem ColumnType.head?_faults_iff {column : String} {error : ColumnarError} :
    ∀ (type : ColumnType) (slot : Option Value),
      (type.faults column slot).head? = some error ↔ type.FirstViolation column slot error
  | _, none => by simp [ColumnType.faults, ColumnType.not_firstViolation_none]
  | .cells type, some v => by
    constructor
    · intro first
      by_cases taken : type.Takes v
      · simp [ColumnType.faults, taken] at first
      · simp only [ColumnType.faults, taken, if_false, List.head?_cons, Option.some.injEq] at first
        exact first ▸ .cell taken
    · rintro ⟨other⟩
      simp [ColumnType.faults, other, Value.typeError]
  | .list ⟨name, type, nullable, metadata⟩, some v => by
    cases v with
    | array items =>
      have among := head?_flatMap_eq_some_iff items
        (fun w => type.faults_eq_nil_iff column (some w))
        (fun w _ => @ColumnType.head?_faults_iff column error type (some w))
      constructor
      · intro first
        obtain ⟨before, w, after, rfl, conform, violation⟩ := among.mp first
        exact .item conform violation
      · intro violation
        cases violation with
        | notArray other => exact absurd rfl (other items)
        | item conform violation => exact among.mpr ⟨_, _, _, rfl, conform, violation⟩
    | _ =>
      constructor
      · intro first
        simp only [ColumnType.faults, List.head?_cons, Option.some.injEq] at first
        exact first ▸ .notArray (by simp)
      · rintro ⟨⟩
        rfl
  | .struct fields, some v => by
    cases v with
    | record r =>
      have inside := @Field.head?_faults_iff column error fields
      have among := head?_flatMap_eq_some_iff fields
        (fun field => field.faults_eq_nil_iff column (r.value? field.name))
        (fun field member => inside field member (r.value? field.name))
      rw [ColumnType.faults, fieldsFaults_eq_flatMap]
      constructor
      · intro first
        obtain ⟨before, field, after, rfl, conform, violation⟩ := among.mp first
        exact .field conform violation
      · intro violation
        cases violation with
        | notRecord other => exact absurd rfl (other r)
        | field conform violation => exact among.mpr ⟨_, _, _, rfl, conform, violation⟩
    | _ =>
      constructor
      · intro first
        simp only [ColumnType.faults, List.head?_cons, Option.some.injEq] at first
        exact first ▸ .notRecord (by simp)
      · rintro ⟨⟩
        rfl

theorem Field.head?_faults_iff {column : String} {error : ColumnarError} :
    ∀ (fields : List Field), ∀ field ∈ fields, ∀ slot : Option Value,
      (field.faults column slot).head? = some error ↔ field.FirstViolation column slot error
  | [], _, member, _ => absurd member List.not_mem_nil
  | ⟨name, type, nullable, metadata⟩ :: fields, field, member, slot => by
    rcases List.mem_cons.mp member with rfl | later
    · exact Field.head?_faults_of_type (ColumnType.head?_faults_iff type slot)
    · exact Field.head?_faults_iff fields field later slot

end

/-- The first violation of some records: no earlier field has one, the field has none in an earlier
record, and errors name the field. -/
def Layout.FirstViolation (layout : Layout) (records : List Record) (error : ColumnarError) :
    Prop :=
  ∃ before field after, layout.fields = before ++ field :: after ∧
    (∀ f ∈ before, ∀ s ∈ records, f.Conforms (s.value? f.name)) ∧
    ∃ earlier r later, records = earlier ++ r :: later ∧
      (∀ s ∈ earlier, field.Conforms (s.value? field.name)) ∧
      field.FirstViolation field.name (r.value? field.name) error

theorem Field.faults_all_eq_nil_iff (field : Field) (records : List Record) :
    (records.flatMap fun r => field.faults field.name (r.value? field.name)) = [] ↔
      ∀ r ∈ records, field.Conforms (r.value? field.name) := by
  simp only [List.flatMap_eq_nil_iff, Field.faults_eq_nil_iff]

theorem Layout.faults_eq_nil_iff (layout : Layout) (records : List Record) :
    layout.faults records = [] ↔
      ∀ field ∈ layout.fields, ∀ r ∈ records, field.Conforms (r.value? field.name) := by
  rw [faults, List.flatMap_eq_nil_iff]
  exact forall₂_congr fun field _ => field.faults_all_eq_nil_iff records

/-- The outer loop is over the fields and the inner one over the records. -/
theorem Layout.head?_faults_iff (layout : Layout) (records : List Record)
    (error : ColumnarError) :
    (layout.faults records).head? = some error ↔ layout.FirstViolation records error := by
  refine head?_flatMap_eq_some_iff layout.fields
    (fun field => field.faults_all_eq_nil_iff records) fun field member => ?_
  refine head?_flatMap_eq_some_iff records
    (fun r => field.faults_eq_nil_iff field.name (r.value? field.name)) fun r _ => ?_
  exact Field.head?_faults_iff layout.fields field member (r.value? field.name)

/-- Where every demand is met, records become a batch exactly if the schema has a layout and every
value conforms to its field. The error is that of the schema, or else the one for the first
violation, field by field and then record by record. -/
theorem Batch.ofRecords_outcome (schema : Schema) (records : List Record) :
    ((∃ batch, Batch.ofRecords schema records = .ok batch) ↔
      ∃ layout, schema.layout = .ok layout ∧
        ∀ field ∈ layout.fields, ∀ r ∈ records, field.Conforms (r.value? field.name)) ∧
    ∀ error, Batch.ofRecords schema records = .error error ↔
      schema.layout = .error error ∨
        ∃ layout, schema.layout = .ok layout ∧ layout.FirstViolation records error := by
  cases valid : schema.layout with
  | error invalid => simp [ofRecords_of_error valid]
  | ok layout =>
    rw [ofRecords_of_layout valid]
    simp only [report_eq_ok_iff, report_eq_error_iff, layout.faults_eq_nil_iff,
      layout.head?_faults_iff]
    simp

/-- A violation in the first field counts, although the second field has one in an earlier
record. -/
example :
    let schema : Schema :=
      { type := .record
        entries := [
          { name := "a", type := .int, nullable := true }, { name := "b", type := .int }] }
    Batch.ofRecords schema [⟨schema, []⟩, ⟨schema, [("a", .long 1), ("b", .int 2)]⟩] =
      .error (.valueType "a" "Int" "Long") := rfl

end TypedRecords
