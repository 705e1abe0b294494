import Mathlib.Algebra.Ring.Nat
import TypedRecords.Columnar.Batch

/-! Filled columns in closed form. A column that took some slots one after another is the encoding
of the list of these slots, and what stops the filling is the first of all their faults, listed
from left to right and outside in. -/
namespace TypedRecords

/-- A computation that lists its faults. The first one counts. -/
def report {ε α : Type} : List ε → α → Except ε α
  | [], a => .ok a
  | fault :: _, _ => .error fault

section Report

variable {ε α β γ : Type}

@[simp] theorem report_nil (a : α) : report ([] : List ε) a = .ok a := rfl

@[simp] theorem report_cons (fault : ε) (faults : List ε) (a : α) :
    report (fault :: faults) a = .error fault := rfl

theorem report_bind {faults later : List ε} {a : α} {next : α → Except ε β} {b : β}
    (rest : next a = report later b) : (report faults a >>= next) = report (faults ++ later) b := by
  cases faults with
  | nil => exact rest
  | cons fault faults => rfl

theorem report_map (faults : List ε) (a : α) (f : α → β) :
    (report faults a >>= fun a => .ok (f a)) = report faults (f a) := by
  cases faults <;> rfl

theorem report_eq_ok_iff {faults : List ε} {a b : α} :
    report faults a = .ok b ↔ faults = [] ∧ a = b := by
  cases faults <;> simp

theorem report_eq_error_iff {faults : List ε} {a : α} {error : ε} :
    report faults a = .error error ↔ faults.head? = some error := by
  cases faults <;> simp

end Report

section Filling

variable {α β γ : Type}

theorem foldlM_report {f : α → β → Filling α} {e : β → List ColumnarError} {g : List β → α}
    (each : ∀ seen x, (f (g seen) x).result = report (e x) (g (seen ++ [x]))) (xs seen : List β) :
    (xs.foldlM f (g seen)).result = report (xs.flatMap e) (g (seen ++ xs)) := by
  induction xs generalizing seen with
  | nil => simp
  | cons x xs ih =>
    rw [List.foldlM_cons, Filling.result_bind, each, List.flatMap_cons]
    exact report_bind (by simpa using ih (seen ++ [x]))

theorem mapM_report {f : β → Filling γ} {e : β → List ColumnarError} {g : β → γ}
    (each : ∀ x, (f x).result = report (e x) (g x)) (xs : List β) :
    (xs.mapM f).result = report (xs.flatMap e) (xs.map g) := by
  induction xs with
  | nil => simp
  | cons x xs ih =>
    simp only [List.mapM_cons, Filling.result_bind, Filling.result_pure, each, ih,
      List.flatMap_cons]
    exact report_bind (report_map ..)

end Filling

/-- A scalar belongs into a column that is filled from its kind. A long may stand for a
timestamp. -/
def CellType.Takes (type : CellType) (v : Value) : Prop :=
  v.variantName = type.variantName ∨ type = .timestamp ∧ v.variantName = "Long"

instance (type : CellType) (v : Value) : Decidable (type.Takes v) :=
  inferInstanceAs (Decidable (_ ∨ _))

theorem CellType.cell?_isSome_iff (type : CellType) (v : Value) :
    (type.cell? v).isSome = true ↔ type.Takes v := by
  cases type <;> cases v <;> simp [cell?, Takes, variantName, Value.variantName]

def Field.absence (column : String) (field : Field) (slot : Option Value) : List ColumnarError :=
  if slot.isNone && !field.nullable then [.valueType column field.type.variantName "Null"] else []

theorem Field.require_eq_report (column : String) (field : Field) (slot : Option Value) :
    field.require column slot = report (field.absence column slot) () := by
  unfold require absence
  split <;> rfl

mutual

def ColumnType.faults (column : String) : ColumnType → Option Value → List ColumnarError
  | _, none => []
  | .cells type, some v => if type.Takes v then [] else [v.typeError column type.variantName]
  | .list ⟨_, type, _, _⟩, some v =>
    match v with
    | .array items => items.flatMap fun item => ColumnType.faults column type (some item)
    | _ => [v.typeError column "Array"]
  | .struct fields, some v =>
    match v with
    | .record r => fieldsFaults column fields r
    | _ => [v.typeError column "Record"]

/-- The faults of the fields of a record. A value that is missing comes before the faults of the
next field. -/
def fieldsFaults (column : String) : List Field → Record → List ColumnarError
  | [], _ => []
  | ⟨name, type, nullable, metadata⟩ :: fields, r =>
    Field.absence column ⟨name, type, nullable, metadata⟩ (r.value? name) ++
      ColumnType.faults column type (r.value? name) ++ fieldsFaults column fields r

end

def Field.faults (column : String) (field : Field) (slot : Option Value) : List ColumnarError :=
  field.absence column slot ++ field.type.faults column slot

namespace Column

def itemsOf : Option Value → List Value
  | some (.array items) => items
  | _ => []

def fieldOf (name : String) : Option Value → Option Value
  | some (.record r) => r.value? name
  | _ => none

/-- Where each part begins and where the last one ends, if the first begins at `start`. -/
def offsets (start : Nat) : List Nat → List Nat
  | [] => [start]
  | length :: lengths => start :: offsets (start + length) lengths

mutual

def encode : ColumnType → List (Option Value) → Column
  | .cells type, slots => .cells type (slots.map fun slot => slot.bind type.cell?)
  | .list ⟨_, type, _, _⟩, slots =>
    .list (slots.map Option.isSome) (offsets 0 (slots.map fun slot => (itemsOf slot).length))
      (encode type ((slots.flatMap itemsOf).map some))
  | .struct fields, slots => .struct (slots.map Option.isSome) (encodeFields fields slots)

def encodeFields : List Field → List (Option Value) → List Column
  | [], _ => []
  | ⟨name, type, _, _⟩ :: fields, slots =>
    encode type (slots.map (fieldOf name)) :: encodeFields fields slots

end

mutual

theorem empty_encode : ∀ (capacity : Nat) (type : ColumnType),
    (empty capacity type).result = .ok (encode type [])
  | _, .cells _ => rfl
  | capacity, .list ⟨_, type, _, _⟩ => by
    simp [empty, encode, offsets, empty_encode (itemCapacity capacity) type, bind]
  | capacity, .struct fields => by
    simp [empty, encode, emptyFields_encode capacity fields, bind]

theorem emptyFields_encode : ∀ (capacity : Nat) (fields : List Field),
    (emptyFields capacity fields).result = .ok (encodeFields fields [])
  | _, [] => rfl
  | capacity, ⟨_, type, _, _⟩ :: fields => by
    simp [emptyFields, encodeFields, empty_encode capacity type, emptyFields_encode capacity fields,
      bind]

end

@[simp] theorem length_encode (type : ColumnType) (slots : List (Option Value)) :
    (encode type slots).length = slots.length := by
  cases type with
  | list item => cases item; simp [encode, length]
  | _ => simp [encode, length]

theorem offsets_concat (start last : Nat) (lengths : List Nat) :
    offsets start (lengths ++ [last]) =
      offsets start lengths ++ [start + lengths.sum + last] := by
  induction lengths generalizing start with
  | nil => rfl
  | cons length lengths ih =>
    simp only [List.cons_append, offsets, ih, List.sum_cons]
    rw [Nat.add_assoc start length]

theorem push_encode (type : CellType) (slot : Option Value) (slots : List (Option Value)) :
    (encode (.cells type) slots).push type (slot.bind type.cell?) =
      encode (.cells type) (slots ++ [slot]) := by
  simp [encode, push]

theorem cellOf_eq_report (column : String) (type : CellType) (slot : Option Value) :
    type.cellOf column slot =
      report ((ColumnType.cells type).faults column slot) (slot.bind type.cell?) := by
  cases slot with
  | none => rfl
  | some v =>
    have taken := type.cell?_isSome_iff v
    simp only [CellType.cellOf, ColumnType.faults, Option.bind_some]
    cases found : type.cell? v with
    | none => simp [← taken, found]
    | some cell => simp [← taken, found]

/-- A list that takes one more slot, of which the items are already in the column of items. -/
theorem encode_list_concat (item : Field) (slot : Option Value) (slots : List (Option Value)) :
    encode (.list item) (slots ++ [slot]) =
      .list (slots.map Option.isSome ++ [slot.isSome])
        (offsets 0 (slots.map fun slot => (itemsOf slot).length) ++
          [((slots.flatMap itemsOf).map some ++ (itemsOf slot).map some).length])
        (encode item.type ((slots.flatMap itemsOf).map some ++ (itemsOf slot).map some)) := by
  obtain ⟨_, type, _, _⟩ := item
  simp [encode, offsets_concat, List.length_flatMap]

mutual

/-- The column of the slots seen so far takes one slot more, or the first fault of this slot is the
error. -/
theorem append_encode (column : String) : ∀ (type : ColumnType) (slot : Option Value)
    (slots : List (Option Value)), (append column type slot (encode type slots)).result =
      report (type.faults column slot) (encode type (slots ++ [slot]))
  | .cells type, slot, slots => by
    rw [append, Filling.result_bind, Filling.result_lift, cellOf_eq_report, ← push_encode]
    exact report_map ..
  | .list ⟨itemName, type, nullable, metadata⟩, slot, slots => by
    rw [encode_list_concat]
    match slot with
    | none => simp [encode, append, ColumnType.faults, itemsOf]
    | some (.array items) =>
      have each (seen : List Value) (v : Value) :
          (append column type (some v) (encode type (seen.map some))).result =
            report (type.faults column (some v)) (encode type ((seen ++ [v]).map some)) := by
        simpa using append_encode column type (some v) (seen.map some)
      have filled := foldlM_report (f := fun held v => append column type (some v) held)
        (e := fun v => type.faults column (some v)) (g := fun seen => encode type (seen.map some))
        each items (slots.flatMap itemsOf)
      simp only [encode, append, ColumnType.faults, itemsOf, Filling.result_bind, filled,
        result_close]
      exact (report_map ..).trans (by simp)
    | some (.string _) | some (.bytes _) | some (.int _) | some (.long _) | some (.float _)
    | some (.double _) | some (.boolean _) | some (.dateTime _) | some (.record _) => rfl
  | .struct fields, slot, slots => by
    match slot with
    | none =>
      simp only [encode, append, ColumnType.faults, Filling.result_bind, Filling.result_pure]
      rw [appendNulls_encode]
      simp [bind, Except.bind]
    | some (.record r) =>
      simp only [encode, append, ColumnType.faults, Filling.result_bind, Filling.result_pure]
      rw [appendFields_encode]
      exact (report_map ..).trans (by simp)
    | some (.string _) | some (.bytes _) | some (.int _) | some (.long _) | some (.float _)
    | some (.double _) | some (.boolean _) | some (.dateTime _) | some (.array _) => rfl

theorem appendFields_encode (column : String) : ∀ (fields : List Field) (r : Record)
    (slots : List (Option Value)),
    (appendFields column fields r (encodeFields fields slots)).result =
      report (fieldsFaults column fields r) (encodeFields fields (slots ++ [some (.record r)]))
  | [], _, _ => rfl
  | ⟨name, type, nullable, metadata⟩ :: fields, r, slots => by
    have head := append_encode column type (r.value? name) (slots.map (fieldOf name))
    have tail := appendFields_encode column fields r slots
    simp only [appendFields, encodeFields, fieldsFaults, Filling.result_bind, Filling.result_lift,
      Filling.result_pure, Field.require_eq_report, head, tail, List.append_assoc]
    refine report_bind (report_bind ?_)
    rw [report_map]
    simp [fieldOf]

theorem appendNulls_encode (column : String) : ∀ (fields : List Field)
    (slots : List (Option Value)), (appendNulls column fields (encodeFields fields slots)).result =
      .ok (encodeFields fields (slots ++ [none]))
  | [], _ => rfl
  | ⟨name, type, nullable, metadata⟩ :: fields, slots => by
    have head := append_encode column type none (slots.map (fieldOf name))
    simp [appendNulls, encodeFields, head, appendNulls_encode column fields slots,
      ColumnType.faults, fieldOf, bind]

end

end Column

theorem Field.put_encode (field : Field) (seen : List Record) (r : Record) :
    (field.put (Column.encode field.type (seen.map fun r => r.value? field.name)) r).result =
      report (field.faults field.name (r.value? field.name))
        (Column.encode field.type ((seen ++ [r]).map fun r => r.value? field.name)) := by
  rw [put, Filling.result_bind, Filling.result_lift, Field.require_eq_report]
  refine report_bind ?_
  simpa using Column.append_encode field.name field.type (r.value? field.name)
    (seen.map fun r => r.value? field.name)

theorem Field.fill_eq_report (field : Field) (records : List Record) :
    (field.fill records).result =
      report (records.flatMap fun r => field.faults field.name (r.value? field.name))
        (Column.encode field.type (records.map fun r => r.value? field.name)) := by
  rw [fill, Filling.result_bind, Column.empty_encode]
  exact foldlM_report (f := field.put) field.put_encode records []

/-- Every fault of some records under a layout: field by field, of each field from the first record
to the last, and of each value from left to right. -/
def Layout.faults (layout : Layout) (records : List Record) : List ColumnarError :=
  layout.fields.flatMap fun field =>
    records.flatMap fun r => field.faults field.name (r.value? field.name)

def Layout.encode (layout : Layout) (records : List Record) : Batch where
  layout := layout
  rows := records.length
  columns := layout.fields.map fun field =>
    Column.encode field.type (records.map fun r => r.value? field.name)

theorem ofRecords_of_error {schema : Schema} {error : ColumnarError}
    (invalid : schema.layout = .error error) (records : List Record) :
    Batch.ofRecords schema records = .error error := by
  rw [Batch.ofRecords, Batch.fill, Filling.result_bind, Filling.result_lift, invalid]
  rfl

/-- A batch is the encoding of its records, or the first of their faults. -/
theorem ofRecords_of_layout {schema : Schema} {layout : Layout}
    (valid : schema.layout = .ok layout) (records : List Record) :
    Batch.ofRecords schema records = report (layout.faults records) (layout.encode records) := by
  have filled := mapM_report (fun field => Field.fill_eq_report field records) layout.fields
  rw [Batch.ofRecords, Batch.fill, Filling.result_bind, Filling.result_lift, valid]
  refine (Filling.result_bind ..).trans ?_
  exact (congrArg (· >>= _) filled).trans (report_map ..)

end TypedRecords
