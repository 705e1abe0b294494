import TypedRecords.Proofs.Columnar.Layout
import TypedRecords.Proofs.Columnar.WellFormed

/-! Reading columns back. The columns of a batch are read by offsets and validity alone; what is
read in a slot is what its entry is to show of the record, at every depth. -/
namespace TypedRecords

inductive Datum where
  | null
  | scalar (v : Value)
  | list (items : List Datum)
  | struct (fields : List (String × Datum))

def CellType.value : (type : CellType) → type.Carrier → Value
  | .utf8, text => .string text
  | .int32, n => .int n
  | .int64, n => .long n
  | .float32, x => .float x
  | .float64, x => .double x
  | .boolean, b => .boolean b
  | .binary, data => .bytes data
  | .timestamp, millis => .dateTime millis

/-- The only value that is not shown as it is stored is a long that stands for a timestamp. -/
def FieldType.shown : FieldType → Value → Value
  | .dateTime, .long millis => .dateTime millis
  | _, v => v

mutual

def Entry.datum : Entry → Option Value → Datum
  | _, none => .null
  | ⟨_, _, type, _, element?, _, _⟩, some v =>
    match element?, v with
    | some element, .array items => .list (items.map fun item => Schema.datum element item)
    | some element, .record r => Schema.datum element (.record r)
    | _, v => .scalar (type.shown v)

/-- What the elements of a schema are to show: of a record the entries of the schema only. -/
def Schema.datum : Schema → Value → Datum
  | ⟨type, entries, _⟩, v =>
    match v with
    | .record r => .struct (entriesDatum entries r)
    | v => .scalar (type.shown v)

def entriesDatum : List Entry → Record → List (String × Datum)
  | [], _ => []
  | ⟨name, rawName?, type, nullable, element?, comment?, props⟩ :: entries, r =>
    (name, Entry.datum ⟨name, rawName?, type, nullable, element?, comment?, props⟩ (r.value? name))
      :: entriesDatum entries r

end

mutual

def ColumnType.read : ColumnType → Column → Nat → Datum
  | .cells _, .cells held slots, i =>
    match slots[i]? with
    | some (some cell) => .scalar (held.value cell)
    | _ => .null
  | .list ⟨_, type, _, _⟩, .list valid offsets items, i =>
    match valid[i]?, offsets[i]?, offsets[i + 1]? with
    | some true, some start, some stop =>
      .list ((List.range' start (stop - start)).map fun j => ColumnType.read type items j)
    | _, _, _ => .null
  | .struct fields, .struct valid columns, i =>
    match valid[i]? with
    | some true => .struct (fieldsRead fields columns i)
    | _ => .null
  | _, _, _ => .null

def fieldsRead : List Field → List Column → Nat → List (String × Datum)
  | ⟨name, type, _, _⟩ :: fields, column :: columns, i =>
    (name, ColumnType.read type column i) :: fieldsRead fields columns i
  | _, _, _ => []

end

mutual

def ColumnType.datum : ColumnType → Option Value → Datum
  | _, none => .null
  | .cells type, some v =>
    match type.cell? v with
    | some cell => .scalar (type.value cell)
    | none => .null
  | .list ⟨_, type, _, _⟩, some v =>
    .list ((Column.itemsOf (some v)).map fun item => ColumnType.datum type (some item))
  | .struct fields, some v => .struct (fieldsDatum fields (some v))

def fieldsDatum : List Field → Option Value → List (String × Datum)
  | [], _ => []
  | ⟨name, type, _, _⟩ :: fields, slot =>
    (name, ColumnType.datum type (Column.fieldOf name slot)) :: fieldsDatum fields slot

end

/-- The items of a slot stand in the column of items between its two offsets. -/
theorem map_range'_items {α β : Type} (before items after : List α) {read : Nat → β} {f : α → β}
    (each : ∀ j v, (before ++ items ++ after)[j]? = some v → read j = f v) :
    (List.range' before.length items.length).map read = items.map f := by
  apply List.ext_getElem
  · simp
  · intro j _ bound
    have within : j < items.length := by simpa using bound
    have found : (before ++ items ++ after)[before.length + j]? = some items[j] := by
      rw [List.append_assoc, List.getElem?_append_right (by omega), Nat.add_sub_cancel_left,
        List.getElem?_append_left within, List.getElem?_eq_getElem within]
    rw [List.getElem_map, List.getElem_map, List.getElem_range', Nat.one_mul]
    exact each _ _ found

/-- A slot between others begins where the items of those before it end. -/
theorem Column.getElem?_offsets_split (before after : List (Option Value)) (slot : Option Value) :
    (offsets 0 ((before ++ slot :: after).map fun slot => (itemsOf slot).length))[before.length]? =
        some (before.flatMap itemsOf).length ∧
      (offsets 0 ((before ++ slot :: after).map fun slot =>
        (itemsOf slot).length))[before.length + 1]? =
          some ((before.flatMap itemsOf).length + (itemsOf slot).length) := by
  rw [getElem?_offsets (by simp), getElem?_offsets (by simp), List.take_add_one]
  simp [List.length_flatMap]

theorem exists_split_of_getElem? {α : Type} {xs : List α} {i : Nat} {x : α}
    (at_i : xs[i]? = some x) :
    ∃ before after, xs = before ++ x :: after ∧ i = before.length := by
  obtain ⟨within, rfl⟩ := List.getElem?_eq_some_iff.mp at_i
  have cut : xs = xs.take i ++ xs[i] :: xs.drop (i + 1) := by
    rw [List.getElem_cons_drop, List.take_append_drop]
  have length : (xs.take i).length = i := List.length_take_of_le (by omega)
  exact ⟨xs.take i, xs.drop (i + 1), cut, length.symm⟩

mutual

/-- Reading undoes the encoding slot by slot. The slots are general, because the items of a list are
those of all its slots. -/
theorem read_encode : ∀ (type : ColumnType) (slots : List (Option Value)) (i : Nat)
    (slot : Option Value), slots[i]? = some slot →
      type.read (Column.encode type slots) i = type.datum slot
  | .cells type, slots, i, slot, atSlot => by
    cases slot with
    | none => simp [ColumnType.read, Column.encode, ColumnType.datum, atSlot]
    | some v =>
      simp only [ColumnType.read, Column.encode, ColumnType.datum, List.getElem?_map, atSlot,
        Option.map_some, Option.bind_some]
      cases type.cell? v <;> rfl
  | .list ⟨name, type, nullable, metadata⟩, slots, i, slot, atSlot => by
    obtain ⟨before, after, rfl, rfl⟩ := exists_split_of_getElem? atSlot
    cases slot with
    | none => simp [ColumnType.read, Column.encode, ColumnType.datum]
    | some v =>
      have given : ((before ++ some v :: after).map Option.isSome)[before.length]? = some true := by
        simp
      obtain ⟨start, stop⟩ := Column.getElem?_offsets_split before after (some v)
      have cut : (before ++ some v :: after).flatMap Column.itemsOf =
          before.flatMap Column.itemsOf ++ Column.itemsOf (some v) ++
            after.flatMap Column.itemsOf := by
        simp
      simp only [ColumnType.read, Column.encode, ColumnType.datum, given, start, stop]
      rw [Nat.add_sub_cancel_left]
      apply congrArg Datum.list
      apply map_range'_items _ _ (after.flatMap Column.itemsOf)
      intro j item found
      apply read_encode type _ j (some item)
      rw [List.getElem?_map, cut, found, Option.map_some]
  | .struct fields, slots, i, slot, atSlot => by
    have inside := fieldsRead_encode fields slots i slot atSlot
    cases slot with
    | none => simp [ColumnType.read, Column.encode, ColumnType.datum, atSlot]
    | some v => simp [ColumnType.read, Column.encode, ColumnType.datum, atSlot, inside]

theorem fieldsRead_encode : ∀ (fields : List Field) (slots : List (Option Value)) (i : Nat)
    (slot : Option Value), slots[i]? = some slot →
      fieldsRead fields (Column.encodeFields fields slots) i = fieldsDatum fields slot
  | [], _, _, _, _ => rfl
  | ⟨name, type, nullable, metadata⟩ :: fields, slots, i, slot, atSlot => by
    have head := read_encode type (slots.map (Column.fieldOf name)) i (Column.fieldOf name slot)
      (by simp [atSlot])
    have tail := fieldsRead_encode fields slots i slot atSlot
    rw [Column.encodeFields, fieldsRead, head, tail, fieldsDatum]

end

theorem CellType.Takes.scalar {type : CellType} {v : Value} (taken : type.Takes v) :
    (∀ items, v ≠ .array items) ∧ ∀ r, v ≠ .record r := by
  constructor <;> rintro _ rfl <;> cases type <;>
    simp [Takes, variantName, Value.variantName] at taken

/-- A scalar that a column of cells takes is shown by the type that the cells are for. -/
theorem datum_cells {type : FieldType} {cell : CellType} {v : Value}
    (found : type.cellType? = some cell) (taken : cell.Takes v) :
    (ColumnType.cells cell).datum (some v) = .scalar (type.shown v) := by
  cases type <;> cases found <;> cases v <;> first
    | rfl
    | simp [CellType.Takes, CellType.variantName, Value.variantName] at taken

theorem Entry.datum_cells {entry : Entry} {cell : CellType} {slot : Option Value}
    (found : entry.type.cellType? = some cell)
    (conforms : (ColumnType.cells cell).Conforms slot) :
    (ColumnType.cells cell).datum slot = entry.datum slot := by
  obtain ⟨_, _, type, _, element?, _, _⟩ := entry
  cases slot with
  | none => rw [ColumnType.datum, Entry.datum]
  | some v =>
    have scalar := CellType.Takes.scalar conforms
    rw [TypedRecords.datum_cells found conforms]
    cases v with
    | array items => exact absurd rfl (scalar.1 items)
    | record r => exact absurd rfl (scalar.2 r)
    | _ => cases element? <;> rfl

theorem Schema.datum_cells {schema : Schema} {cell : CellType} {v : Value}
    (found : schema.type.cellType? = some cell) (taken : cell.Takes v) :
    (ColumnType.cells cell).datum (some v) = schema.datum v := by
  obtain ⟨type, entries, props⟩ := schema
  rw [TypedRecords.datum_cells found taken]
  cases v with
  | record r => exact absurd rfl (taken.scalar.2 r)
  | _ => rfl

mutual

/-- A slot that conforms to the field of an entry holds what the entry is to show. -/
theorem datum_field : ∀ (entry : Entry) {field : Field} {slot : Option Value},
    entry.field = .ok field → field.type.Conforms slot → field.type.datum slot = entry.datum slot
  | ⟨name, rawName?, type, nullable, none, comment?, props⟩, field, slot, mapped, conforms => by
    obtain ⟨-, ⟨cell, found, same⟩ | ⟨_, given, -⟩⟩ := Entry.field_cases mapped
    · rw [same] at conforms ⊢
      exact Entry.datum_cells found conforms
    · cases given
  | ⟨name, rawName?, type, nullable, some element, comment?, props⟩, field, slot, mapped,
      conforms => by
    obtain ⟨-, ⟨cell, found, same⟩ | ⟨_, given, -, nested⟩⟩ := Entry.field_cases mapped
    · rw [same] at conforms ⊢
      exact Entry.datum_cells found conforms
    · cases given
      cases slot with
      | none => rw [ColumnType.datum, Entry.datum]
      | some v =>
        obtain ⟨items, rfl, shown⟩ | ⟨r, rfl, shown⟩ := datum_nestedType element nested conforms
        · exact shown
        · exact shown

/-- The column of an element schema is a list of what its elements show, or a struct. -/
theorem datum_nestedType : ∀ (element : Schema) {name : String} {type : FieldType}
    {nested : ColumnType} {v : Value}, element.nestedType name type = .ok nested →
      nested.Conforms (some v) →
        (∃ items, v = .array items ∧
          nested.datum (some v) = .list (items.map fun item => element.datum item)) ∨
        ∃ r, v = .record r ∧ nested.datum (some v) = element.datum (.record r)
  | ⟨elementType, entries, props⟩, name, type, nested, v, mapped, conforms => by
    obtain ⟨cell, found, rfl⟩ | ⟨fields, below, shape⟩ := Schema.nestedType_cases mapped
    · obtain ⟨items, rfl, each⟩ := conforms
      have shown : items.map (fun item => (ColumnType.cells cell).datum (some item)) =
          items.map fun item => Schema.datum ⟨elementType, entries, props⟩ item := by
        apply List.map_congr_left
        intro item member
        exact Schema.datum_cells found (each item member)
      exact .inl ⟨items, rfl, congrArg Datum.list shown⟩
    · have inside (r : Record) (conform : fieldsConform fields r) :
          (ColumnType.struct fields).datum (some (.record r)) =
            Schema.datum ⟨elementType, entries, props⟩ (.record r) :=
        congrArg Datum.struct (datum_fieldsOf entries below conform)
      obtain rfl | rfl := shape
      · obtain ⟨items, rfl, each⟩ := conforms
        have shown : items.map (fun item => (ColumnType.struct fields).datum (some item)) =
            items.map fun item => Schema.datum ⟨elementType, entries, props⟩ item := by
          apply List.map_congr_left
          intro item member
          obtain ⟨r, rfl, conform⟩ := each item member
          exact inside r conform
        exact .inl ⟨items, rfl, congrArg Datum.list shown⟩
      · obtain ⟨r, rfl, conform⟩ := conforms
        exact .inr ⟨r, rfl, inside r conform⟩

theorem datum_fieldsOf : ∀ (entries : List Entry) {fields : List Field} {r : Record},
    fieldsOf entries = .ok fields → fieldsConform fields r →
      fieldsDatum fields (some (.record r)) = entriesDatum entries r
  | [], _, _, rfl, _ => rfl
  | ⟨name, rawName?, type, nullable, element?, comment?, props⟩ :: entries, fields, r, mapped,
      conform => by
    obtain ⟨field, rest, head, tail, rfl⟩ := fieldsOf_cons mapped
    obtain ⟨fieldName, fieldType, fieldNullable, metadata⟩ := field
    obtain ⟨⟨-, conforms⟩, conform⟩ := conform
    -- the entry is taken as it stands in the list, before its name is that of the field
    have here := datum_field ⟨name, rawName?, type, nullable, element?, comment?, props⟩ head
      conforms
    have later := datum_fieldsOf entries tail conform
    obtain rfl : fieldName = name := (Entry.field_cases head).1
    rw [fieldsDatum, entriesDatum, Column.fieldOf, here, later]

end

theorem Schema.datum_ne_null (schema : Schema) (v : Value) : schema.datum v ≠ .null := by
  obtain ⟨type, entries, props⟩ := schema
  cases v <;> simp [Schema.datum]

/-- Null is shown exactly where there is no value. -/
theorem Entry.datum_eq_null_iff (entry : Entry) (slot : Option Value) :
    entry.datum slot = .null ↔ slot = none := by
  obtain ⟨_, _, type, _, element?, _, _⟩ := entry
  cases slot with
  | none => simp [Entry.datum]
  | some v => cases element? <;> cases v <;> simp [Entry.datum, Schema.datum_ne_null]

/-- A batch that records became is the encoding of records that conform. -/
theorem ofRecords_eq_ok {schema : Schema} {records : List Record} {batch : Batch}
    (converted : Batch.ofRecords schema records = .ok batch) :
    ∃ layout, schema.layout = .ok layout ∧ batch = layout.encode records ∧
      ∀ field ∈ layout.fields, ∀ r ∈ records, field.Conforms (r.value? field.name) := by
  cases valid : schema.layout with
  | error error =>
    rw [ofRecords_of_error valid] at converted
    cases converted
  | ok layout =>
    rw [ofRecords_of_layout valid, report_eq_ok_iff] at converted
    obtain ⟨none_faulty, encoded⟩ := converted
    exact ⟨layout, rfl, encoded.symm, (layout.faults_eq_nil_iff records).mp none_faulty⟩

/-- Each slot of the column of a field shows what the entry of the field is to show. -/
theorem Field.read_encode {records : List Record} {field : Field} {entry : Entry}
    {i : Nat} {r : Record} (mapped : entry.field = .ok field) (atRecord : records[i]? = some r)
    (conforms : field.Conforms (r.value? field.name)) :
    field.type.read (Column.encode field.type (records.map fun r => r.value? field.name)) i =
      entry.datum (r.value? entry.name) := by
  have named : field.name = entry.name := (Entry.field_cases mapped).1
  have atSlot : (records.map fun r => r.value? field.name)[i]? = some (r.value? field.name) := by
    simp [atRecord]
  rw [TypedRecords.read_encode _ _ _ _ atSlot, datum_field entry mapped conforms.2, named]

/-- A batch loses nothing and shifts nothing. It has the layout of the schema and, for each entry, a
well-formed column with a slot for each record, from which is read what the entry is to show of the
record, and null exactly where the record has no value. -/
theorem Batch.ofRecords_exact {schema : Schema} {records : List Record} {batch : Batch}
    (converted : Batch.ofRecords schema records = .ok batch) :
    schema.layout = .ok batch.layout ∧ batch.rows = records.length ∧ batch.WellFormed ∧
      batch.columns.length = schema.entries.length ∧
      ∀ (k : Nat) (entry : Entry), schema.entries[k]? = some entry →
        ∃ (field : Field) (column : Column),
          batch.layout.fields[k]? = some field ∧ batch.columns[k]? = some column ∧
          entry.field = .ok field ∧ column.WellFormed field.type ∧
          column.length = records.length ∧
          ∀ (i : Nat) (r : Record), records[i]? = some r →
            field.type.read column i = entry.datum (r.value? entry.name) ∧
              (field.type.read column i = .null ↔ r.value? entry.name = none) := by
  obtain ⟨layout, valid, rfl, conform⟩ := ofRecords_eq_ok converted
  have mapped := Schema.layout_fields valid
  have wellFormed := Layout.wellFormed_encode conform
  refine ⟨valid, rfl, wellFormed, ?_, ?_⟩
  · rw [columnsWellFormed_length wellFormed]
    exact fieldsOf_length mapped
  · intro k entry atEntry
    obtain ⟨field, atField, entryMapped⟩ := fieldsOf_getElem? mapped atEntry
    have atColumn : (layout.encode records).columns[k]? =
        some (Column.encode field.type (records.map fun r => r.value? field.name)) := by
      simp [Layout.encode, atField]
    obtain ⟨aligned, placed⟩ := columnsWellFormed_getElem? wellFormed atField atColumn
    have length := aligned.length.trans List.length_replicate
    refine ⟨field, _, atField, atColumn, entryMapped, placed, length, ?_⟩
    intro i r atRecord
    have conforms := conform field (List.mem_of_getElem? atField) r (List.mem_of_getElem? atRecord)
    have read := Field.read_encode entryMapped atRecord conforms
    exact ⟨read, by rw [read, Entry.datum_eq_null_iff]⟩

def parcels : Schema where
  type := .record
  entries := [
    { name := "at", type := .dateTime, nullable := true },
    { name := "lines", type := .array, nullable := true, element? := some {
        type := .record
        entries := [
          { name := "sizes", type := .array, nullable := true, element? := some { type := .int } },
          { name := "sku", type := .string }] } }]

/-- The second parcel has no lines and no instant; the third one has a line without sizes, and a
value that its schema does not name. -/
def packed : List Record :=
  let line (values : List (String × Value)) : Value := .record ⟨parcels, values⟩
  [⟨parcels, [("at", .dateTime 7),
      ("lines", .array [line [("sizes", .array [.int 1, .int 2]), ("sku", .string "a")]])]⟩,
    ⟨parcels, []⟩,
    ⟨parcels, [("at", .long 8),
      ("lines", .array [line [("sku", .string "b")],
        line [("other", .int 0), ("sizes", .array [.int 3]), ("sku", .string "c")]])]⟩]

theorem Batch.ofRecords_exact_packed :
    ∃ batch, Batch.ofRecords parcels packed = .ok batch ∧ batch.WellFormed ∧
      ∃ field column, batch.layout.fields[1]? = some field ∧ batch.columns[1]? = some column ∧
        field.type.read column 1 = .null ∧
        field.type.read column 2 = .list [
          .struct [("sizes", .null), ("sku", .scalar (.string "b"))],
          .struct [("sizes", .list [.scalar (.int 3)]), ("sku", .scalar (.string "c"))]] := by
  refine ⟨_, rfl, ?_⟩
  obtain ⟨-, -, wellFormed, -, column⟩ := @Batch.ofRecords_exact parcels packed _ rfl
  obtain ⟨field, column, atField, atColumn, -, -, -, read⟩ := column 1 _ rfl
  exact ⟨wellFormed, field, column, atField, atColumn, (read 1 _ rfl).1, (read 2 _ rfl).1⟩

end TypedRecords
