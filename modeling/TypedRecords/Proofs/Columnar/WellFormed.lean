import TypedRecords.Proofs.Columnar.Conformance

/-! Well-formed columns: offsets cut the items of a list into its slots, and the columns of a struct
have its slots. A batch is well formed as the columns of a struct without null would be. -/
namespace TypedRecords

/-- Offsets span the items of each slot of a list. -/
structure Spans (valid : List Bool) (offsets : List Nat) (items : Nat) : Prop where
  length : offsets.length = valid.length + 1
  first : offsets.head? = some 0
  ordered : offsets.Pairwise (· ≤ ·)
  last : offsets.getLast? = some items
  null : ∀ i : Nat, valid[i]? = some false → offsets[i]? = offsets[i + 1]?

/-- A column has the slots of its struct, null where the struct is, and elsewhere only if that is
allowed. -/
structure Aligned (nullable : Bool) (valid : List Bool) (column : Column) : Prop where
  length : column.length = valid.length
  null : ∀ i : Nat, valid[i]? = some false → column.validity[i]? = some false
  required : nullable = false → ∀ i : Nat, valid[i]? = some true → column.validity[i]? = some true

mutual

/-- A column is of the type, at every depth. -/
def Column.WellFormed : ColumnType → Column → Prop
  | .cells type, .cells held _ => held = type
  | .list ⟨_, type, _, _⟩, .list valid offsets items =>
    Spans valid offsets items.length ∧ Column.WellFormed type items
  | .struct fields, .struct valid columns => columnsWellFormed fields valid columns
  | _, _ => False

def columnsWellFormed : List Field → List Bool → List Column → Prop
  | [], _, [] => True
  | ⟨_, type, nullable, _⟩ :: fields, valid, column :: columns =>
    (Aligned nullable valid column ∧ Column.WellFormed type column) ∧
      columnsWellFormed fields valid columns
  | _, _, _ => False

end

def Batch.WellFormed (batch : Batch) : Prop :=
  columnsWellFormed batch.layout.fields (List.replicate batch.rows true) batch.columns

theorem columnsWellFormed_length : ∀ {fields : List Field} {valid : List Bool}
    {columns : List Column}, columnsWellFormed fields valid columns →
      columns.length = fields.length
  | [], _, [], _ => rfl
  | ⟨_, _, _, _⟩ :: _, _, _ :: _, ⟨_, rest⟩ => congrArg (· + 1) (columnsWellFormed_length rest)

theorem columnsWellFormed_getElem? {valid : List Bool} {field : Field} {column : Column} :
    ∀ {fields : List Field} {columns : List Column} {k : Nat},
      columnsWellFormed fields valid columns → fields[k]? = some field →
        columns[k]? = some column →
          Aligned field.nullable valid column ∧ column.WellFormed field.type
  | ⟨_, _, _, _⟩ :: _, _ :: _, 0, ⟨here, _⟩, rfl, rfl => here
  | ⟨_, _, _, _⟩ :: _, _ :: _, k + 1, ⟨_, rest⟩, atField, atColumn =>
    columnsWellFormed_getElem? (k := k) rest (by simpa using atField) (by simpa using atColumn)

namespace Column

theorem getElem?_offsets {start : Nat} {lengths : List Nat} {i : Nat}
    (within : i ≤ lengths.length) :
    (offsets start lengths)[i]? = some (start + (lengths.take i).sum) := by
  induction lengths generalizing start i with
  | nil =>
    obtain rfl : i = 0 := Nat.le_zero.mp within
    rfl
  | cons length lengths ih =>
    cases i with
    | zero => rfl
    | succ i =>
      rw [offsets, List.getElem?_cons_succ, ih (Nat.le_of_succ_le_succ within),
        List.take_succ_cons, List.sum_cons, Nat.add_assoc]

@[simp] theorem length_offsets (start : Nat) (lengths : List Nat) :
    (offsets start lengths).length = lengths.length + 1 := by
  induction lengths generalizing start with
  | nil => rfl
  | cons length lengths ih => simp [offsets, ih]

theorem offsets_bounded {start : Nat} {lengths : List Nat} {offset : Nat}
    (member : offset ∈ offsets start lengths) : start ≤ offset := by
  induction lengths generalizing start with
  | nil => simp [offsets] at member; omega
  | cons length lengths ih =>
    rcases List.mem_cons.mp member with rfl | later
    · exact Nat.le_refl offset
    · have bound := ih later
      omega

theorem offsets_ordered (start : Nat) (lengths : List Nat) :
    (offsets start lengths).Pairwise (· ≤ ·) := by
  induction lengths generalizing start with
  | nil => simp [offsets]
  | cons length lengths ih =>
    have first : ∀ offset ∈ offsets (start + length) lengths, start ≤ offset := by
      intro offset member
      have bound := offsets_bounded member
      omega
    exact List.pairwise_cons.mpr ⟨first, ih (start + length)⟩

theorem getLast?_offsets (start : Nat) (lengths : List Nat) :
    (offsets start lengths).getLast? = some (start + lengths.sum) := by
  rw [List.getLast?_eq_getElem?, length_offsets, Nat.add_sub_cancel,
    getElem?_offsets (Nat.le_refl _), List.take_length]

theorem spans_offsets (slots : List (Option Value)) :
    Spans (slots.map Option.isSome) (offsets 0 (slots.map fun slot => (itemsOf slot).length))
      (slots.flatMap itemsOf).length where
  length := by simp
  first := by cases slots <;> rfl
  ordered := offsets_ordered _ _
  last := by rw [getLast?_offsets, List.length_flatMap, Nat.zero_add]
  null := by
    intro i isNull
    obtain ⟨slot, atSlot, empty⟩ : ∃ slot, slots[i]? = some slot ∧ slot = none := by
      simpa using isNull
    have within : i < slots.length := (List.getElem?_eq_some_iff.mp atSlot).1
    rw [getElem?_offsets (by rw [List.length_map]; omega),
      getElem?_offsets (by rw [List.length_map]; omega)]
    simp [List.take_add_one, atSlot, empty, itemsOf]

theorem validity_encode {type : ColumnType} {slots : List (Option Value)}
    (conform : ∀ slot ∈ slots, type.Conforms slot) :
    (encode type slots).validity = slots.map Option.isSome := by
  match type with
  | .cells type =>
    rw [encode, validity, List.map_map]
    apply List.map_congr_left
    intro slot member
    cases slot with
    | none => rfl
    | some v => exact (type.cell?_isSome_iff v).mpr (conform (some v) member)
  | .list ⟨_, _, _, _⟩ => rfl
  | .struct _ => rfl

/-- The items of slots of a list conform to the type of its items. -/
theorem conforms_items {item : Field} {slots : List (Option Value)}
    (conform : ∀ slot ∈ slots, (ColumnType.list item).Conforms slot) :
    ∀ slot ∈ (slots.flatMap itemsOf).map some, item.type.Conforms slot := by
  obtain ⟨_, type, _, _⟩ := item
  intro inner member
  obtain ⟨v, among, rfl⟩ := List.mem_map.mp member
  obtain ⟨slot, held, inside⟩ := List.mem_flatMap.mp among
  cases slot with
  | none => simp [itemsOf] at inside
  | some w =>
    obtain ⟨items, rfl, each⟩ := conform (some w) held
    exact each v inside

/-- A field of slots of a struct takes the values under its name, and one that may not be null
finds a value wherever there is a record. -/
theorem conforms_fieldOf {field : Field} {fields : List Field} {slots : List (Option Value)}
    (member : field ∈ fields)
    (conform : ∀ slot ∈ slots, (ColumnType.struct fields).Conforms slot) :
    (∀ slot ∈ slots.map (fieldOf field.name), field.type.Conforms slot) ∧
      (field.nullable = false → ∀ slot ∈ slots, slot.isSome = true →
        (fieldOf field.name slot).isSome = true) := by
  have inside (slot : Option Value) (held : slot ∈ slots) (v : Value) (given : slot = some v) :
      field.Conforms (fieldOf field.name (some v)) := by
    obtain ⟨r, rfl, each⟩ := given ▸ conform slot held
    exact (fieldsConform_iff fields r).mp each field member
  constructor
  · intro inner among
    obtain ⟨slot, held, rfl⟩ := List.mem_map.mp among
    cases slot with
    | none => simp [fieldOf, ColumnType.Conforms]
    | some v => exact (inside _ held v rfl).2
  · intro required slot held given
    obtain ⟨v, rfl⟩ := Option.isSome_iff_exists.mp given
    exact (inside _ held v rfl).1.resolve_right (by simp [required])

theorem aligned_encode {field : Field} {fields : List Field} {slots : List (Option Value)}
    (member : field ∈ fields)
    (conform : ∀ slot ∈ slots, (ColumnType.struct fields).Conforms slot) :
    Aligned field.nullable (slots.map Option.isSome)
      (encode field.type (slots.map (fieldOf field.name))) := by
  obtain ⟨takes, present⟩ := conforms_fieldOf member conform
  refine ⟨by simp, ?_, ?_⟩
  · intro i isNull
    obtain ⟨slot, atSlot, rfl⟩ : ∃ slot, slots[i]? = some slot ∧ slot = none := by
      simpa using isNull
    rw [validity_encode takes]
    simp [atSlot, fieldOf]
  · intro required i isGiven
    obtain ⟨slot, atSlot, given⟩ : ∃ slot, slots[i]? = some slot ∧ slot.isSome = true := by
      simpa using isGiven
    have filled := present required slot (List.mem_of_getElem? atSlot) given
    rw [validity_encode takes]
    simpa [atSlot] using filled

mutual

theorem wellFormed_encode : ∀ (type : ColumnType) (slots : List (Option Value)),
    (∀ slot ∈ slots, type.Conforms slot) → (encode type slots).WellFormed type
  | .cells _, _, _ => rfl
  | .list ⟨name, type, nullable, metadata⟩, slots, conform => by
    have spans := spans_offsets slots
    refine ⟨?_, wellFormed_encode type _ (conforms_items conform)⟩
    simpa using spans
  | .struct fields, slots, conform =>
    columnsWellFormed_encode fields fields slots (fun _ member => member) conform

theorem columnsWellFormed_encode : ∀ (fields all : List Field) (slots : List (Option Value)),
    (∀ field ∈ fields, field ∈ all) → (∀ slot ∈ slots, (ColumnType.struct all).Conforms slot) →
      columnsWellFormed fields (slots.map Option.isSome) (encodeFields fields slots)
  | [], _, _, _, _ => trivial
  | ⟨name, type, nullable, metadata⟩ :: fields, all, slots, among, conform => by
    have member : ⟨name, type, nullable, metadata⟩ ∈ all := among _ List.mem_cons_self
    refine ⟨⟨aligned_encode member conform, ?_⟩, ?_⟩
    · exact wellFormed_encode type _ (conforms_fieldOf member conform).1
    · exact columnsWellFormed_encode fields all slots
        (fun field later => among field (List.mem_cons_of_mem _ later)) conform

end

end Column

theorem encodeFields_eq_map (fields : List Field) (slots : List (Option Value)) :
    Column.encodeFields fields slots = fields.map fun field =>
      Column.encode field.type (slots.map (Column.fieldOf field.name)) := by
  induction fields with
  | nil => rfl
  | cons field fields ih =>
    obtain ⟨_, _, _, _⟩ := field
    rw [Column.encodeFields, ih, List.map_cons]

/-- The columns of a batch are those of a struct with a record in each slot. -/
theorem Layout.encode_columns (layout : Layout) (records : List Record) :
    (layout.encode records).columns =
      Column.encodeFields layout.fields (records.map fun r => some (.record r)) := by
  simp [encodeFields_eq_map, encode, Column.fieldOf, Function.comp_def]

theorem Layout.wellFormed_encode {layout : Layout} {records : List Record}
    (conform : ∀ field ∈ layout.fields, ∀ r ∈ records, field.Conforms (r.value? field.name)) :
    (layout.encode records).WellFormed := by
  have slots (slot : Option Value) (member : slot ∈ records.map fun r => some (Value.record r)) :
      (ColumnType.struct layout.fields).Conforms slot := by
    obtain ⟨r, held, rfl⟩ := List.mem_map.mp member
    have each : ∀ field ∈ layout.fields, field.Conforms (r.value? field.name) := by
      intro field among
      exact conform field among r held
    exact ⟨r, rfl, (fieldsConform_iff _ r).mpr each⟩
  have columns := Column.columnsWellFormed_encode layout.fields layout.fields _
    (fun _ member => member) slots
  rw [Batch.WellFormed, encode_columns]
  simpa [encode, Function.comp_def, List.map_const'] using columns

end TypedRecords
