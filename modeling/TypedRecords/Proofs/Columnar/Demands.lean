import Mathlib.Logic.Function.Iterate
import TypedRecords.Proofs.Columnar.Conformance
import TypedRecords.Proofs.Columnar.Filling
import TypedRecords.Proofs.Columnar.Layout

/-! What a batch asks of the machine. Columns ask for room when they begin, the ones inside of lists
for four times as much at each list, and every offset has to be a number that offsets can be. Where
all this is met, the conversion ends with the batch or with the error of the first violation. -/
namespace TypedRecords

mutual

/-- The cells of a type, each with the number of lists around it. -/
def ColumnType.leaves : ColumnType → List (CellType × Nat)
  | .cells type => [(type, 0)]
  | .list ⟨_, type, _, _⟩ => (ColumnType.leaves type).map fun leaf => (leaf.1, leaf.2 + 1)
  | .struct fields => fieldsLeaves fields

def fieldsLeaves : List Field → List (CellType × Nat)
  | [] => []
  | ⟨_, type, _, _⟩ :: fields => ColumnType.leaves type ++ fieldsLeaves fields

end

/-- There is room for each column of cells in a column that begins with this capacity. -/
def ColumnType.HasRoom (room : CellType → Nat → Bool) (capacity : Nat) (type : ColumnType) : Prop :=
  ∀ leaf ∈ type.leaves, room leaf.1 (Column.itemCapacity^[leaf.2] capacity) = true

mutual

/-- No offset of a column with these slots is too great. -/
def ColumnType.Fits : ColumnType → List (Option Value) → Prop
  | .cells type, slots =>
    type.totalSize (slots.map fun slot => slot.bind type.cell?) ≤ greatestOffset
  | .list ⟨_, type, _, _⟩, slots =>
    (slots.flatMap Column.itemsOf).length ≤ greatestOffset ∧
      ColumnType.Fits type ((slots.flatMap Column.itemsOf).map some)
  | .struct fields, slots => fieldsFit fields slots

def fieldsFit : List Field → List (Option Value) → Prop
  | [], _ => True
  | ⟨name, type, _, _⟩ :: fields, slots =>
    ColumnType.Fits type (slots.map (Column.fieldOf name)) ∧ fieldsFit fields slots

end

instance (room : CellType → Nat → Bool) (capacity : Nat) (type : ColumnType) :
    Decidable (type.HasRoom room capacity) :=
  inferInstanceAs (Decidable (∀ leaf ∈ type.leaves, _))

mutual

def ColumnType.decidableFits : ∀ (type : ColumnType) (slots : List (Option Value)),
    Decidable (type.Fits slots)
  | .cells _, _ => inferInstanceAs (Decidable (_ ≤ _))
  | .list ⟨_, type, _, _⟩, slots =>
    @instDecidableAnd _ _ _
      (ColumnType.decidableFits type ((slots.flatMap Column.itemsOf).map some))
  | .struct fields, slots => decidableFieldsFit fields slots

def decidableFieldsFit : ∀ (fields : List Field) (slots : List (Option Value)),
    Decidable (fieldsFit fields slots)
  | [], _ => .isTrue trivial
  | ⟨name, type, _, _⟩ :: fields, slots =>
    @instDecidableAnd _ _ (ColumnType.decidableFits type (slots.map (Column.fieldOf name)))
      (decidableFieldsFit fields slots)

end

instance (type : ColumnType) (slots : List (Option Value)) : Decidable (type.Fits slots) :=
  type.decidableFits slots

def Layout.Fits (room : CellType → Nat → Bool) (layout : Layout) (records : List Record) : Prop :=
  ∀ field ∈ layout.fields, field.type.HasRoom room records.length ∧
    field.type.Fits (records.map fun r => r.value? field.name)

instance (room : CellType → Nat → Bool) (layout : Layout) (records : List Record) :
    Decidable (layout.Fits room records) :=
  inferInstanceAs (Decidable (∀ field ∈ layout.fields, _))

mutual

theorem ColumnType.fits_nil : ∀ type : ColumnType, type.Fits []
  | .cells _ => Nat.zero_le _
  | .list ⟨_, type, _, _⟩ => ⟨Nat.zero_le _, ColumnType.fits_nil type⟩
  | .struct fields => fieldsFit_nil fields

theorem fieldsFit_nil : ∀ fields : List Field, fieldsFit fields []
  | [] => trivial
  | ⟨_, type, _, _⟩ :: fields => ⟨ColumnType.fits_nil type, fieldsFit_nil fields⟩

end

mutual

theorem ColumnType.Fits.of_append : ∀ {type : ColumnType} {slots more : List (Option Value)},
    type.Fits (slots ++ more) → type.Fits slots
  | .cells _, _, _, fits => by
    simp only [ColumnType.Fits, List.map_append, CellType.totalSize_append] at fits
    exact Nat.le_trans (Nat.le_add_right _ _) fits
  | .list ⟨_, _, _, _⟩, _, _, fits => by
    simp only [ColumnType.Fits, List.flatMap_append, List.map_append, List.length_append] at fits
    exact ⟨Nat.le_trans (Nat.le_add_right _ _) fits.1, fits.2.of_append⟩
  | .struct _, _, _, fits => fieldsFit_of_append fits

theorem fieldsFit_of_append : ∀ {fields : List Field} {slots more : List (Option Value)},
    fieldsFit fields (slots ++ more) → fieldsFit fields slots
  | [], _, _, _ => trivial
  | ⟨_, _, _, _⟩ :: _, _, _, ⟨here, later⟩ => by
    rw [List.map_append] at here
    exact ⟨here.of_append, fieldsFit_of_append later⟩

end

mutual

theorem ColumnType.Fits.concat_none : ∀ {type : ColumnType} {slots : List (Option Value)},
    type.Fits slots → type.Fits (slots ++ [none])
  | .cells _, _, fits => by simpa [ColumnType.Fits, CellType.totalSize] using fits
  | .list ⟨_, _, _, _⟩, _, fits => by simpa [ColumnType.Fits, Column.itemsOf] using fits
  | .struct _, _, fits => fieldsFit_concat_none fits

theorem fieldsFit_concat_none : ∀ {fields : List Field} {slots : List (Option Value)},
    fieldsFit fields slots → fieldsFit fields (slots ++ [none])
  | [], _, _ => trivial
  | ⟨_, _, _, _⟩ :: _, _, ⟨here, later⟩ => by
    rw [fieldsFit, List.map_append]
    exact ⟨here.concat_none, fieldsFit_concat_none later⟩

end

namespace Column

variable {room : CellType → Nat → Bool}

mutual

theorem empty_met_iff : ∀ {capacity : Nat} {type : ColumnType},
    (empty capacity type).Met room ↔ type.HasRoom room capacity
  | capacity, .cells type => by
    simp [empty, ColumnType.HasRoom, ColumnType.leaves, Demand.met]
  | capacity, .list ⟨_, type, _, _⟩ => by
    simp only [empty, ColumnType.HasRoom, ColumnType.leaves, bind_pure_comp, Filling.met_map,
      empty_met_iff, List.forall_mem_map, Function.iterate_succ_apply]
  | capacity, .struct fields => by
    simp only [empty, ColumnType.HasRoom, ColumnType.leaves, bind_pure_comp, Filling.met_map,
      emptyFields_met_iff]

theorem emptyFields_met_iff : ∀ {capacity : Nat} {fields : List Field},
    (emptyFields capacity fields).Met room ↔
      ∀ leaf ∈ fieldsLeaves fields, room leaf.1 (itemCapacity^[leaf.2] capacity) = true
  | capacity, [] => by simp [emptyFields, fieldsLeaves]
  | capacity, ⟨_, type, _, _⟩ :: fields => by
    simp only [emptyFields, fieldsLeaves, Filling.met_bind, empty_met_iff, emptyFields_met_iff,
      ColumnType.HasRoom, empty_encode, List.forall_mem_append, bind_pure_comp, Filling.met_map,
      Except.ok.injEq, forall_eq']

end

theorem close_met_iff {column : Column} :
    column.close.Met room ↔ column.nextOffset ≤ greatestOffset := by
  simp [Filling.Met, Demand.met]

theorem append_cells_met_iff {column : String} {type : CellType} {slot : Option Value}
    {slots : List (Option Value)} :
    (append column (.cells type) slot (encode (.cells type) slots)).Met room ↔
      ((ColumnType.cells type).faults column slot = [] →
        (ColumnType.cells type).Fits (slots ++ [slot])) := by
  simp only [append, Filling.met_bind, Filling.met_lift, true_and, Filling.result_lift,
    cellOf_eq_report, report_eq_ok_iff, close_met_iff, and_imp]
  constructor
  · intro met clean
    have placed := met _ clean rfl
    rwa [push_encode] at placed
  · rintro fits _ clean rfl
    rw [push_encode]
    exact fits clean

/-- The items of a list are added to those of the slots before. -/
theorem append_item (column : String) (type : ColumnType) (seen : List Value) (v : Value) :
    (append column type (some v) (encode type (seen.map some))).result =
      report (type.faults column (some v)) (encode type ((seen ++ [v]).map some)) := by
  simpa using append_encode column type (some v) (seen.map some)

theorem append_items (column : String) (type : ColumnType) (items seen : List Value) :
    (items.foldlM (fun held v => append column type (some v) held)
      (encode type (seen.map some))).result =
        report (items.flatMap fun v => type.faults column (some v))
          (encode type ((seen ++ items).map some)) :=
  foldlM_report (f := fun held v => append column type (some v) held)
    (g := fun seen => encode type (seen.map some)) (append_item column type) items seen

mutual

/-- If the slots fit together with a new one, all demands are met that the new one makes, up to its
end or to its first fault. -/
theorem append_met (column : String) : ∀ (type : ColumnType) (slot : Option Value)
    (slots : List (Option Value)), type.Fits (slots ++ [slot]) →
      (append column type slot (encode type slots)).Met room
  | .cells _, _, _, fits => append_cells_met_iff.mpr fun _ => fits
  | .list ⟨itemName, type, nullable, metadata⟩, slot, slots, fits => by
    simp only [ColumnType.Fits, List.flatMap_append, List.flatMap_singleton] at fits
    obtain ⟨count, inside⟩ := fits
    match slot with
    | none =>
      rw [encode, append, close_met_iff]
      simpa [nextOffset, itemsOf] using count
    | some (.array items) =>
      rw [encode, append]
      refine Filling.met_bind.mpr ⟨?_, fun held filled => ?_⟩
      · refine Filling.met_foldlM (g := fun seen => encode type (seen.map some))
          (append_item column type) items _ fun earlier item later split => ?_
        have whole : type.Fits
            ((slots.flatMap itemsOf ++ earlier).map some ++ [some item] ++ later.map some) := by
          simpa [itemsOf, split] using inside
        exact append_met column type (some item) _ whole.of_append
      · rw [append_items, report_eq_ok_iff] at filled
        obtain ⟨-, rfl⟩ := filled
        rw [close_met_iff]
        simpa [nextOffset, itemsOf] using count
    | some (.string _) | some (.bytes _) | some (.int _) | some (.long _) | some (.float _)
    | some (.double _) | some (.boolean _) | some (.dateTime _) | some (.record _) =>
      exact Filling.met_fail _
  | .struct fields, slot, slots, fits => by
    match slot with
    | none =>
      rw [encode, append, bind_pure_comp, Filling.met_map]
      exact appendNulls_met column fields slots fits
    | some (.record r) =>
      rw [encode, append, bind_pure_comp, Filling.met_map]
      exact appendFields_met column fields r slots fits
    | some (.string _) | some (.bytes _) | some (.int _) | some (.long _) | some (.float _)
    | some (.double _) | some (.boolean _) | some (.dateTime _) | some (.array _) =>
      exact Filling.met_fail _

theorem appendFields_met (column : String) : ∀ (fields : List Field) (r : Record)
    (slots : List (Option Value)), fieldsFit fields (slots ++ [some (.record r)]) →
      (appendFields column fields r (encodeFields fields slots)).Met room
  | [], _, _, _ => Filling.met_pure _
  | ⟨name, type, nullable, metadata⟩ :: fields, r, slots, ⟨here, later⟩ => by
    rw [List.map_append] at here
    have head := append_met column type (r.value? name) (slots.map (fieldOf name)) here
    have tail := appendFields_met column fields r slots later
    rw [encodeFields, appendFields]
    refine Filling.met_bind.mpr ⟨Filling.met_lift _, fun _ _ => ?_⟩
    refine Filling.met_bind.mpr ⟨head, fun _ _ => ?_⟩
    rwa [bind_pure_comp, Filling.met_map]

theorem appendNulls_met (column : String) : ∀ (fields : List Field)
    (slots : List (Option Value)), fieldsFit fields (slots ++ [none]) →
      (appendNulls column fields (encodeFields fields slots)).Met room
  | [], _, _ => Filling.met_pure _
  | ⟨name, type, nullable, metadata⟩ :: fields, slots, ⟨here, later⟩ => by
    rw [List.map_append] at here
    have head := append_met column type none (slots.map (fieldOf name)) here
    have tail := appendNulls_met column fields slots later
    rw [encodeFields, appendNulls]
    refine Filling.met_bind.mpr ⟨head, fun _ _ => ?_⟩
    rwa [bind_pure_comp, Filling.met_map]

end

mutual

/-- If slots fit and all demands of a new slot without fault are met, the slots fit together with
the new one. -/
theorem append_fits (column : String) : ∀ (type : ColumnType) (slot : Option Value)
    (slots : List (Option Value)), type.Fits slots → type.faults column slot = [] →
      (append column type slot (encode type slots)).Met room → type.Fits (slots ++ [slot])
  | .cells _, _, _, _, clean, met => append_cells_met_iff.mp met clean
  | .list ⟨itemName, type, nullable, metadata⟩, slot, slots, fits, clean, met => by
    match slot with
    | none => exact fits.concat_none
    | some (.array items) =>
      rw [encode, append] at met
      obtain ⟨filling, closing⟩ := Filling.met_bind.mp met
      have each : ∀ item ∈ items, type.faults column (some item) = [] := by
        simpa [ColumnType.faults] using clean
      have all := closing _ (by
        rw [append_items, List.flatMap_eq_nil_iff.mpr each, report_nil])
      have inside : type.Fits ((slots.flatMap itemsOf ++ items).map some) := by
        refine Filling.foldlM_preserves (g := fun seen => encode type (seen.map some))
          (P := fun seen => type.Fits (seen.map some)) (append_item column type) items _ each
          (fun seen item member held asked => ?_) fits.2 filling
        simpa using append_fits column type (some item) (seen.map some) held (each item member)
          asked
      rw [close_met_iff] at all
      refine ⟨by simpa [nextOffset, itemsOf] using all, by simpa [itemsOf] using inside⟩
    | some (.string _) | some (.bytes _) | some (.int _) | some (.long _) | some (.float _)
    | some (.double _) | some (.boolean _) | some (.dateTime _) | some (.record _) => cases clean
  | .struct fields, slot, slots, fits, clean, met => by
    match slot with
    | none => exact fits.concat_none
    | some (.record r) =>
      rw [encode, append, bind_pure_comp, Filling.met_map] at met
      exact appendFields_fits column fields r slots fits clean met
    | some (.string _) | some (.bytes _) | some (.int _) | some (.long _) | some (.float _)
    | some (.double _) | some (.boolean _) | some (.dateTime _) | some (.array _) => cases clean

theorem appendFields_fits (column : String) : ∀ (fields : List Field) (r : Record)
    (slots : List (Option Value)), fieldsFit fields slots → fieldsFaults column fields r = [] →
      (appendFields column fields r (encodeFields fields slots)).Met room →
        fieldsFit fields (slots ++ [some (.record r)])
  | [], _, _, _, _, _ => trivial
  | ⟨name, type, nullable, metadata⟩ :: fields, r, slots, ⟨here, later⟩, clean, met => by
    rw [fieldsFaults, List.append_eq_nil_iff, List.append_eq_nil_iff] at clean
    obtain ⟨⟨present, inside⟩, rest⟩ := clean
    rw [encodeFields, appendFields] at met
    obtain ⟨-, met⟩ := Filling.met_bind.mp met
    have placed := met () (by rw [Filling.result_lift, Field.require_eq_report, present]; rfl)
    obtain ⟨first, others⟩ := Filling.met_bind.mp placed
    have tail := others _ (by rw [append_encode, inside]; rfl)
    rw [bind_pure_comp, Filling.met_map] at tail
    refine ⟨?_, appendFields_fits column fields r slots later rest tail⟩
    rw [List.map_append]
    exact append_fits column type (r.value? name) (slots.map (fieldOf name)) here inside first

end

end Column

section Records

variable {room : CellType → Nat → Bool} {records : List Record}

theorem Field.fill_met {field : Field} (space : field.type.HasRoom room records.length)
    (fits : field.type.Fits (records.map fun r => r.value? field.name)) :
    (field.fill records).Met room := by
  refine Filling.met_bind.mpr ⟨Column.empty_met_iff.mpr space, fun column begun => ?_⟩
  rw [Column.empty_encode] at begun
  cases begun
  refine Filling.met_foldlM (f := field.put) field.put_encode records [] ?_
  rintro earlier r later rfl
  have whole : field.type.Fits ((earlier.map fun r => r.value? field.name) ++
      [r.value? field.name] ++ later.map fun r => r.value? field.name) := by
    simpa using fits
  exact Filling.met_bind.mpr
    ⟨Filling.met_lift _, fun _ _ => Column.append_met _ _ _ _ whole.of_append⟩

theorem Field.fits_of_fill_met {field : Field}
    (conform : ∀ r ∈ records, field.Conforms (r.value? field.name))
    (met : (field.fill records).Met room) :
    field.type.HasRoom room records.length ∧
      field.type.Fits (records.map fun r => r.value? field.name) := by
  obtain ⟨space, filling⟩ := Filling.met_bind.mp met
  have clean : ∀ r ∈ records, field.faults field.name (r.value? field.name) = [] := by
    intro r member
    exact (field.faults_eq_nil_iff _ _).mpr (conform r member)
  refine ⟨Column.empty_met_iff.mp space, ?_⟩
  refine Filling.foldlM_preserves (f := field.put)
    (P := fun seen => field.type.Fits (seen.map fun r => r.value? field.name)) field.put_encode
    records [] clean (fun seen r member held asked => ?_) (ColumnType.fits_nil _)
    (filling _ (Column.empty_encode ..))
  obtain ⟨present, inside⟩ := List.append_eq_nil_iff.mp (clean r member)
  have placed := (Filling.met_bind.mp asked).2 () (by
    rw [Filling.result_lift, Field.require_eq_report, present]
    rfl)
  simpa using Column.append_fits _ _ _ _ held inside placed

namespace Batch

theorem fill_met {schema : Schema}
    (fits : ∀ layout, schema.layout = .ok layout → layout.Fits room records) :
    (fill schema records).Met room := by
  refine Filling.met_bind.mpr ⟨Filling.met_lift _, fun layout valid => ?_⟩
  have fields := Filling.met_mapM fun field member =>
    Field.fill_met (fits layout valid field member).1 (fits layout valid field member).2
  exact Filling.met_bind.mpr ⟨fields, fun _ _ => Filling.met_pure _⟩

theorem fits_of_fill_met {schema : Schema} {layout : Layout} (valid : schema.layout = .ok layout)
    (conform : ∀ field ∈ layout.fields, ∀ r ∈ records, field.Conforms (r.value? field.name))
    (met : (fill schema records).Met room) : layout.Fits room records := by
  have fields := (Filling.met_bind.mp ((Filling.met_bind.mp met).2 layout valid)).1
  intro field member
  refine Field.fits_of_fill_met (conform field member) (Filling.met_of_mapM ?_ fields field member)
  intro field member
  have clean := (field.faults_all_eq_nil_iff records).mpr (conform field member)
  exact ⟨_, by rw [field.fill_eq_report, clean, report_nil]⟩

theorem fill_met_iff {schema : Schema} {layout : Layout} (valid : schema.layout = .ok layout)
    (conform : ∀ field ∈ layout.fields, ∀ r ∈ records, field.Conforms (r.value? field.name)) :
    (fill schema records).Met room ↔ layout.Fits room records := by
  refine ⟨fits_of_fill_met valid conform, fun fits => fill_met fun other same => ?_⟩
  rw [valid] at same
  cases same
  exact fits

theorem convert_eq_ok_iff {schema : Schema} {answer : Except ColumnarError Batch} :
    convert room schema records = .ok answer ↔
      (fill schema records).Met room ∧ ofRecords schema records = answer :=
  Filling.run_eq_ok_iff

/-- Nothing but the machine keeps records that conform from becoming a batch. -/
theorem convert_of_conform (room : CellType → Nat → Bool) {schema : Schema} {layout : Layout}
    (valid : schema.layout = .ok layout)
    (conform : ∀ field ∈ layout.fields, ∀ r ∈ records, field.Conforms (r.value? field.name)) :
    (∀ error, convert room schema records ≠ .ok (.error error)) ∧
      ((∃ batch, convert room schema records = .ok (.ok batch)) ↔ layout.Fits room records) := by
  obtain ⟨batch, made⟩ := (ofRecords_outcome schema records).1.mpr ⟨layout, valid, conform⟩
  simp [convert_eq_ok_iff, fill_met_iff valid conform, made]

end Batch

end Records

end TypedRecords
