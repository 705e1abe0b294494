import TypedRecords.Proofs.Columnar.Described
import TypedRecords.Proofs.Columnar.Skeleton

/-! Which schemas have a layout, and what the others fail for. The entries that a layout is made
from are met depth first, and each is judged by its own element schema: the first one at fault is
the one that the error names. -/
namespace TypedRecords

mutual

def Entry.depthFirst : Entry → List Entry
  | ⟨name, rawName?, type, nullable, element?, comment?, props⟩ =>
    ⟨name, rawName?, type, nullable, element?, comment?, props⟩ ::
      if type.needsElement then elementEntries element? else []

def elementEntries : Option Schema → List Entry
  | none => []
  | some ⟨type, entries, _⟩ => if type = .record then depthFirstOf entries else []

def depthFirstOf : List Entry → List Entry
  | [] => []
  | entry :: entries => entry.depthFirst ++ depthFirstOf entries

end

/-- The entries of the schema, each followed by those below it. Below scalars there are none,
whatever element schema they have. -/
def Schema.depthFirst (schema : Schema) : List Entry := depthFirstOf schema.entries

section Throughout

variable {P : Entry → Prop}

mutual

theorem Entry.forall_depthFirst : ∀ {entry : Entry},
    entry.Throughout P → ∀ e ∈ entry.depthFirst, P e
  | ⟨name, rawName?, type, nullable, element?, comment?, props⟩, throughout, e, member => by
    rw [Entry.depthFirst, List.mem_cons] at member
    rcases member with rfl | below
    · exact throughout.1
    · split at below
      · exact forall_elementEntries element? throughout.2 e below
      · exact absurd below List.not_mem_nil

theorem forall_elementEntries : ∀ (element? : Option Schema),
    (∀ element, element? = some element → element.Throughout P) → ∀ e ∈ elementEntries element?, P e
  | some ⟨type, entries, props⟩, throughout, e, member => by
    rw [elementEntries] at member
    split at member
    · exact forall_depthFirstOf (Schema.throughout_iff.mp (throughout _ rfl)) e member
    · exact absurd member List.not_mem_nil

theorem forall_depthFirstOf : ∀ {entries : List Entry},
    (∀ entry ∈ entries, entry.Throughout P) → ∀ e ∈ depthFirstOf entries, P e
  | entry :: entries, throughout, e, member => by
    obtain ⟨first, rest⟩ := List.forall_mem_cons.mp throughout
    rw [depthFirstOf, List.mem_append] at member
    rcases member with here | later
    · exact Entry.forall_depthFirst first e here
    · exact forall_depthFirstOf rest e later

end

end Throughout

/-- A computation that fails with the first of the faults, and only if there are any. -/
def Reports {ε α : Type} : List ε → Except ε α → Prop
  | [], x => ∃ a, x = .ok a
  | fault :: _, x => x = .error fault

section Reports

variable {ε α β : Type} {faults later : List ε} {x : Except ε α}

theorem Reports.map (reports : Reports faults x) (f : α → β) : Reports faults (x.map f) := by
  cases faults with
  | nil =>
    obtain ⟨a, rfl⟩ := reports
    exact ⟨f a, rfl⟩
  | cons fault faults =>
    obtain rfl : x = .error fault := reports
    rfl

theorem Reports.bind {next : α → Except ε β} (reports : Reports faults x)
    (rest : ∀ a, Reports later (next a)) : Reports (faults ++ later) (x >>= next) := by
  cases faults with
  | nil =>
    obtain ⟨a, rfl⟩ := reports
    exact rest a
  | cons fault faults =>
    obtain rfl : x = .error fault := reports
    rfl

theorem Reports.ok_iff (reports : Reports faults x) : (∃ a, x = .ok a) ↔ faults = [] := by
  cases faults with
  | nil => exact iff_of_true reports rfl
  | cons fault faults =>
    obtain rfl : x = .error fault := reports
    simp

theorem Reports.error_iff (reports : Reports faults x) {error : ε} :
    x = .error error ↔ faults.head? = some error := by
  cases faults with
  | nil =>
    obtain ⟨a, rfl⟩ := reports
    simp
  | cons fault faults =>
    obtain rfl : x = .error fault := reports
    simp

end Reports

def Entry.fault? (entry : Entry) : Option ColumnarError :=
  if entry.type.needsElement then
    match entry.element? with
    | none => some (.invalidSchema (.missingElementSchema entry.name entry.type))
    | some element =>
      if element.Unfit entry.type then some (.unsupportedElement entry.name element.type) else none
  else none

theorem Entry.toList_fault? {entry : Entry} {element : Schema}
    (needed : entry.type.needsElement = true) (own : entry.element? = some element) :
    entry.fault?.toList =
      if element.Unfit entry.type then [.unsupportedElement entry.name element.type] else [] := by
  simp only [fault?, needed, own, if_true]
  split <;> rfl

theorem filterMap_cons_eq_toList {α β : Type} (f : α → Option β) (a : α) (as : List α) :
    (a :: as).filterMap f = (f a).toList ++ as.filterMap f := by
  cases found : f a <;> simp [found]

mutual

theorem Entry.field_reports : ∀ entry : Entry,
    Reports (entry.depthFirst.filterMap Entry.fault?) entry.field
  | ⟨name, rawName?, type, nullable, element?, comment?, props⟩ => by
    rw [Entry.depthFirst, filterMap_cons_eq_toList]
    cases kind : type.cellType? with
    | some cell =>
      have scalar := FieldType.needsElement_of_cells kind
      rw [Entry.field_of_cells kind]
      simpa [Entry.fault?, scalar] using ⟨_, rfl⟩
    | none =>
      have needed : type.needsElement = true := FieldType.cellType?_eq_none_iff.mp kind
      cases own : element? with
      | none =>
        rw [Entry.field_of_lacking kind rfl]
        simp [Entry.fault?, needed, Reports]
      | some element =>
        have below := elementEntries_reports name needed element? own
        rw [Entry.field_eq_map kind rfl, Entry.toList_fault? needed rfl, if_pos needed, ← own]
        exact below.map _

-- for the optional schema that the entry holds, so that the recursion passes through it
theorem elementEntries_reports (name : String) {type : FieldType}
    (needed : type.needsElement = true) : ∀ (element? : Option Schema) {element : Schema},
      element? = some element →
      Reports ((if element.Unfit type then [.unsupportedElement name element.type] else []) ++
        (elementEntries element?).filterMap Entry.fault?) (element.nestedType name type)
  | some ⟨elementType, entries, props⟩, _, rfl => by
    obtain ⟨unfit, fails⟩ | ⟨fit, isRecord, shape⟩ | ⟨fit, -, cell, kind, shape⟩ :=
      Schema.nestedType_shape name needed ⟨elementType, entries, props⟩
    · -- the entry itself is at fault, whatever there is below it
      rw [if_pos unfit, fails]
      rfl
    · obtain rfl : elementType = .record := isRecord
      rw [if_neg fit, shape, elementEntries, if_pos rfl, List.nil_append]
      exact (depthFirstOf_reports entries).map _
    · have scalar : elementType ≠ .record := by
        rintro rfl
        cases kind
      rw [if_neg fit, shape, elementEntries, if_neg scalar]
      exact ⟨_, rfl⟩

theorem depthFirstOf_reports : ∀ entries : List Entry,
    Reports ((depthFirstOf entries).filterMap Entry.fault?) (fieldsOf entries)
  | [] => ⟨[], by rw [fieldsOf]⟩
  | entry :: entries => by
    rw [depthFirstOf, List.filterMap_append, fieldsOf]
    exact entry.field_reports.bind fun field => (depthFirstOf_reports entries).map (field :: ·)

end

/-- The element schema, if there is one, fits the type of the entry. -/
def Entry.Supported (entry : Entry) : Prop :=
  ∀ element, entry.element? = some element → ¬ element.Unfit entry.type

section Described

variable {entry : Entry} (described : entry.lacksElement = false)

include described

theorem Entry.fault?_eq_some_iff {error : ColumnarError} : entry.fault? = some error ↔
    ∃ element, entry.element? = some element ∧ element.Unfit entry.type ∧
      error = .unsupportedElement entry.name element.type := by
  unfold Entry.fault?
  cases needed : entry.type.needsElement with
  | false =>
    have fits (element : Schema) : ¬ element.Unfit entry.type := fun unfit => by
      simp [unfit.needed] at needed
    simp [fits]
  | true =>
    cases own : entry.element? with
    | none => simp [Entry.lacksElement, needed, own] at described
    | some element => by_cases unfit : element.Unfit entry.type <;> simp [unfit, eq_comm]

theorem Entry.fault?_eq_none_iff : entry.fault? = none ↔ entry.Supported := by
  simp only [Option.eq_none_iff_forall_ne_some, ne_eq, Entry.fault?_eq_some_iff described]
  constructor
  · exact fun clean element own unfit => clean _ ⟨element, own, unfit, rfl⟩
  · rintro supported _ ⟨element, own, unfit, -⟩
    exact supported element own unfit

end Described

namespace Schema

variable {schema : Schema}

theorem layout_of_not_record (other : schema.type ≠ .record) :
    schema.layout = .error (.unsupportedElement "" schema.type) :=
  if_neg other

theorem layout_reports (isRecord : schema.type = .record) :
    Reports (schema.depthFirst.filterMap Entry.fault?) schema.layout := by
  rw [layout, if_pos isRecord]
  exact (depthFirstOf_reports schema.entries).map _

section Described

variable (described : ∀ entry ∈ schema.depthFirst, entry.lacksElement = false)

include described

theorem exists_layout_iff : (∃ layout, schema.layout = .ok layout) ↔
    schema.type = .record ∧ ∀ entry ∈ schema.depthFirst, entry.Supported := by
  by_cases isRecord : schema.type = .record
  · rw [(layout_reports isRecord).ok_iff, List.filterMap_eq_nil_iff]
    simp only [isRecord, true_and]
    exact forall₂_congr fun entry member => Entry.fault?_eq_none_iff (described entry member)
  · simp [layout_of_not_record isRecord, isRecord]

/-- The entries before the one that is at fault are all supported. -/
theorem layout_error_iff {error : ColumnarError} : schema.layout = .error error ↔
    (schema.type ≠ .record ∧ error = .unsupportedElement "" schema.type) ∨
    (schema.type = .record ∧ ∃ before entry after element,
      schema.depthFirst = before ++ entry :: after ∧ (∀ e ∈ before, e.Supported) ∧
      entry.element? = some element ∧ element.Unfit entry.type ∧
      error = .unsupportedElement entry.name element.type) := by
  by_cases isRecord : schema.type = .record
  · rw [(layout_reports isRecord).error_iff, List.head?_filterMap, List.findSome?_eq_some_iff]
    simp only [isRecord, ne_eq, not_true_eq_false, false_and, true_and, false_or]
    refine exists_congr fun before => exists_congr fun entry => exists_congr fun after => ?_
    rw [exists_and_left, exists_and_left]
    -- the split says which entries these are, and so that they lack no element schema
    refine and_congr_right fun split => ?_
    have here : entry.lacksElement = false := described entry (by simp [split])
    have earlier : ∀ e ∈ before, e.lacksElement = false := fun e member =>
      described e (by simp [split, member])
    rw [and_comm, Entry.fault?_eq_some_iff here]
    exact and_congr_left fun _ => forall₂_congr fun e member =>
      Entry.fault?_eq_none_iff (earlier e member)
  · simp [layout_of_not_record isRecord, isRecord, eq_comm]

end Described

/-- A schema that can be had has a layout exactly if it is a record schema and the element schema of
each of its arrays and records fits, where the entries of record schemas count at every depth, if
these are the element schemas of arrays or records. Otherwise the error names the schema itself or
the first entry at fault. From the layout the skeleton of the schema can be read back, and schemas
have one layout exactly if they have one skeleton. -/
theorem layout_faithful (reachable : schema.Reachable fun _ => True) :
    ((∃ layout, schema.layout = .ok layout) ↔
      schema.type = .record ∧ ∀ entry ∈ schema.depthFirst, entry.Supported) ∧
    (∀ error, schema.layout = .error error ↔
      (schema.type ≠ .record ∧ error = .unsupportedElement "" schema.type) ∨
      (schema.type = .record ∧ ∃ before entry after element,
        schema.depthFirst = before ++ entry :: after ∧ (∀ e ∈ before, e.Supported) ∧
        entry.element? = some element ∧ element.Unfit entry.type ∧
        error = .unsupportedElement entry.name element.type)) ∧
    ∀ layout, schema.layout = .ok layout → layout.schema = schema.skeleton ∧
      ∀ other : Schema, other.layout = .ok layout ↔ other.skeleton = schema.skeleton := by
  have proper := Schema.throughout_iff.mp (reachable.proper fun _ _ => trivial)
  have described : ∀ entry ∈ schema.depthFirst, entry.lacksElement = false := fun entry member =>
    (forall_depthFirstOf proper entry member).described
  refine ⟨exists_layout_iff described, fun error => layout_error_iff described,
    fun layout mapped => ⟨layout_schema mapped, fun other => ⟨fun shared => ?_, fun same => ?_⟩⟩⟩
  · exact (layout_schema shared).symm.trans (layout_schema mapped)
  · rw [← other.layout_skeleton, same, schema.layout_skeleton, mapped]

/-- An array of records, and below a record an array of arrays. -/
theorem layout_faithful_rows :
    let x : Entry := { name := "x", type := .long, nullable := true }
    let item : Schema := { type := .record, entries := [x] }
    let list : Entry := { name := "list", type := .array, element? := some item }
    let rows : Entry := { name := "rows", type := .array, element? := some { type := .array } }
    let grid : Entry :=
      { name := "grid", type := .record, element? := some { type := .record, entries := [rows] } }
    let schema : Schema := { type := .record, entries := [list, grid] }
    schema.Reachable (fun _ => True) ∧ schema.depthFirst = [list, x, grid, rows] ∧
      schema.layout = .error (.unsupportedElement "rows" .array) ∧
      (∃ layout, item.layout = .ok layout) ∧
      ∀ layout, item.layout = .ok layout → layout.schema = item.skeleton := by
  intro x item list rows grid schema
  have arrays : Schema.Reachable (fun _ => True) { type := .array } := .of .array
  have items : item.Reachable fun _ => True :=
    reachable_of_entries (by simp [item, x]) (by simp [item, x]) rfl
  have inner : Schema.Reachable (fun _ => True) { type := .record, entries := [rows] } :=
    reachable_of_entries (by simp [rows]) (by simpa [rows] using arrays) rfl
  have reachable : schema.Reachable fun _ => True :=
    reachable_of_entries (by simp [schema, list, grid])
      (by simpa [schema, list, grid] using ⟨items, inner⟩) rfl
  obtain ⟨-, error_iff, -⟩ := layout_faithful reachable
  obtain ⟨-, -, read⟩ := layout_faithful items
  refine ⟨reachable, rfl, (error_iff _).mpr (.inr ⟨rfl, [list, x, grid], rows, [], _, rfl, ?_, rfl,
    by decide, rfl⟩), ⟨_, rfl⟩, fun layout mapped => (read layout mapped).1⟩
  simp [Entry.Supported, Schema.Unfit, list, x, grid, item]

/-- The element schema of a scalar has no part in the layout. An entry in it that would be at fault
below an array or a record is not even looked at, and the layout is that of the scalar alone. -/
theorem layout_ignores_scalar_element :
    let inner : Entry := { name := "b", type := .array, element? := some { type := .array } }
    let element : Schema := { type := .record, entries := [inner] }
    let entry : Entry := { name := "a", type := .string, element? := some element }
    let schema : Schema := { type := .record, entries := [entry] }
    let plain : Schema := { type := .record, entries := [{ name := "a", type := .string }] }
    schema.Reachable (fun _ => True) ∧ plain.Reachable (fun _ => True) ∧
      entry ∈ schema.entries ∧ entry.element? = some element ∧ element.type = .record ∧
      inner ∈ element.entries ∧ ¬ inner.Supported ∧
      ∃ layout, schema.layout = .ok layout ∧ plain.layout = .ok layout := by
  intro inner element entry schema plain
  have elements : element.Reachable fun _ => True :=
    reachable_of_entries (by simp [element, inner])
      (by simpa [element, inner] using .of .array) rfl
  have reachable : schema.Reachable fun _ => True :=
    reachable_of_entries (by simp [schema, entry]) (by simpa [schema, entry] using elements) rfl
  have plainly : plain.Reachable fun _ => True :=
    reachable_of_entries (by simp [plain]) (by simp [plain]) rfl
  refine ⟨reachable, plainly, List.mem_cons_self, rfl, rfl, List.mem_cons_self, fun supported => ?_,
    _, rfl, rfl⟩
  exact supported _ rfl (by decide)

end Schema

end TypedRecords
