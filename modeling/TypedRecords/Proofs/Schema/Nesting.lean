import TypedRecords.Schema.Draft

/-! Entries at every depth. An entry of a schema may have an element schema, of which the entries
stand one level deeper. -/
namespace TypedRecords

/-- The entry belongs to the schema, or at some depth to an element schema in it. Entries of all
types count that have an element schema. -/
inductive Schema.Contains : Schema → Entry → Prop
  | listed {schema : Schema} {entry : Entry} (member : entry ∈ schema.entries) :
      Schema.Contains schema entry
  | nested {schema element : Schema} {parent entry : Entry} (member : parent ∈ schema.entries)
      (own : parent.element? = some element) (inside : Schema.Contains element entry) :
      Schema.Contains schema entry

section Throughout

variable {P : Entry → Prop}

def Schema.Throughout (P : Entry → Prop) (schema : Schema) : Prop :=
  ∀ entry, schema.Contains entry → P entry

def Entry.Throughout (P : Entry → Prop) (entry : Entry) : Prop :=
  P entry ∧ ∀ element, entry.element? = some element → element.Throughout P

theorem Schema.throughout_iff {schema : Schema} :
    schema.Throughout P ↔ ∀ entry ∈ schema.entries, entry.Throughout P := by
  constructor
  · intro throughout entry member
    refine ⟨throughout entry (.listed member), fun element own inner inside => ?_⟩
    exact throughout inner (.nested member own inside)
  · intro each entry contained
    cases contained with
    | listed member => exact (each entry member).1
    | nested member own inside => exact (each _ member).2 _ own entry inside

theorem Schema.throughout_of (type : FieldType) : Schema.Throughout P { type } :=
  Schema.throughout_iff.mpr (by simp)

end Throughout

/-- A frozen entry has a name, and the element schema of its draft. -/
theorem EntryDraft.freeze_eq_ok {draft : EntryDraft} {entry : Entry}
    (frozen : draft.freeze = .ok entry) : entry.name ≠ "" ∧ entry.element? = draft.element? := by
  unfold freeze at frozen
  split at frozen
  · cases frozen
  · next name _ =>
    split at frozen
    · cases frozen
    · next named =>
      split at frozen
      · cases frozen
      · obtain rfl := Except.ok.inj frozen
        exact ⟨by simpa using named, rfl⟩

end TypedRecords
