import TypedRecords.Columnar.Column

/-! Batches: records as columns under the layout of a schema. The columns are filled one after
another, each from the first record to the last. -/
namespace TypedRecords

structure Batch where
  layout : Layout
  rows : Nat
  columns : List Column

/-- Appends the value of a record. The name of the field is the one that errors name, at every
depth. -/
def Field.put (field : Field) (column : Column) (r : Record) : Filling Column := do
  field.require field.name (r.value? field.name)
  column.append field.name field.type (r.value? field.name)

def Field.fill (field : Field) (records : List Record) : Filling Column := do
  let column ← Column.empty records.length field.type
  records.foldlM field.put column

namespace Batch

def fill (schema : Schema) (records : List Record) : Filling Batch := do
  let layout ← schema.layout
  let columns ← layout.fields.mapM fun field => field.fill records
  return { layout, rows := records.length, columns }

/-- What the records become if every demand is met. -/
def ofRecords (schema : Schema) (records : List Record) : Except ColumnarError Batch :=
  (fill schema records).result

/-- What the records become on a machine with some room, which may end at a demand before. -/
def convert (room : CellType → Nat → Bool) (schema : Schema) (records : List Record) :
    Except Demand (Except ColumnarError Batch) :=
  (fill schema records).run room

end Batch

end TypedRecords
