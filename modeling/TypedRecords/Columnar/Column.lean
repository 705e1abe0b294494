import TypedRecords.Columnar.Filling
import TypedRecords.Value

/-! Columns, and how they are filled slot by slot. The first value that does not belong into its
column ends the filling with an error. New columns ask for room for some slots, and each slot of a
column with offsets for the offset at its end. -/
namespace TypedRecords

namespace CellType

abbrev Carrier : CellType → Type
  | utf8 => String
  | int32 => Int32
  | int64 => Int64
  | float32 => Single
  | float64 => Double
  | boolean => Bool
  | binary => ByteArray
  | timestamp => Int64

/-- The cell of a stored value. Values are not coerced, but a long may stand for a timestamp. -/
def cell? : (type : CellType) → Value → Option type.Carrier
  | utf8, .string text => some text
  | int32, .int n => some n
  | int64, .long n => some n
  | float32, .float x => some x
  | float64, .double x => some x
  | boolean, .boolean b => some b
  | binary, .bytes data => some data
  | timestamp, .dateTime millis => some millis
  | timestamp, .long millis => some millis
  | _, _ => none

def variantName : CellType → String
  | utf8 => "String"
  | int32 => "Int"
  | int64 => "Long"
  | float32 => "Float"
  | float64 => "Double"
  | boolean => "Boolean"
  | binary => "Bytes"
  | timestamp => "DateTime"

/-- The bytes of a cell that its column keeps in one row with those of the other cells. Cells of a
fixed width have none. -/
def size : (type : CellType) → type.Carrier → Nat
  | utf8, text => text.utf8ByteSize
  | binary, data => data.size
  | _, _ => 0

def totalSize (type : CellType) : List (Option type.Carrier) → Nat
  | [] => 0
  | slot :: slots => slot.elim 0 type.size + totalSize type slots

@[simp] theorem totalSize_nil (type : CellType) : type.totalSize [] = 0 := rfl

@[simp] theorem totalSize_append (type : CellType) (slots more : List (Option type.Carrier)) :
    type.totalSize (slots ++ more) = type.totalSize slots + type.totalSize more := by
  induction slots with
  | nil => simp
  | cons slot slots ih => simp only [List.cons_append, totalSize, ih, Nat.add_assoc]

@[simp] theorem totalSize_replicate (type : CellType) (count : Nat)
    (slot : Option type.Carrier) :
    type.totalSize (List.replicate count slot) = count * slot.elim 0 type.size := by
  induction count with
  | zero => simp
  | succ count ih => rw [List.replicate_succ, totalSize, ih, Nat.succ_mul, Nat.add_comm]

/-- A slot takes these bits, which are those of an offset if the cells have no fixed width. -/
def slotBits : CellType → Nat
  | boolean => 1
  | utf8 | int32 | float32 | binary => 32
  | int64 | float64 | timestamp => 64

/-- The room of a machine that has all the memory it can address: no column may begin with 2^63
bytes. -/
def addressable (type : CellType) (slots : Nat) : Bool :=
  decide (slots * type.slotBits < 8 * 9223372036854775808)

end CellType

def ColumnType.variantName : ColumnType → String
  | cells type => type.variantName
  | list _ => "Array"
  | struct _ => "Record"

/-- The items of slot `i` of a list are those from offset `i` to the next. A struct without value
has a slot without value in each of its columns. -/
inductive Column where
  | cells (type : CellType) (slots : List (Option type.Carrier))
  | list (valid : List Bool) (offsets : List Nat) (items : Column)
  | struct (valid : List Bool) (columns : List Column)

def Value.typeError (column expected : String) (v : Value) : ColumnarError :=
  .valueType column expected v.variantName

def Field.require (column : String) (field : Field) (slot : Option Value) :
    Except ColumnarError Unit :=
  if slot.isNone && !field.nullable then .error (.valueType column field.type.variantName "Null")
  else .ok ()

def CellType.cellOf (column : String) (type : CellType) :
    Option Value → Except ColumnarError (Option type.Carrier)
  | none => .ok none
  | some v =>
    match type.cell? v with
    | some cell => .ok (some cell)
    | none => .error (v.typeError column type.variantName)

namespace Column

def validity : Column → List Bool
  | cells _ slots => slots.map Option.isSome
  | list valid _ _ => valid
  | struct valid _ => valid

def length : Column → Nat
  | cells _ slots => slots.length
  | list valid _ _ => valid.length
  | struct valid _ => valid.length

def greatestSize : Nat := UInt64.size - 1

/-- A list with room for some slots has room for four times as many items, as far as sizes go. -/
def itemCapacity (capacity : Nat) : Nat := min (capacity * 4) greatestSize

mutual

def empty (capacity : Nat) : ColumnType → Filling Column
  | .cells type => do
    Filling.ask (.room type capacity)
    return .cells type []
  | .list ⟨_, type, _, _⟩ => do
    let items ← empty (itemCapacity capacity) type
    return .list [] [0] items
  | .struct fields => do
    let columns ← emptyFields capacity fields
    return .struct [] columns

def emptyFields (capacity : Nat) : List Field → Filling (List Column)
  | [] => return []
  | ⟨_, type, _, _⟩ :: fields => do
    let column ← empty capacity type
    let columns ← emptyFields capacity fields
    return column :: columns

end

def nextOffset : Column → Nat
  | cells type slots => type.totalSize slots
  | list _ _ items => items.length
  | struct _ _ => 0

def close (column : Column) : Filling Column := do
  Filling.ask (.offset column.nextOffset)
  return column

@[simp] theorem result_close (column : Column) : column.close.result = .ok column := rfl

@[simp] theorem demands_close (column : Column) :
    column.close.demands = [.offset column.nextOffset] := rfl

/-- Cells go into columns of their own type only; other columns are left alone. -/
def push (type : CellType) (cell : Option type.Carrier) : Column → Column
  | .cells held slots =>
    if same : type = held then .cells held (slots ++ [same ▸ cell]) else .cells held slots
  | column => column

mutual

/-- Appends one slot to a column of the type. An item is a slot of the column of items; a struct
without value has a slot without value in each of its columns. -/
def append (name : String) : ColumnType → Option Value → Column → Filling Column
  | .cells type, slot, column => do
    let cell ← type.cellOf name slot
    (column.push type cell).close
  | .list ⟨_, type, _, _⟩, slot, .list valid offsets items =>
    match slot with
    | some (.array values) => do
      let items ← values.foldlM (fun items v => append name type (some v) items) items
      close (.list (valid ++ [true]) (offsets ++ [items.length]) items)
    | none => close (.list (valid ++ [false]) (offsets ++ [items.length]) items)
    | some other => .fail (other.typeError name "Array")
  | .struct fields, slot, .struct valid columns =>
    match slot with
    | some (.record r) => do
      let columns ← appendFields name fields r columns
      return .struct (valid ++ [true]) columns
    | none => do
      let columns ← appendNulls name fields columns
      return .struct (valid ++ [false]) columns
    | some other => .fail (other.typeError name "Record")
  | _, _, column => return column

def appendFields (name : String) : List Field → Record → List Column → Filling (List Column)
  | ⟨fieldName, type, nullable, metadata⟩ :: fields, r, column :: columns => do
    Field.require name ⟨fieldName, type, nullable, metadata⟩ (r.value? fieldName)
    let column ← append name type (r.value? fieldName) column
    let columns ← appendFields name fields r columns
    return column :: columns
  | _, _, columns => return columns

/-- Nothing is required under a struct without value. -/
def appendNulls (name : String) : List Field → List Column → Filling (List Column)
  | ⟨_, type, _, _⟩ :: fields, column :: columns => do
    let column ← append name type none column
    let columns ← appendNulls name fields columns
    return column :: columns
  | _, columns => return columns

end

end Column

end TypedRecords
