import TypedRecords.FieldType
import TypedRecords.Props

/-! Schemas and their entries. Equality compares structure and the order of the entries, and
ignores the order of properties at every depth. -/
namespace TypedRecords

mutual

structure Schema where
  type : FieldType
  entries : List Entry := []
  props : Props := .empty

structure Entry where
  name : String
  rawName? : Option String := none
  type : FieldType
  nullable : Bool := false
  element? : Option Schema := none
  comment? : Option String := none
  props : Props := .empty

end

namespace Entry

def externalName (entry : Entry) : String := entry.rawName?.getD entry.name

def observed (name : String) (type : FieldType) : Entry := { name, type, nullable := true }

def lacksElement (entry : Entry) : Bool := entry.type.needsElement && entry.element?.isNone

/-- Of several entries with one name the last. -/
def lastNamed? (name : String) (entries : List Entry) : Option Entry :=
  entries.reverse.find? fun entry => entry.name == name

end Entry

namespace Schema

def names (schema : Schema) : List String := schema.entries.map Entry.name

/-- Of several entries with one name the first. -/
def entry? (schema : Schema) (name : String) : Option Entry :=
  schema.entries.find? fun entry => entry.name == name

def lastEntry? (schema : Schema) (name : String) : Option Entry :=
  Entry.lastNamed? name schema.entries

/-- Where the entry of each name stands. A position that comes later replaces an earlier one. -/
def index (schema : Schema) : NameMap Nat := .ofList schema.names.zipIdx

/-- The entry that the index leads to. -/
def indexed? (schema : Schema) (name : String) : Option Entry :=
  (schema.index.find? name).bind fun position => schema.entries[position]?

end Schema

mutual

def Schema.same : Schema → Schema → Bool
  | ⟨type, entries, props⟩, other =>
    type == other.type && sameEntries entries other.entries && props == other.props

def Entry.same : Entry → Entry → Bool
  | ⟨name, rawName?, type, nullable, element?, comment?, props⟩, other =>
    name == other.name && rawName? == other.rawName? && type == other.type &&
      nullable == other.nullable && sameElement element? other.element? &&
      comment? == other.comment? && props == other.props

def sameElement : Option Schema → Option Schema → Bool
  | none, none => true
  | some schema, some other => schema.same other
  | _, _ => false

def sameEntries : List Entry → List Entry → Bool
  | [], [] => true
  | entry :: entries, other :: others => entry.same other && sameEntries entries others
  | _, _ => false

end

instance : BEq Schema := ⟨Schema.same⟩

instance : BEq Entry := ⟨Entry.same⟩

end TypedRecords
