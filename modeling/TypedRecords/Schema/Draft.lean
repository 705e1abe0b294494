import TypedRecords.Schema

/-! Drafts of entries and schemas. Freezing a draft gives the finished form, or the first fault
that a reading from the start meets. -/
namespace TypedRecords

inductive SchemaError
  | missingEntryName
  | emptyEntryName
  | missingEntryType (name : String)
  | duplicateEntry (name : String)
  | missingElementSchema (name : String) (type : FieldType)
deriving DecidableEq

def SchemaError.message : SchemaError → String
  | missingEntryName => "entry has no name"
  | emptyEntryName => "entry name must not be empty"
  | missingEntryType name => "entry '" ++ name ++ "' has no type"
  | duplicateEntry name => "duplicate entry '" ++ name ++ "' in schema"
  | missingElementSchema name type =>
    "entry '" ++ name ++ "' of type " ++ type.name ++ " has no element schema"

structure EntryDraft where
  name? : Option String := none
  rawName? : Option String := none
  type? : Option FieldType := none
  nullable : Bool := false
  element? : Option Schema := none
  comment? : Option String := none
  props : Props := .empty

namespace EntryDraft

def addProp (draft : EntryDraft) (key value : String) : EntryDraft :=
  { draft with props := draft.props.insert key value }

def addProps (draft : EntryDraft) (pairs : List (String × String)) : EntryDraft :=
  { draft with props := draft.props.merge pairs }

/-- A missing element schema is no fault here: an entry need not belong to a schema. -/
def freeze (draft : EntryDraft) : Except SchemaError Entry :=
  match draft.name? with
  | none => .error .missingEntryName
  | some name =>
    if name.isEmpty then .error .emptyEntryName
    else match draft.type? with
      | none => .error (.missingEntryType name)
      | some type => .ok {
          name, type
          rawName? := draft.rawName?
          nullable := draft.nullable
          element? := draft.element?
          comment? := draft.comment?
          props := draft.props }

end EntryDraft

structure SchemaDraft where
  type : FieldType := .record
  entries : List Entry := []
  props : Props := .empty

namespace SchemaDraft

def addEntry (draft : SchemaDraft) (entry : Entry) : SchemaDraft :=
  { draft with entries := draft.entries ++ [entry] }

def addProp (draft : SchemaDraft) (key value : String) : SchemaDraft :=
  { draft with props := draft.props.insert key value }

def addProps (draft : SchemaDraft) (pairs : List (String × String)) : SchemaDraft :=
  { draft with props := draft.props.merge pairs }

/-- The first entry at fault after entries with the `seen` names. A repeated name comes before a
missing element schema of the same entry. -/
def fault? (seen : List String) : List Entry → Option SchemaError
  | [] => none
  | entry :: entries =>
    if seen.contains entry.name then some (.duplicateEntry entry.name)
    else if entry.lacksElement then some (.missingElementSchema entry.name entry.type)
    else fault? (entry.name :: seen) entries

def freeze (draft : SchemaDraft) : Except SchemaError Schema :=
  match fault? [] draft.entries with
  | some error => .error error
  | none => .ok ⟨draft.type, draft.entries, draft.props⟩

end SchemaDraft

end TypedRecords
