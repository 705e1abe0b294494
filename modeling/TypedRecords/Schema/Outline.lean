import TypedRecords.Schema

/-! A readable outline of a schema, as lines. A primitive entry without properties takes one
line; any other entry opens a block, and the schemas of arrays and records follow inside it. -/
namespace TypedRecords.Outline

def line (indent : Nat) (text : String) : String := "".pushn ' ' indent ++ text

/-- Properties stand under a header, which is left out where there are none. -/
def propLines (indent : Nat) (props : Props) : List String :=
  if props.isEmpty then []
  else line indent "props:" ::
    props.pairs.map fun pair => line (indent + 4) (pair.1 ++ ": " ++ pair.2)

def flag (nullable : Bool) : String := "nullable: " ++ toString nullable

mutual

def entryLines (indent : Nat) : Entry → List String
  | ⟨name, _, type, nullable, element?, _, props⟩ =>
    if type.isPrimitive && props.isEmpty then
      [line indent (name ++ ": \x7b type: " ++ type.name ++ ", " ++ flag nullable ++ " \x7d")]
    else
      line indent (name ++ ":") ::
      line (indent + 4) ("type: " ++ type.name) ::
      line (indent + 4) (flag nullable) ::
      contentLines (indent + 4) type element? ++ propLines (indent + 4) props

/-- What the element schema adds: the fields of a record; the type of an array's elements, with
their fields if they have any. -/
def contentLines (indent : Nat) (type : FieldType) : Option Schema → List String
  | none => []
  | some ⟨elementType, entries, _⟩ =>
    match type with
    | .record => line indent "fields:" :: entriesLines (indent + 4) entries
    | .array =>
      line indent "element:" :: line (indent + 4) ("type: " ++ elementType.name) ::
        if entries.isEmpty then []
        else line (indent + 4) "fields:" :: entriesLines (indent + 8) entries
    | _ => []

def entriesLines (indent : Nat) : List Entry → List String
  | [] => []
  | entry :: entries => entryLines indent entry ++ entriesLines indent entries

end

end TypedRecords.Outline

namespace TypedRecords.Schema

def outlineLines (schema : Schema) : List String :=
  Outline.entriesLines 0 schema.entries ++ Outline.propLines 0 schema.props

/-- Every line is ended. -/
def outline (schema : Schema) : String :=
  String.join (schema.outlineLines.map fun line => line ++ "\n")

instance : ToString Schema := ⟨outline⟩

end TypedRecords.Schema
