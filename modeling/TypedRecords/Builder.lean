import TypedRecords.Builder.Policy
import TypedRecords.Builder.Write
import TypedRecords.RecordError

/-! Builders stage values and freeze them into a record. With a declared schema each write is
checked against the entry of its name; without one each write adds the entry it was made through,
and the schema of the record is assembled from these. -/
namespace TypedRecords

/-- Staged values and, without a declared schema, the entries of the accepted writes. -/
structure Builder where
  declared? : Option Schema := none
  policy : Policy := {}
  staged : NameMap Value := .empty
  observed : List Entry := []

structure WriteResult where
  error? : Option RecordError
  builder : Builder

namespace Builder

def start (declared? : Option Schema) (policy : Policy) : Builder := { declared?, policy }

def value? (b : Builder) (name : String) : Option Value := b.staged.find? name

/-- The declared entry of the name, or without a declared schema the entry observed. -/
def resolve (b : Builder) (name : String) (observed : Entry) : Except RecordError Entry :=
  match b.declared? with
  | none => .ok observed
  | some schema =>
    match schema.indexed? name with
    | some entry => .ok entry
    | none => .error (.unknownEntry name schema.names)

def declaredObjection? (b : Builder) (name : String) (type : FieldType) (isNull : Bool) :
    Option RecordError :=
  match b.declared? with
  | none => none
  | some schema =>
    match schema.indexed? name with
    | none => some (.unknownEntry name schema.names)
    | some entry =>
      if entry.type ≠ type then some (.typeMismatch name entry.type type)
      else if isNull && !entry.nullable then some (.notNullable name)
      else none

def objection? (b : Builder) (entry : Entry) (setter : FieldType) (input : FieldInput) :
    Option RecordError :=
  if entry.type ≠ setter then some (.typeMismatch entry.name entry.type setter)
  else if entry.lacksElement then some (.missingElementSchema entry.name setter)
  else (b.declaredObjection? entry.name setter input.isNull).or
    (if setter.isCompatible input then none
      else some (.incompatibleValue entry.name setter input.variantName))

def nullValue? (b : Builder) (entry : Entry) : Option Value :=
  if entry.type = .dateTime ∧ entry.nullable ∧ b.policy.nullDateTime = .sentinel then
    some (.dateTime (-1))
  else none

/-- The stored form of an input. Under a `DATETIME` entry a long counts milliseconds. -/
def stored? (b : Builder) (entry : Entry) (setter : FieldType) : FieldInput → Option Value
  | .null => b.nullValue? entry
  | .temporal t => some (.dateTime t.toMillis)
  | .value (.long millis) => some (if setter = .dateTime then .dateTime millis else .long millis)
  | .value v => some v

def observe (b : Builder) (entry : Entry) : Builder :=
  match b.declared? with
  | none => { b with observed := b.observed ++ [entry] }
  | some _ => b

/-- Without a declared schema a null gives the field the type of its entry, and a staged value
that is not of this type is dropped. -/
def dropStale (b : Builder) (entry : Entry) : Builder :=
  match b.declared?, b.value? entry.name with
  | none, some v =>
    if entry.type.accepts v then b else { b with staged := b.staged.erase entry.name }
  | _, _ => b

def append (b : Builder) (entry : Entry) : Option Value → WriteResult
  | some v => ⟨none, { b with staged := b.staged.insert entry.name v }.observe entry⟩
  | none =>
    if entry.nullable then ⟨none, (b.dropStale entry).observe entry⟩
    else ⟨some (.notNullable entry.name), b⟩

def set (b : Builder) (entry : Entry) (setter : FieldType) (input : FieldInput) : WriteResult :=
  match b.objection? entry setter input with
  | some error => ⟨some error, b⟩
  | none => b.append entry (b.stored? entry setter input)

def setNamed (b : Builder) (name : String) (observed : Entry) (setter : FieldType)
    (input : FieldInput) : WriteResult :=
  match b.resolve name observed with
  | .error error => ⟨some error, b⟩
  | .ok entry => b.set entry setter input

def write (b : Builder) : Write → WriteResult
  | .named name payload =>
    b.setNamed name (payload.observedEntry name) payload.type payload.input
  | .through entry payload => b.set entry payload.type payload.input
  | .namedNull name type => b.setNamed name (.observed name type) type .null
  | .nullThrough entry => b.set entry entry.type .null
  | .generic entry input => b.set entry entry.type input

def run (b : Builder) (writes : List Write) : Builder :=
  writes.foldl (fun b w => (b.write w).builder) b

/-- Declared entries that may not be null and have no value, in the order of declaration. -/
def missing (b : Builder) : List String :=
  match b.declared? with
  | none => []
  | some schema =>
    (schema.entries.filter fun entry => !entry.nullable && !b.staged.contains entry.name).map
      Entry.name

def checkRequired (b : Builder) : Except RecordError Unit :=
  if b.missing.isEmpty then .ok () else .error (.missingRequiredEntries b.missing)

/-- Entries of different names, and where each name stands among them. -/
structure Kept where
  positions : NameMap Nat := .empty
  entries : List Entry := []

/-- An entry takes the place of the entry of its name, or comes last. -/
def Kept.add (kept : Kept) (entry : Entry) : Kept :=
  match kept.positions.find? entry.name with
  | some position => { kept with entries := kept.entries.set position entry }
  | none => ⟨kept.positions.insert entry.name kept.entries.length, kept.entries ++ [entry]⟩

/-- One entry for each name, where the name came first and as it came last. -/
def lastByName (entries : List Entry) : List Entry := (entries.foldl Kept.add {}).entries

def schema (b : Builder) : Schema :=
  match b.declared? with
  | some schema => schema
  | none =>
    { type := .record
      entries := match b.policy.duplicateEntries with
        | .lastWins => lastByName b.observed
        | .keepAll => b.observed }

def build (b : Builder) : Except RecordError Record :=
  b.checkRequired.map fun _ => ⟨b.schema, b.staged⟩

end Builder

end TypedRecords
