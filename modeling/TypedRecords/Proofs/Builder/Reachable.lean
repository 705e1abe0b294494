import TypedRecords.Proofs.Builder.Resolution
import TypedRecords.Proofs.Schema.Nesting

/-! What can be had at all: schemas and entries from drafts, builders after any writes, finished
records and their schemas, each from parts that can be had themselves. One write keeps it that every
entry in a schema is named and says what its arrays or records hold, at every depth, and so does
everything else that can be done. -/
namespace TypedRecords

def Write.brought? : Write → Option Entry
  | .through entry _ | .nullThrough entry | .generic entry _ => some entry
  | .named .. | .namedNull .. => none

mutual

/-- The schemas that can be had. Where no schema is declared, the writes without an entry that are
accepted keep to some names. -/
inductive Schema.Reachable (names : String → Prop) : Schema → Prop
  | of (type : FieldType) : Schema.Reachable names { type }
  | frozen {draft : SchemaDraft} {schema : Schema}
      (entries : ∀ entry ∈ draft.entries, Entry.Reachable names entry)
      (frozen : draft.freeze = .ok schema) : Schema.Reachable names schema
  | element {entry : Entry} {schema : Schema} (reachable : Entry.Reachable names entry)
      (own : entry.element? = some schema) : Schema.Reachable names schema
  | finished {r : Record} (reachable : Record.Reachable names r) : Schema.Reachable names r.schema

/-- An entry comes from a draft, and need not belong to a schema, or is read from a schema. -/
inductive Entry.Reachable (names : String → Prop) : Entry → Prop
  | frozen {draft : EntryDraft} {entry : Entry}
      (element : ∀ schema, draft.element? = some schema → Schema.Reachable names schema)
      (frozen : draft.freeze = .ok entry) : Entry.Reachable names entry
  | listed {schema : Schema} {entry : Entry} (reachable : Schema.Reachable names schema)
      (member : entry ∈ schema.entries) : Entry.Reachable names entry

/-- Of the values that are written only a record by name leaves its schema behind. -/
inductive Builder.Reachable (names : String → Prop) : Builder → Prop
  | start {declared? : Option Schema} {policy : Policy}
      (declared : ∀ schema, declared? = some schema → Schema.Reachable names schema) :
      Builder.Reachable names (.start declared? policy)
  | write {b : Builder} {w : Write} (reachable : Builder.Reachable names b)
      (brought : ∀ entry, w.brought? = some entry → Entry.Reachable names entry)
      (nested : ∀ name r, w = .named name (.record r) → Record.Reachable names r)
      (named : (b.write w).error? = none → b.declared? = none → w.isNamed = true → names w.name) :
      Builder.Reachable names (b.write w).builder
  | withPolicy {b : Builder} (policy : Policy) (reachable : Builder.Reachable names b) :
      Builder.Reachable names { b with policy }

inductive Record.Reachable (names : String → Prop) : Record → Prop
  | built {b : Builder} {r : Record} (reachable : Builder.Reachable names b)
      (built : b.build = .ok r) : Record.Reachable names r

end

variable {names : String → Prop}

/-- An entry with a name is frozen from a draft of its parts, if its element schema can be had. -/
theorem Entry.reachable_of_named {entry : Entry} (named : entry.name ≠ "")
    (element : ∀ schema, entry.element? = some schema → schema.Reachable names) :
    entry.Reachable names := by
  obtain ⟨name, rawName?, type, nullable, element?, comment?, props⟩ := entry
  let draft : EntryDraft :=
    ⟨some name, rawName?, some type, nullable, element?, comment?, props⟩
  have present : name.isEmpty = false := by simpa using named
  exact @Entry.Reachable.frozen names draft _ element (by simp [draft, EntryDraft.freeze, present])

/-- A schema of such entries is frozen from a draft of its parts, unless the draft is at fault. -/
theorem Schema.reachable_of_entries {schema : Schema}
    (named : ∀ entry ∈ schema.entries, entry.name ≠ "")
    (elements : ∀ entry ∈ schema.entries, ∀ element, entry.element? = some element →
      element.Reachable names)
    (clean : SchemaDraft.fault? [] schema.entries = none) : schema.Reachable names := by
  obtain ⟨type, entries, props⟩ := schema
  refine @Schema.Reachable.frozen names ⟨type, entries, props⟩ _
    (fun entry member => Entry.reachable_of_named (named entry member) (elements entry member)) ?_
  rw [SchemaDraft.freeze, clean]

structure Entry.Proper (names : String → Prop) (entry : Entry) : Prop where
  named : names entry.name
  described : entry.lacksElement = false

/-- An entry on its own may lack an element schema. What it has is as in a schema. -/
structure Entry.Usable (names : String → Prop) (entry : Entry) : Prop where
  named : names entry.name
  element : ∀ schema, entry.element? = some schema → schema.Throughout (Entry.Proper names)

theorem Entry.Throughout.usable {entry : Entry} (proper : entry.Throughout (Entry.Proper names)) :
    entry.Usable names :=
  ⟨proper.1.named, proper.2⟩

namespace Builder

structure Proper (names : String → Prop) (b : Builder) : Prop where
  declared : ∀ schema, b.declared? = some schema → schema.Throughout (Entry.Proper names)
  observed : ∀ entry ∈ b.observed, entry.Throughout (Entry.Proper names)
  staged : ∀ name v, b.value? name = some v → names name

theorem start_proper {declared? : Option Schema} (policy : Policy)
    (declared : ∀ schema, declared? = some schema → schema.Throughout (Entry.Proper names)) :
    (start declared? policy).Proper names where
  declared := declared
  observed := by simp [start]
  staged := by simp [start, value?]

section Step

variable {b : Builder} (proper : b.Proper names)

include proper

theorem Proper.resolve {name : String} {observed entry : Entry}
    (free : b.declared? = none → observed.Usable names)
    (resolved : b.resolve name observed = .ok entry) : entry.Usable names := by
  unfold Builder.resolve at resolved
  split at resolved
  · next undeclared => exact Except.ok.inj resolved ▸ free undeclared
  · next schema declared =>
    rw [schema.indexed?_eq_lastEntry?] at resolved
    split at resolved
    · next known found =>
      obtain rfl := Except.ok.inj resolved
      have inSchema := (Schema.lastEntry?_some found).1
      exact (Schema.throughout_iff.mp (proper.declared schema declared) known inSchema).usable
    · cases resolved

/-- A write goes through an entry that was brought, one that is declared, or one that is made up
from a name and, for a record, from the schema of the record. -/
theorem Proper.entryOf {w : Write}
    (brought : ∀ entry, w.brought? = some entry → entry.Usable names)
    (nested : ∀ name r, w = .named name (.record r) → r.schema.Throughout (Entry.Proper names))
    (named : b.declared? = none → w.isNamed = true → names w.name)
    {entry : Entry} (through : b.entryOf w = .ok entry) : entry.Usable names := by
  cases w with
  | named name payload =>
    refine proper.resolve (fun free => ?_) through
    have isNamed := named free rfl
    cases payload with
    | record r =>
      refine ⟨isNamed, fun schema own => ?_⟩
      obtain rfl := Option.some.inj own
      exact nested name r rfl
    | _ => exact ⟨isNamed, by simp [Payload.observedEntry, Entry.observed]⟩
  | namedNull name type =>
    refine proper.resolve (fun free => ⟨named free rfl, ?_⟩) through
    simp [Entry.observed]
  | through => exact Except.ok.inj through ▸ brought _ rfl
  | nullThrough => exact Except.ok.inj through ▸ brought _ rfl
  | generic => exact Except.ok.inj through ▸ brought _ rfl

/-- The entry of an accepted write joins the schema, and its name the staged names. -/
theorem Proper.stage {entry : Entry} (usable : entry.Usable names)
    (described : entry.lacksElement = false) (v? : Option Value) :
    (b.stage entry v?).Proper names where
  declared := by simpa using proper.declared
  observed := by
    intro other member
    rcases mem_stage_observed b entry v? member with before | rfl
    · exact proper.observed other before
    · exact ⟨⟨usable.named, described⟩, usable.element⟩
  staged := by
    intro name v held
    rw [stage_value?] at held
    by_cases here : name = entry.name
    · exact here ▸ usable.named
    · rw [if_neg here] at held
      exact proper.staged name v held

theorem Proper.write {w : Write}
    (brought : ∀ entry, w.brought? = some entry → entry.Usable names)
    (nested : ∀ name r, w = .named name (.record r) → r.schema.Throughout (Entry.Proper names))
    (named : (b.write w).error? = none → b.declared? = none → w.isNamed = true → names w.name) :
    (b.write w).builder.Proper names := by
  rcases b.write_cases w with ⟨error, refused⟩ | ⟨entry, through, admits, accepted⟩
  · rw [refused]
    exact proper
  · rw [accepted] at named ⊢
    exact proper.stage (proper.entryOf brought nested (named rfl) through) admits.element _

theorem Proper.schema : b.schema.Throughout (Entry.Proper names) := by
  cases declared : b.declared? with
  | some schema => exact schema_of_declared declared ▸ proper.declared schema declared
  | none =>
    refine Schema.throughout_iff.mpr fun entry member => ?_
    exact proper.observed entry (mem_observed_of_schema declared member)

end Step

end Builder

section Induction

mutual

/-- Every entry of a schema that can be had is proper, at every depth, if all names but the empty
one are. -/
theorem Schema.Reachable.proper (nonempty : ∀ name, name ≠ "" → names name) :
    ∀ {schema : Schema}, schema.Reachable names → schema.Throughout (Entry.Proper names)
  | _, .of type => Schema.throughout_of type
  | _, .frozen entries frozen => by
    obtain ⟨rfl, -, described⟩ := SchemaDraft.freeze_eq_ok_iff.mp frozen
    refine Schema.throughout_iff.mpr fun entry member => ?_
    have usable := (entries entry member).usable nonempty
    exact ⟨⟨usable.named, described entry member⟩, usable.element⟩
  | _, .element reachable own => (reachable.usable nonempty).element _ own
  | _, .finished reachable => reachable.proper nonempty

theorem Entry.Reachable.usable (nonempty : ∀ name, name ≠ "" → names name) :
    ∀ {entry : Entry}, entry.Reachable names → entry.Usable names
  | _, .frozen element frozen => by
    obtain ⟨named, own⟩ := EntryDraft.freeze_eq_ok frozen
    refine ⟨nonempty _ named, fun schema isElement => ?_⟩
    exact (element schema (own ▸ isElement)).proper nonempty
  | _, .listed reachable member =>
    (Schema.throughout_iff.mp (reachable.proper nonempty) _ member).usable

theorem Builder.Reachable.proper (nonempty : ∀ name, name ≠ "" → names name) :
    ∀ {b : Builder}, b.Reachable names → b.Proper names
  | _, .start declared =>
    Builder.start_proper _ fun schema isDeclared => (declared schema isDeclared).proper nonempty
  | _, .write reachable brought nested named =>
    (reachable.proper nonempty).write
      (fun entry isBrought => (brought entry isBrought).usable nonempty)
      (fun name r isNested => (nested name r isNested).proper nonempty) named
  | _, .withPolicy _ reachable =>
    have before := reachable.proper nonempty
    ⟨before.declared, before.observed, before.staged⟩

theorem Record.Reachable.proper (nonempty : ∀ name, name ≠ "" → names name) :
    ∀ {r : Record}, r.Reachable names → r.schema.Throughout (Entry.Proper names)
  | _, .built reachable built => by
    obtain ⟨-, rfl⟩ := Builder.build_eq_ok_iff.mp built
    exact (reachable.proper nonempty).schema

end

end Induction

/-- A run ends where it can get to. -/
theorem Builder.Reachable.run {b : Builder} (reachable : b.Reachable names) {writes : List Write}
    (brought : ∀ w ∈ writes, ∀ entry, w.brought? = some entry → entry.Reachable names)
    (nested : ∀ name r, .named name (.record r) ∈ writes → r.Reachable names)
    (named : b.declared? = none → ∀ w ∈ writes, w.isNamed = true → names w.name) :
    (b.run writes).Reachable names := by
  induction writes generalizing b with
  | nil => exact reachable
  | cons w writes ih =>
    have first : (b.write w).builder.Reachable names :=
      .write reachable (brought w List.mem_cons_self)
        (fun name r isNested => nested name r (isNested ▸ List.mem_cons_self))
        fun _ free => named free w List.mem_cons_self
    refine ih first ?_ ?_ ?_
    · exact fun other member => brought other (List.mem_cons_of_mem w member)
    · exact fun name r member => nested name r (List.mem_cons_of_mem w member)
    · intro free other member
      rw [write_declared?] at free
      exact named free other (List.mem_cons_of_mem w member)

end TypedRecords
