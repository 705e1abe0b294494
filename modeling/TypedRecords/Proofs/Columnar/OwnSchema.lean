import TypedRecords.Proofs.Builder.Settled
import TypedRecords.Proofs.Columnar.Demands

/-! Records as columns under the schema they were written with. A value that an entry accepts
conforms to the field of the entry, and where a value may be absent its field may be null. So a
record of scalars becomes a batch, and so does a record that holds such records, unless a column is
too large for the machine or for the offsets in it. -/
namespace TypedRecords

namespace FieldType

theorem cellType?_of_isPrimitive {type : FieldType} (scalar : type.isPrimitive = true) :
    ∃ cell, type.cellType? = some cell := by
  cases type with
  | array | record => cases scalar
  | _ => exact ⟨_, rfl⟩

/-- The cells of a type take all its values, longs for instants among them. -/
theorem accepts_takes {type : FieldType} {cell : CellType} {v : Value}
    (kind : type.cellType? = some cell) (accepted : type.accepts v = true) : cell.Takes v := by
  rw [← cell.cell?_isSome_iff]
  cases type <;> cases kind <;> cases v <;> first | rfl | cases accepted

end FieldType

def Entry.Encodes (entry : Entry) (slots : List (Option Value)) : Prop :=
  ∃ field, entry.field = .ok field ∧ ∀ slot ∈ slots, field.Conforms slot

def Record.SelfEncodes (r : Record) : Prop :=
  r.schema.type = .record ∧ ∀ entry ∈ r.schema.entries, entry.Encodes [r.value? entry.name]

theorem Entry.encodes_scalar {entry : Entry} (scalar : entry.type.isPrimitive = true)
    {slots : List (Option Value)}
    (typed : ∀ v, some v ∈ slots → entry.type.accepts v = true)
    (optional : none ∈ slots → entry.nullable = true) : entry.Encodes slots := by
  obtain ⟨cell, kind⟩ := FieldType.cellType?_of_isPrimitive scalar
  refine ⟨_, Entry.field_of_cells kind, fun slot member => ?_⟩
  cases slot with
  | none => exact ⟨.inr (optional member), trivial⟩
  | some v => exact ⟨.inl rfl, FieldType.accepts_takes kind (typed v member)⟩

/-- The values that settled records have under a scalar entry of their schema. -/
theorem Entry.encodes_settled {schema : Schema} {entry : Entry}
    (scalar : entry.type.isPrimitive = true) (member : entry ∈ schema.entries)
    {records : List Record} (agree : ∀ r ∈ records, r.Settled ∧ r.schema = schema) :
    entry.Encodes (records.map fun r => r.value? entry.name) := by
  refine Entry.encodes_scalar scalar (fun v stored => ?_) fun absent => ?_
  · obtain ⟨r, inside, held⟩ := List.mem_map.mp stored
    obtain ⟨settled, rfl⟩ := agree r inside
    exact settled.entry_accepts member held
  · obtain ⟨r, inside, unset⟩ := List.mem_map.mp absent
    obtain ⟨settled, rfl⟩ := agree r inside
    exact settled.complete entry member unset

theorem fieldsOf_of_encodes {records : List Record} : ∀ {entries : List Entry},
    (∀ entry ∈ entries, entry.Encodes (records.map fun r => r.value? entry.name)) →
      ∃ fields, fieldsOf entries = .ok fields ∧ ∀ r ∈ records, fieldsConform fields r
  | [], _ => ⟨[], rfl, fun _ _ => trivial⟩
  | entry :: entries, encodes => by
    obtain ⟨⟨field, mapped, conforms⟩, later⟩ := List.forall_mem_cons.mp encodes
    obtain ⟨fields, rest, others⟩ := fieldsOf_of_encodes later
    refine ⟨field :: fields, by simp [fieldsOf, mapped, rest, bind, Except.bind], ?_⟩
    intro r member
    have named : field.name = entry.name := (Entry.field_cases mapped).1
    have here : field.Conforms (r.value? field.name) := by
      rw [named]
      exact conforms _ (List.mem_map_of_mem member)
    rw [fieldsConform_iff]
    exact List.forall_mem_cons.mpr ⟨here, (fieldsConform_iff fields r).mp (others r member)⟩

/-- A record is a struct of the fields of its own schema. -/
theorem Entry.encodes_record {entry : Entry} {r : Record} (isRecord : entry.type = .record)
    (own : entry.element? = some r.schema) (fits : r.SelfEncodes) :
    entry.Encodes [some (.record r)] := by
  obtain ⟨schemaType, encodes⟩ := fits
  obtain ⟨fields, mapped, conform⟩ := @fieldsOf_of_encodes [r] _ encodes
  have nested : r.schema.nestedType entry.name entry.type = .ok (.struct fields) := by
    rw [isRecord]
    exact Schema.nestedType_of_record entry.name schemaType mapped
  have noCells : entry.type.cellType? = none := by
    rw [isRecord]
    rfl
  refine ⟨_, Entry.field_of_element noCells own nested, fun slot member => ?_⟩
  obtain rfl := List.mem_singleton.mp member
  exact ⟨.inl rfl, r, rfl, conform r List.mem_cons_self⟩

theorem Schema.layout_of_encodes {schema : Schema} {records : List Record}
    (isRecord : schema.type = .record)
    (encodes : ∀ entry ∈ schema.entries,
      entry.Encodes (records.map fun r => r.value? entry.name)) :
    ∃ layout, schema.layout = .ok layout ∧
      ∀ field ∈ layout.fields, ∀ r ∈ records, field.Conforms (r.value? field.name) := by
  obtain ⟨fields, mapped, conform⟩ := fieldsOf_of_encodes encodes
  refine ⟨⟨fields, schema.props.toNameMap⟩, ?_, ?_⟩
  · simp [Schema.layout, isRecord, mapped, Except.map]
  · intro field member r inside
    exact (fieldsConform_iff fields r).mp (conform r inside) field member

def Write.Nests (P : Record → Prop) (w : Write) : Prop :=
  w.setter.isPrimitive = true ∨ ∃ name r, P r ∧ w = .named name (.record r)

/-- Each name was last given a scalar entry, or came with a record of some kind that is still
there. -/
def Builder.Nests (P : Record → Prop) (b : Builder) : Prop :=
  ∀ name entry, Entry.lastNamed? name b.observed = some entry →
    entry.type.isPrimitive = true ∨
      ∃ r, P r ∧ entry.type = .record ∧ entry.element? = some r.schema ∧
        b.value? name = some (.record r)

namespace Builder

theorem Nests.stage {P : Record → Prop} {b : Builder} (nests : b.Nests P)
    (free : b.declared? = none) {w : Write} (kind : w.Nests P) {entry : Entry}
    (through : b.entryOf w = .ok entry) (typed : entry.type = w.setter) :
    (b.stage entry (b.stored? entry w.setter w.input)).Nests P := by
  intro name last found
  rw [stage_observed b entry _ free, Entry.lastNamed?_append] at found
  rw [stage_value?]
  by_cases here : entry.name = name
  · subst here
    rw [if_pos rfl] at found
    obtain rfl := Option.some.inj found
    rw [if_pos rfl]
    rcases kind with scalar | ⟨name, r, holds, rfl⟩
    · exact .inl (typed ▸ scalar)
    · -- the entry is the one that the record brings
      have brought : Payload.observedEntry name (.record r) = entry := by
        simpa [entryOf, resolve, free] using through
      subst brought
      exact .inr ⟨r, holds, rfl, rfl, rfl⟩
  · rw [if_neg here] at found
    rw [if_neg (Ne.symm here)]
    exact nests name last found

theorem run_nests {P : Record → Prop} (policy : Policy) {writes : List Write}
    (kind : ∀ w ∈ writes, w.Nests P) : ((start none policy).run writes).Nests P := by
  have initial : (start none policy).Nests P := by
    intro name entry found
    simp [start] at found
  refine (run_preserves_of (P := fun c => c.declared? = none ∧ c.Nests P) ?_
    ⟨rfl, initial⟩ kind).2
  rintro b entry w ⟨free, nests⟩ kind through admits
  exact ⟨by simpa using free, nests.stage free kind through admits.type⟩

end Builder

/-- The records that are finished without a declared schema, with one entry for each name, from
writes of scalars of any sort and of such records by name. -/
inductive Record.Plain : Record → Prop
  -- `Write.Nests` in two parts, of which only the second one mentions the predicate
  | finished {policy : Policy} {writes : List Write} {r : Record}
      (collapses : policy.duplicateEntries = .lastWins)
      (shapes : ∀ w ∈ writes, w.setter.isPrimitive = true ∨ ∃ name s, w = .named name (.record s))
      (nested : ∀ name s, .named name (.record s) ∈ writes → Record.Plain s)
      (built : ((Builder.start none policy).run writes).build = .ok r) : Record.Plain r

/-- The induction is over the records that are written. -/
theorem Record.Plain.selfEncodes {r : Record} (plain : r.Plain) : r.SelfEncodes := by
  induction plain with
  | @finished policy writes r collapses shapes nested built ih =>
    have settled : r.Settled := Builder.build_settled (.inl ⟨rfl, collapses⟩) built
    have kind : ∀ w ∈ writes, w.Nests Record.SelfEncodes := by
      intro w member
      rcases shapes w member with scalar | ⟨name, s, rfl⟩
      · exact .inl scalar
      · exact .inr ⟨name, s, ih name s member, rfl⟩
    have nests := Builder.run_nests policy kind
    have free : ((Builder.start none policy).run writes).declared? = none :=
      Builder.run_declared? _ writes
    generalize (Builder.start none policy).run writes = b at built nests free
    obtain ⟨-, rfl⟩ := Builder.build_eq_ok_iff.mp built
    have isRecord : b.schema.type = .record := by
      simp only [Builder.schema, free]
    refine ⟨isRecord, fun entry member => ?_⟩
    have last : Entry.lastNamed? entry.name b.observed = some entry := by
      rw [← Builder.schema_lastEntry?_of_free free, Schema.lastEntry?_eq_entry? settled.distinct]
      exact Schema.entry?_of_mem settled.distinct member
    rcases nests entry.name entry last with scalar | ⟨s, fits, isRecord, own, held⟩
    · have agree : ∀ r ∈ [Record.mk b.schema b.staged], r.Settled ∧ r.schema = b.schema :=
        List.forall_mem_singleton.mpr ⟨settled, rfl⟩
      exact Entry.encodes_settled scalar member agree
    · have stored : Record.value? ⟨b.schema, b.staged⟩ entry.name = some (.record s) := held
      rw [stored]
      exact Entry.encodes_record isRecord own fits

/-- The machine has room for the cells of a scalar entry, and the offsets in its column can end
where its values do. -/
def Entry.Fits (room : CellType → Nat → Bool) (entry : Entry) (records : List Record) : Prop :=
  ∀ cell ∈ entry.type.cellType?, room cell records.length = true ∧
    cell.totalSize (records.map fun r => (r.value? entry.name).bind cell.cell?) ≤ greatestOffset

instance (room : CellType → Nat → Bool) (entry : Entry) (records : List Record) :
    Decidable (entry.Fits room records) :=
  inferInstanceAs (Decidable (∀ cell ∈ entry.type.cellType?, _))

theorem Entry.fits_iff {room : CellType → Nat → Bool} {entry : Entry} {field : Field}
    {records : List Record} (scalar : entry.type.isPrimitive = true)
    (mapped : entry.field = .ok field) :
    field.type.HasRoom room records.length ∧
      field.type.Fits (records.map fun r => r.value? field.name) ↔ entry.Fits room records := by
  obtain ⟨cell, kind⟩ := FieldType.cellType?_of_isPrimitive scalar
  rw [Entry.field_of_cells kind] at mapped
  cases mapped
  simp [Entry.Fits, kind, ColumnType.HasRoom, ColumnType.leaves, ColumnType.Fits,
    Function.comp_def]

/-- Columns of scalars fit entry by entry. -/
theorem fieldsOf_fits_iff {room : CellType → Nat → Bool} {records : List Record} :
    ∀ {entries : List Entry} {fields : List Field},
      (∀ entry ∈ entries, entry.type.isPrimitive = true) → fieldsOf entries = .ok fields →
        ((∀ field ∈ fields, field.type.HasRoom room records.length ∧
          field.type.Fits (records.map fun r => r.value? field.name)) ↔
          ∀ entry ∈ entries, entry.Fits room records)
  | [], _, _, rfl => by simp
  | entry :: entries, fields, scalars, mapped => by
    obtain ⟨scalar, others⟩ := List.forall_mem_cons.mp scalars
    obtain ⟨field, rest, head, tail, rfl⟩ := fieldsOf_cons mapped
    rw [List.forall_mem_cons, List.forall_mem_cons, Entry.fits_iff scalar head,
      fieldsOf_fits_iff others tail]

namespace Batch

/-- Records that were finished over a declared schema of scalars conform to this schema. -/
theorem layout_of_finished {draft : SchemaDraft} {schema : Schema} {records : List Record}
    (frozen : draft.freeze = .ok schema) (isRecord : schema.type = .record)
    (scalars : ∀ entry ∈ schema.entries, entry.type.isPrimitive = true)
    (finished : ∀ r ∈ records, ∃ policy writes,
      ((Builder.start (some schema) policy).run writes).build = .ok r) :
    ∃ layout, schema.layout = .ok layout ∧
      ∀ field ∈ layout.fields, ∀ r ∈ records, field.Conforms (r.value? field.name) := by
  have agree : ∀ r ∈ records, r.Settled ∧ r.schema = schema := by
    intro r inside
    obtain ⟨policy, writes, built⟩ := finished r inside
    refine ⟨Builder.build_settled (.inr ⟨draft, schema, frozen, rfl⟩) built, ?_⟩
    obtain ⟨-, rfl⟩ := Builder.build_eq_ok_iff.mp built
    exact Builder.schema_of_declared (Builder.run_declared? _ writes)
  refine Schema.layout_of_encodes isRecord fun entry member => ?_
  exact Entry.encodes_settled (scalars entry member) member agree

/-- The conversion finds no error in records that were finished over a declared schema of scalars,
and they become a batch under this schema exactly if the column of every entry fits. The same holds
for a record that was finished from scalars and from records of its own kind, under the schema that
was made up for it. -/
theorem convert_own_schema (room : CellType → Nat → Bool) :
    (∀ draft schema records, SchemaDraft.freeze draft = .ok schema → schema.type = .record →
      (∀ entry ∈ schema.entries, entry.type.isPrimitive = true) →
      (∀ r ∈ records, ∃ policy writes,
        ((Builder.start (some schema) policy).run writes).build = .ok r) →
      (∀ error, convert room schema records ≠ .ok (.error error)) ∧
        ((∃ batch, convert room schema records = .ok (.ok batch)) ↔
          ∀ entry ∈ schema.entries, entry.Fits room records)) ∧
    ∀ r : Record, r.Plain →
      (∀ error, convert room r.schema [r] ≠ .ok (.error error)) ∧
        ∃ layout, r.schema.layout = .ok layout ∧
          ((∃ batch, convert room r.schema [r] = .ok (.ok batch)) ↔ layout.Fits room [r]) := by
  constructor
  · intro draft schema records frozen isRecord scalars finished
    obtain ⟨layout, valid, conform⟩ := layout_of_finished frozen isRecord scalars finished
    obtain ⟨clean, made⟩ := convert_of_conform room valid conform
    exact ⟨clean, made.trans (fieldsOf_fits_iff scalars (Schema.layout_fields valid))⟩
  · intro r plain
    obtain ⟨isRecord, encodes⟩ := plain.selfEncodes
    obtain ⟨layout, valid, conform⟩ := @Schema.layout_of_encodes _ [r] isRecord encodes
    obtain ⟨clean, made⟩ := convert_of_conform room valid conform
    exact ⟨clean, layout, valid, made⟩

def scalarDraft : SchemaDraft where
  entries := [{ name := "at", type := .dateTime, nullable := true }, { name := "n", type := .int }]

def scalarWrites : List Write := [.namedNull "at" .dateTime, .named "n" (.int 1)]

/-- The long gets the type of instants by a null, and the integer may not be null. -/
def innerWrites : List Write :=
  [.named "at" (.long 5), .namedNull "at" .dateTime,
    .through { name := "n", type := .int } (.int 1)]

def outerWrites (s : Record) : List Write :=
  [.named "inner" (.string "none"), .named "inner" (.record s)]

theorem plain_outerWrites {s r : Record} (plain : s.Plain)
    (built : ((Builder.start none {}).run (outerWrites s)).build = .ok r) : r.Plain := by
  refine @Record.Plain.finished {} (outerWrites s) _ rfl ?_ ?_ built
  · simp [outerWrites, Write.setter, Payload.type, FieldType.isPrimitive]
  · intro name t member
    simp only [outerWrites, List.mem_cons, Write.named.injEq, reduceCtorEq, and_false,
      Payload.record.injEq, List.not_mem_nil, or_false, false_or] at member
    rw [member.2]
    exact plain

theorem convert_own_schema_nested :
    (∃ schema r, scalarDraft.freeze = .ok schema ∧
      ((Builder.start (some schema) .legacy).run scalarWrites).build = .ok r ∧
      r.values = [("at", .dateTime (-1)), ("n", .int 1)] ∧
      ∃ batch, convert CellType.addressable schema [r] = .ok (.ok batch)) ∧
    ∃ s r, ((Builder.start none {}).run innerWrites).build = .ok s ∧
      s.values = [("at", .long 5), ("n", .int 1)] ∧
      ((Builder.start none {}).run (outerWrites s)).build = .ok r ∧
      r.values = [("inner", .record s)] ∧
      ∃ batch, convert CellType.addressable r.schema [r] = .ok (.ok batch) := by
  constructor
  · refine ⟨_, _, rfl, rfl, rfl, ?_⟩
    refine ((convert_own_schema CellType.addressable).1 scalarDraft _ _ rfl rfl (by decide)
      fun r member => ?_).2.mpr (by decide)
    obtain rfl := List.mem_singleton.mp member
    exact ⟨.legacy, scalarWrites, rfl⟩
  · refine ⟨_, _, rfl, rfl, rfl, rfl, ?_⟩
    have inner : Record.Plain _ := @Record.Plain.finished {} innerWrites _ rfl
      (by simp [innerWrites, Write.setter, Payload.type, FieldType.isPrimitive])
      (by simp [innerWrites]) rfl
    obtain ⟨-, layout, valid, made⟩ :=
      (convert_own_schema CellType.addressable).2 _ (plain_outerWrites inner rfl)
    cases valid
    exact made.mpr (by decide)

def textEntry : Entry := { name := "text", type := .string }

def textSchema : Schema := { type := .record, entries := [textEntry] }

def textRecord (text : String) : Record := ⟨textSchema, [("text", .string text)]⟩

theorem textEntry_fits_iff (room : CellType → Nat → Bool) (text : String) (count : Nat) :
    textEntry.Fits room (List.replicate count (textRecord text)) ↔
      room .utf8 count = true ∧ count * text.utf8ByteSize ≤ greatestOffset := by
  have stored : (textRecord text).value? "text" = some (.string text) := rfl
  simp [Entry.Fits, textEntry, FieldType.cellType?, stored, CellType.cell?, CellType.size]

theorem utf8ByteSize_replicate (count : Nat) :
    (String.ofList (List.replicate count 'a')).utf8ByteSize = count := by
  rw [String.utf8ByteSize_ofList]
  induction count with
  | zero => rfl
  | succ count ih =>
    rw [List.replicate_succ, String.utf8Len_cons, ih]
    rfl

/-- The texts of 8192 finished records, of 2^18 letters each, end one byte behind the greatest
offset. -/
theorem finished_texts_without_offset :
    let text := String.ofList (List.replicate (2 ^ 18) 'a')
    let records := List.replicate 8192 (textRecord text)
    SchemaDraft.freeze { entries := [textEntry] } = .ok textSchema ∧
      (∀ r ∈ records, ((Builder.start (some textSchema) {}).run
        [.named "text" (.string text)]).build = .ok r) ∧
      ¬ ∃ batch, convert CellType.addressable textSchema records = .ok (.ok batch) := by
  intro text records
  have frozen : SchemaDraft.freeze { entries := [textEntry] } = .ok textSchema := rfl
  have built : ∀ r ∈ records, ((Builder.start (some textSchema) {}).run
      [.named "text" (.string text)]).build = .ok r := by
    intro r member
    rw [List.eq_of_mem_replicate member]
    rfl
  have scalars : ∀ entry ∈ textSchema.entries, entry.type.isPrimitive = true := by decide
  refine ⟨frozen, built, fun made => ?_⟩
  obtain ⟨layout, valid, conform⟩ := layout_of_finished frozen rfl scalars
    fun r member => ⟨{}, _, built r member⟩
  have fits := (convert_of_conform _ valid conform).2.mp made
  rw [Layout.Fits, fieldsOf_fits_iff scalars (Schema.layout_fields valid)] at fits
  obtain ⟨-, sizes⟩ := (textEntry_fits_iff _ _ _).mp (fits textEntry List.mem_cons_self)
  rw [utf8ByteSize_replicate] at sizes
  revert sizes
  decide

end Batch

end TypedRecords
