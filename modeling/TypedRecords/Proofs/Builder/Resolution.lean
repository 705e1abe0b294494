import TypedRecords.Proofs.Builder.Settled

/-! How a write by name finds its entry in a declared schema. The index of the builder leads to the
last entry of the name and the schema itself to the first, so that they agree where names are
distinct. This is so for every schema that can be had, unless it keeps an entry for each of several
writes to one name. -/
namespace TypedRecords

/-- The schemas that can be had: of a type, frozen from a draft, or of a finished record. -/
inductive Schema.Obtained : Schema → Prop
  | of (type : FieldType) : Schema.Obtained { type }
  | frozen {draft : SchemaDraft} {schema : Schema} (frozen : draft.freeze = .ok schema) :
      Schema.Obtained schema
  | finished {declared? : Option Schema} {policy : Policy} {writes : List Write} {r : Record}
      (declared : ∀ schema, declared? = some schema → Schema.Obtained schema)
      (built : ((Builder.start declared? policy).run writes).build = .ok r) :
      Schema.Obtained r.schema

/-- The schema of a record without a declared schema that has an entry for each write. -/
def Schema.KeepsAll (schema : Schema) : Prop :=
  ∃ policy writes r, policy.duplicateEntries = .keepAll ∧
    ((Builder.start none policy).run writes).build = .ok r ∧ r.schema = schema

def Write.isNamed : Write → Bool
  | named _ _ | namedNull _ _ => true
  | _ => false

/-- Names are distinct where entries are declared and where they are collapsed. -/
theorem Schema.Obtained.names_nodup {schema : Schema} (obtained : schema.Obtained)
    (kept : schema.KeepsAll → schema.names.Nodup) : schema.names.Nodup := by
  induction obtained with
  | of type => simp [names]
  | frozen frozen => exact (SchemaDraft.freeze_eq_ok_iff.mp frozen).2.1
  | @finished declared? policy writes r declared built ih =>
    obtain ⟨-, same⟩ := Builder.build_eq_ok_iff.mp built
    cases declared? with
    | some schema =>
      have unchanged : r.schema = schema := by
        rw [same]
        exact Builder.schema_of_declared (Builder.run_declared? _ writes)
      rw [unchanged] at kept ⊢
      exact ih schema rfl kept
    | none =>
      cases duplicates : policy.duplicateEntries with
      | keepAll => exact kept ⟨policy, writes, r, duplicates, built, rfl⟩
      | lastWins =>
        rw [same]
        exact (Builder.run_schema_distinct writes (.inl ⟨rfl, duplicates⟩)).1

namespace Builder

theorem entryOf_named {b : Builder} {schema : Schema} (declared : b.declared? = some schema)
    {w : Write} (named : w.isNamed = true) :
    b.entryOf w = match schema.lastEntry? w.name with
      | some entry => .ok entry
      | none => .error (.unknownEntry w.name schema.names) := by
  cases w with
  | named name payload =>
    simp only [entryOf, resolve, declared, schema.indexed?_eq_lastEntry?]
    rfl
  | namedNull name type =>
    simp only [entryOf, resolve, declared, schema.indexed?_eq_lastEntry?]
    rfl
  | _ => simp [Write.isNamed] at named

theorem append_error {b : Builder} {entry : Entry} {v? : Option Value} {error : RecordError}
    (failed : (b.append entry v?).error? = some error) : error = .notNullable entry.name := by
  unfold append at failed
  split at failed
  · cases failed
  · split at failed
    · cases failed
    · exact (Option.some.inj failed).symm

/-- A write of the type of the declared entry can only fail for its value, or for an array or a
record that is not described. -/
theorem set_error_of_type {b : Builder} {schema : Schema} (declared : b.declared? = some schema)
    {entry : Entry} (found : schema.lastEntry? entry.name = some entry) {input : FieldInput}
    {error : RecordError} (failed : (b.set entry entry.type input).error? = some error) :
    error = .missingElementSchema entry.name entry.type ∨ error = .notNullable entry.name ∨
      error = .incompatibleValue entry.name entry.type input.variantName := by
  have known : b.declaredObjection? entry.name entry.type input.isNull =
      if input.isNull && !entry.nullable then some (.notNullable entry.name) else none := by
    simp [declaredObjection?, declared, schema.indexed?_eq_lastEntry?, found]
  unfold set at failed
  split at failed
  · next objection raised =>
    obtain rfl := Option.some.inj failed
    rw [objection?, known, if_neg (by simp)] at raised
    split at raised
    · exact .inl (Option.some.inj raised).symm
    · rcases Option.or_eq_some_iff.mp raised with declines | ⟨-, declines⟩
      · split at declines
        · exact .inr (.inl (Option.some.inj declines).symm)
        · cases declines
      · split at declines
        · cases declines
        · exact .inr (.inr (Option.some.inj declines).symm)
  · exact .inr (.inl (append_error failed))

section Named

variable {b : Builder} {schema : Schema} {w : Write}

/-- The ends of a write by name. It is sent to the last entry of the name. -/
theorem named_write_cases (declared : b.declared? = some schema) (named : w.isNamed = true) :
    (schema.lastEntry? w.name = none ∧
      (b.write w).error? = some (.unknownEntry w.name schema.names)) ∨
    (∃ entry, schema.lastEntry? w.name = some entry ∧ entry.type ≠ w.setter ∧
      (b.write w).error? = some (.typeMismatch w.name entry.type w.setter)) ∨
    (∃ entry, schema.lastEntry? w.name = some entry ∧ entry.type = w.setter ∧
      ∀ error, (b.write w).error? = some error →
        error = .missingElementSchema w.name entry.type ∨ error = .notNullable w.name ∨
          error = .incompatibleValue w.name entry.type w.input.variantName) := by
  rw [write_eq, entryOf_named declared named]
  cases found : schema.lastEntry? w.name with
  | none => exact .inl ⟨rfl, rfl⟩
  | some entry =>
    obtain ⟨-, name⟩ := Schema.lastEntry?_some found
    by_cases typed : entry.type = w.setter
    · refine .inr (.inr ⟨entry, rfl, typed, fun error failed => ?_⟩)
      simp only [← typed] at failed
      rw [← name] at found ⊢
      exact set_error_of_type declared found failed
    · exact .inr (.inl ⟨entry, rfl, typed, by simp [set, objection?, typed, name]⟩)

theorem unknownEntry_iff (declared : b.declared? = some schema) (named : w.isNamed = true)
    (name : String) (known : List String) :
    (b.write w).error? = some (.unknownEntry name known) ↔
      schema.lastEntry? w.name = none ∧ name = w.name ∧ known = schema.names := by
  rcases named_write_cases declared named with
    ⟨absent, answer⟩ | ⟨entry, found, -, answer⟩ | ⟨entry, found, -, others⟩
  · simp [absent, answer, eq_comm]
  · simp [found, answer]
  · constructor
    · intro failed
      simpa using others _ failed
    · simp [found]

theorem typeMismatch_iff (declared : b.declared? = some schema) (named : w.isNamed = true)
    (name : String) (expected actual : FieldType) :
    (b.write w).error? = some (.typeMismatch name expected actual) ↔
      ∃ entry, schema.lastEntry? w.name = some entry ∧ entry.type ≠ w.setter ∧
        name = w.name ∧ expected = entry.type ∧ actual = w.setter := by
  rcases named_write_cases declared named with
    ⟨absent, answer⟩ | ⟨entry, found, other, answer⟩ | ⟨entry, found, typed, others⟩
  · simp [absent, answer]
  · simp [found, answer, other, eq_comm]
  · constructor
    · intro failed
      simpa using others _ failed
    · simp [found, typed]

end Named

/-- Where names are distinct, a write by name finds the entry that the schema finds: it is unknown
exactly if the schema has none, and of another type exactly if the entry is. The names of a schema
that can be had are distinct, unless it keeps an entry for each of several writes. -/
theorem named_write_lookup {schema : Schema} (obtained : schema.Obtained)
    (kept : schema.KeepsAll → schema.names.Nodup) (policy : Policy) (earlier : List Write)
    {w : Write} (named : w.isNamed = true) :
    let b := (start (some schema) policy).run earlier
    (∀ entry, b.entryOf w = .ok entry ↔ schema.entry? w.name = some entry) ∧
    (∀ name known, (b.write w).error? = some (.unknownEntry name known) ↔
      schema.entry? w.name = none ∧ name = w.name ∧ known = schema.names) ∧
    ∀ name expected actual, (b.write w).error? = some (.typeMismatch name expected actual) ↔
      ∃ entry, schema.entry? w.name = some entry ∧ entry.type ≠ w.setter ∧
        name = w.name ∧ expected = entry.type ∧ actual = w.setter := by
  intro b
  have declared : b.declared? = some schema := by simp [b, start]
  have sameEntry := Schema.lastEntry?_eq_entry? (obtained.names_nodup kept) w.name
  rw [← sameEntry]
  refine ⟨fun entry => ?_, unknownEntry_iff declared named, typeMismatch_iff declared named⟩
  rw [entryOf_named declared named]
  cases schema.lastEntry? w.name <;> simp

def retyped : List Write := [.named "a" (.int 1), .named "a" (.string "x")]

theorem named_write_lookup_retyped :
    let schema := ((start none {}).run retyped).schema
    let b := (start (some schema) {}).run [.named "a" (.string "y")]
    schema.Obtained ∧ (schema.KeepsAll → schema.names.Nodup) ∧
      (b.write (.namedNull "a" .int)).error? = some (.typeMismatch "a" .string .int) ∧
      (b.write (.named "b" (.int 2))).error? = some (.unknownEntry "b" ["a"]) := by
  intro schema b
  have obtained : schema.Obtained :=
    @Schema.Obtained.finished none {} retyped _ (by simp) rfl
  have kept : schema.KeepsAll → schema.names.Nodup := fun _ => by decide
  have mismatch := (named_write_lookup obtained kept {} [.named "a" (.string "y")]
    (w := .namedNull "a" .int) rfl).2.2 "a" .string .int
  have unknown := (named_write_lookup obtained kept {} [.named "a" (.string "y")]
    (w := .named "b" (.int 2)) rfl).2.1 "b" ["a"]
  exact ⟨obtained, kept, mismatch.mpr ⟨_, rfl, by decide, rfl, rfl, rfl⟩,
    unknown.mpr ⟨rfl, rfl, rfl⟩⟩

/-- Where entries are kept for both writes, the schema finds the first one and the builder the
last. -/
theorem kept_entries_disagree :
    ∃ r, ((start none ⟨.keepAll, .absent⟩).run retyped).build = .ok r ∧ r.schema.Obtained ∧
      (r.schema.entry? "a").map Entry.type = some .int ∧
      ((start (some r.schema) {}).write (.named "a" (.int 2))).error? =
        some (.typeMismatch "a" .string .int) ∧
      ((start (some r.schema) {}).write (.named "a" (.string "y"))).error? = none :=
  ⟨_, rfl, @Schema.Obtained.finished none _ retyped _ (by simp) rfl, rfl, rfl, rfl⟩

end Builder

end TypedRecords
