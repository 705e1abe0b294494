import TypedRecords.Proofs.Builder.Step

/-! Records hold what their schemas say, whatever was written and whatever was refused on the way.
The values of a name are judged by the last entry of the name, which alone survives when entries
are collapsed. -/
namespace TypedRecords.Builder

/-- Without a declared schema the schema of the record grows with the entries observed. -/
theorem schema_lastEntry?_of_free {b : Builder} (free : b.declared? = none) (name : String) :
    b.schema.lastEntry? name = Entry.lastNamed? name b.observed := by
  unfold schema Schema.lastEntry?
  rw [free]
  cases b.policy.duplicateEntries with
  | lastWins => exact lastNamed?_lastByName name b.observed
  | keepAll => rfl

theorem schema_of_declared {b : Builder} {schema : Schema} (declared : b.declared? = some schema) :
    b.schema = schema := by
  simp [Builder.schema, declared]

/-- No entry is made up. -/
theorem mem_observed_of_schema {b : Builder} (free : b.declared? = none) {entry : Entry}
    (member : entry ∈ b.schema.entries) : entry ∈ b.observed := by
  unfold schema at member
  rw [free] at member
  cases duplicates : b.policy.duplicateEntries with
  | keepAll => simpa [duplicates] using member
  | lastWins =>
    simp only [duplicates] at member
    exact (Entry.lastNamed?_some (lastByName_last member)).1

theorem schema_names_nodup {b : Builder} (free : b.declared? = none)
    (collapses : b.policy.duplicateEntries = .lastWins) : b.schema.names.Nodup := by
  unfold schema Schema.names
  rw [free, collapses]
  exact lastByName_nodup b.observed

/-- After a write the entry that it went through is the last one of its name, unless the schema is
declared. -/
theorem stage_schema_last (b : Builder) (entry : Entry) (v? : Option Value) (name : String) :
    (b.stage entry v?).schema.lastEntry? name =
      if b.declared? = none ∧ entry.name = name then some entry else b.schema.lastEntry? name := by
  cases declared : b.declared? with
  | none =>
    rw [schema_lastEntry?_of_free (by simpa using declared), schema_lastEntry?_of_free declared,
      stage_observed b entry v? declared, Entry.lastNamed?_append]
    simp
  | some schema =>
    rw [schema_of_declared (by simpa using declared), schema_of_declared declared]
    simp

/-- Staged values are of the type of the last entry of their name. Without a declared schema a
name without value has a last entry that is nullable. -/
structure Sound (b : Builder) : Prop where
  typed : ∀ name v, b.value? name = some v →
    ∃ entry, b.schema.lastEntry? name = some entry ∧ entry.type.accepts v = true
  optional : b.declared? = none → ∀ name entry, b.value? name = none →
    b.schema.lastEntry? name = some entry → entry.nullable = true

theorem start_sound (declared? : Option Schema) (policy : Policy) :
    (start declared? policy).Sound where
  typed := by simp [start, value?]
  optional := by
    intro free name entry _ found
    rw [schema_lastEntry?_of_free free] at found
    simp [start] at found

/-- A value that a null leaves in place is accepted by the entry of the null. -/
theorem leftover?_accepted {b : Builder} {entry : Entry} {v : Value} (free : b.declared? = none)
    (left : b.leftover? entry = some v) : entry.type.accepts v = true := by
  unfold leftover? at left
  rw [free] at left
  exact (Option.filter_eq_some_iff.mp left).2

theorem Sound.stage {b : Builder} (sound : b.Sound) {entry : Entry} {setter : FieldType}
    {input : FieldInput} (admits : Admits b.declared? entry setter input) :
    (b.stage entry (b.stored? entry setter input)).Sound := by
  constructor
  · intro name v found
    rw [stage_value?] at found
    rw [stage_schema_last]
    by_cases here : name = entry.name
    · subst here
      rw [if_pos rfl] at found
      cases declared : b.declared? with
      | none =>
        refine ⟨entry, by simp, ?_⟩
        cases stored : b.stored? entry setter input with
        | some fresh =>
          rw [stored, Option.some_or] at found
          exact stored?_accepted admits.type admits.compatible (stored.trans found)
        | none =>
          rw [stored, Option.none_or] at found
          exact leftover?_accepted declared found
      | some schema =>
        obtain ⟨known, isKnown, typed, -⟩ := admits.declared schema declared
        rw [if_neg (by simp), schema_of_declared declared]
        refine ⟨known, isKnown, ?_⟩
        cases stored : b.stored? entry setter input with
        | some fresh =>
          rw [stored, Option.some_or] at found
          rw [typed, ← admits.type]
          exact stored?_accepted admits.type admits.compatible (stored.trans found)
        | none =>
          -- the staged value is untouched, and was sound before
          rw [stored, Option.none_or, leftover?, declared] at found
          obtain ⟨before, isBefore, accepted⟩ := sound.typed _ _ found
          rw [schema_of_declared declared, isKnown] at isBefore
          exact Option.some.inj isBefore ▸ accepted
    · rw [if_neg here] at found
      rw [if_neg (by simp [Ne.symm here])]
      exact sound.typed name v found
  · intro free name last absent found
    rw [stage_declared?] at free
    rw [stage_value?] at absent
    rw [stage_schema_last] at found
    by_cases here : name = entry.name
    · subst here
      rw [if_pos rfl, Option.or_eq_none_iff] at absent
      rw [if_pos ⟨free, rfl⟩] at found
      have isNull := (stored?_none absent.1).1
      exact Option.some.inj found ▸ admits.nullable (by rw [isNull]; rfl)
    · rw [if_neg here] at absent
      rw [if_neg (by simp [Ne.symm here])] at found
      exact sound.optional free name last absent found

theorem run_sound (declared? : Option Schema) (policy : Policy) (writes : List Write) :
    ((start declared? policy).run writes).Sound :=
  run_preserves (fun _ _ _ _ sound admits => sound.stage admits) (start_sound declared? policy)
    writes

theorem build_eq_ok_iff {b : Builder} {r : Record} :
    b.build = .ok r ↔ b.missing = [] ∧ r = ⟨b.schema, b.staged⟩ := by
  unfold build checkRequired
  cases b.missing with
  | nil => simp [Except.map, eq_comm]
  | cons name names => simp [Except.map]

theorem missing_eq_nil_iff {b : Builder} {schema : Schema} (declared : b.declared? = some schema) :
    b.missing = [] ↔
      ∀ entry ∈ schema.entries, b.value? entry.name = none → entry.nullable = true := by
  unfold missing
  rw [declared, List.map_eq_nil_iff, List.filter_eq_nil_iff]
  refine forall₂_congr fun entry _ => ?_
  cases held : b.value? entry.name with
  | none =>
    have unset : NameMap.find? entry.name b.staged = none := held
    simp [NameMap.contains, unset]
  | some v =>
    have isSet : NameMap.find? entry.name b.staged = some v := held
    simp [NameMap.contains, isSet]

/-- The declared entries of a finished record that have no value are nullable. -/
theorem missing_eq_nil {b : Builder} {schema : Schema} (declared : b.declared? = some schema)
    (complete : b.missing = []) {entry : Entry} (member : entry ∈ schema.entries)
    (absent : b.value? entry.name = none) : entry.nullable = true :=
  (missing_eq_nil_iff declared).mp complete entry member absent

/-- Every value of a finished record has an entry, and the last entry of its name accepts it. A
name of the schema without value has a last entry that is nullable. -/
theorem build_sound (declared? : Option Schema) (policy : Policy) (writes : List Write) (r : Record)
    (built : ((start declared? policy).run writes).build = .ok r) :
    (∀ name v, (name, v) ∈ r.values → ∃ entry,
      r.schema.lastEntry? name = some entry ∧ entry.type.accepts v = true) ∧
    (∀ name ∈ r.schema.names, (∀ v, (name, v) ∉ r.values) → ∃ entry,
      r.schema.lastEntry? name = some entry ∧ entry.nullable = true) := by
  have sound := run_sound declared? policy writes
  have sorted := run_staged_sorted declared? policy writes
  generalize (start declared? policy).run writes = b at built sound sorted
  obtain ⟨complete, rfl⟩ := build_eq_ok_iff.mp built
  constructor
  · intro name v member
    exact sound.typed name v (sorted.find?_of_mem member)
  · intro name named unset
    have absent : b.value? name = none := by
      cases found : b.value? name with
      | none => rfl
      | some v => exact absurd (NameMap.mem_of_find? found) (unset v)
    obtain ⟨entry, last⟩ := Entry.lastNamed?_exists named
    refine ⟨entry, last, ?_⟩
    cases declared : b.declared? with
    | none => exact sound.optional declared name entry absent last
    | some schema =>
      obtain ⟨member, rfl⟩ := Schema.lastEntry?_some last
      rw [schema_of_declared declared] at member
      exact missing_eq_nil declared complete member absent

def retyping : List Write :=
  [.named "at" (.long 5), .namedNull "at" .dateTime, .named "count" (.int 1),
    .namedNull "count" .string, .through { name := "at", type := .int } (.string "late")]

theorem build_sound_retyping :
    ∃ r, ((start none .legacy).run retyping).build = .ok r ∧
      r.values = [("at", .dateTime (-1))] ∧ r.schema.names = ["at", "at", "count", "count"] ∧
      (∀ name v, (name, v) ∈ r.values → ∃ entry,
        r.schema.lastEntry? name = some entry ∧ entry.type.accepts v = true) ∧
      (∀ name ∈ r.schema.names, (∀ v, (name, v) ∉ r.values) → ∃ entry,
        r.schema.lastEntry? name = some entry ∧ entry.nullable = true) :=
  ⟨_, rfl, rfl, rfl, build_sound none .legacy retyping _ rfl⟩

end TypedRecords.Builder
