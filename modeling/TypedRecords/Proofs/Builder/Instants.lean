import TypedRecords.Proofs.Builder.History
import TypedRecords.Proofs.Builder.Settled
import TypedRecords.Record.Diagnostic

/-! The values of type `DATETIME`. A write brings its value into the form of an instant, so that a
long can be found there only where its name got the type afterwards. This takes a null, without a
declared schema and under a policy that stores nothing for it. -/
namespace TypedRecords

theorem FieldType.accepts_dateTime {v : Value} (accepted : FieldType.dateTime.accepts v = true) :
    (∃ millis, v = .dateTime millis) ∨ ∃ millis, v = .long millis := by
  cases v with
  | dateTime millis => exact .inl ⟨millis, rfl⟩
  | long millis => exact .inr ⟨millis, rfl⟩
  | _ => cases accepted

theorem FieldType.accepts_long {type : FieldType} {millis : Int64}
    (accepted : type.accepts (.long millis) = true) : type = .long ∨ type = .dateTime := by
  cases type with
  | long => exact .inl rfl
  | dateTime => exact .inr rfl
  | _ => cases accepted

/-- An instant is written in the form of RFC 3339, if it has one. -/
theorem Value.toJson_dateTime {millis : Int64} {t : Instant}
    (inRange : Instant.ofMillis? millis.toInt = some t) :
    (Value.dateTime millis).toJson = .string (Rfc3339.render t) := by
  simp [Value.toJson, Coercion.millisText?, inRange]

namespace Accepted

variable {policy : Policy} {a : Accepted}

/-- A long stays a long under entries of other types than `DATETIME`. -/
theorem stored?_eq_long_iff {millis : Int64} : a.stored? policy = some (.long millis) ↔
    a.write.input = .value (.long millis) ∧ a.entry.type ≠ .dateTime := by
  unfold stored?
  cases a.write.input with
  | null => simp
  | temporal t => simp
  | value v =>
    cases v with
    | long n => by_cases isDateTime : a.entry.type = .dateTime <;> simp [isDateTime]
    | _ => simp

theorem stored?_eq_none_iff : a.stored? policy = none ↔ a.write.input = .null ∧
    ¬ (a.entry.type = .dateTime ∧ a.entry.nullable = true ∧ policy.nullDateTime = .sentinel) := by
  unfold stored?
  cases a.write.input with
  | null => simp
  | temporal t => simp
  | value v => cases v <;> simp

/-- A long is accepted under two types, and one of them turns it into an instant. -/
theorem type_of_stored_long {declared? : Option Schema} {millis : Int64}
    (admits : Admits declared? a.entry a.write.setter a.write.input)
    (stored : a.stored? policy = some (.long millis)) : a.entry.type = .long := by
  obtain ⟨given, other⟩ := stored?_eq_long_iff.mp stored
  have accepted : a.entry.type.accepts (.long millis) = true := by
    have compatible := admits.compatible
    rwa [given, ← admits.type] at compatible
  exact (FieldType.accepts_long accepted).resolve_right other

/-- A null of the type of instants stores nothing under one policy only. -/
theorem absent_of_quiet_null {declared? : Option Schema}
    (admits : Admits declared? a.entry a.write.setter a.write.input)
    (quiet : a.stored? policy = none) (typed : a.entry.type = .dateTime) :
    policy.nullDateTime = .absent := by
  obtain ⟨isNull, noSentinel⟩ := stored?_eq_none_iff.mp quiet
  have nullable := admits.nullable (by rw [isNull]; rfl)
  cases chosen : policy.nullDateTime with
  | absent => rfl
  | sentinel => exact absurd ⟨typed, nullable, chosen⟩ noSentinel

end Accepted

/-- The name was given the long by a write of type `LONG`. After it came only nulls of types that
take longs. -/
def KeepsLong (accepted : List Accepted) (name : String) (millis : Int64) : Prop :=
  ∃ earlier a later, accepted = earlier ++ a :: later ∧ a.write.name = name ∧
    a.entry.type = .long ∧ a.write.input = .value (.long millis) ∧
    ∀ c ∈ later, c.write.name = name →
      c.write.input = .null ∧ (c.entry.type = .long ∨ c.entry.type = .dateTime)

namespace Builder

section Instants

variable {declared? : Option Schema} {policy : Policy} {writes : List Write}

/-- Under a declared schema an accepted write has the type of the last entry of its name. -/
theorem history_type_of_declared {schema : Schema} {a : Accepted}
    (member : a ∈ (start (some schema) policy).history writes) {entry : Entry}
    (last : schema.lastEntry? a.write.name = some entry) : a.entry.type = entry.type := by
  have admits := history_admits member
  obtain ⟨known, found, typed, -⟩ := admits.declared schema rfl
  rw [history_entry_name member, last] at found
  rw [admits.type, ← typed, Option.some.inj found]

/-- Of the entries from some write on, one is the last of the name of this write. -/
theorem last_entry_from {earlier later : List Accepted} {a : Accepted} {entry : Entry}
    (last : Entry.lastNamed? a.entry.name ((earlier ++ a :: later).map Accepted.entry) =
      some entry) :
    entry = a.entry ∨ ∃ c ∈ later, c.entry = entry := by
  have among : a.entry.name ∈ ((a :: later).map Accepted.entry).map Entry.name := by simp
  obtain ⟨found, isLast⟩ := Entry.lastNamed?_exists among
  have same := Entry.lastNamed?_append_of_some isLast (earlier.map Accepted.entry)
  rw [← List.map_append, last] at same
  obtain rfl := Option.some.inj same
  simpa [eq_comm] using (Entry.lastNamed?_some isLast).1

theorem not_long_of_declared {schema : Schema} {entry : Entry} {millis : Int64}
    (last : schema.lastEntry? entry.name = some entry) (typed : entry.type = .dateTime) :
    ((start (some schema) policy).run writes).value? entry.name ≠ some (.long millis) := by
  intro held
  rw [start_run_value?] at held
  obtain ⟨earlier, a, later, split, here, stored, -⟩ := foldl_settle_eq_some held
  have member : a ∈ (start (some schema) policy).history writes := by simp [split]
  rw [← here] at last
  have other := (Accepted.stored?_eq_long_iff.mp stored).2
  exact other ((history_type_of_declared member last).trans typed)

/-- Without a declared schema a long that is found under the type of instants was kept by nulls. -/
theorem keepsLong_of_value? {entry : Entry} {millis : Int64}
    (last : ((start none policy).run writes).schema.lastEntry? entry.name = some entry)
    (typed : entry.type = .dateTime)
    (held : ((start none policy).run writes).value? entry.name = some (.long millis)) :
    policy.nullDateTime = .absent ∧
      KeepsLong ((start none policy).history writes) entry.name millis := by
  rw [start_run_value?] at held
  obtain ⟨earlier, a, later, split, here, stored, nulls⟩ := foldl_settle_eq_some held
  obtain ⟨given, other⟩ := Accepted.stored?_eq_long_iff.mp stored
  have member : a ∈ (start none policy).history writes := by simp [split]
  have inHistory : ∀ c ∈ later, c ∈ (start none policy).history writes := by
    intro c inside
    simp [split, inside]
  have named : a.entry.name = entry.name := (history_entry_name member).trans here
  constructor
  · -- the write that gave the type is a null, which another policy would store as an instant
    have observed : ((start none policy).run writes).observed =
        ((start none policy).history writes).map Accepted.entry := run_observed rfl writes
    rw [schema_lastEntry?_of_free (run_declared? _ writes), observed, split, ← named] at last
    rcases last_entry_from last with own | ⟨c, inside, rfl⟩
    · exact absurd (own ▸ typed) other
    · have same : c.write.name = c.entry.name := (history_entry_name (inHistory c inside)).symm
      exact Accepted.absent_of_quiet_null (history_admits (inHistory c inside))
        (nulls c inside same).1 typed
  · refine ⟨earlier, a, later, split, here, ?_, given, fun c inside same => ?_⟩
    · exact Accepted.type_of_stored_long (history_admits member) stored
    · obtain ⟨quiet, accepts⟩ := nulls c inside same
      exact ⟨(Accepted.stored?_eq_none_iff.mp quiet).1, FieldType.accepts_long (accepts rfl)⟩

/-- Nulls that store nothing keep a long, although they give its name another type. -/
theorem value?_of_keepsLong (absent : policy.nullDateTime = .absent) {name : String}
    {millis : Int64} (keeps : KeepsLong ((start none policy).history writes) name millis) :
    ((start none policy).run writes).value? name = some (.long millis) := by
  obtain ⟨earlier, a, later, split, here, isLong, given, nulls⟩ := keeps
  have stored : a.stored? policy = some (.long millis) :=
    Accepted.stored?_eq_long_iff.mpr ⟨given, by simp [isLong]⟩
  have quiet : ∀ c ∈ later, c.write.name = name → c.stored? policy = none := by
    intro c inside same
    exact Accepted.stored?_eq_none_iff.mpr ⟨(nulls c inside same).1, by simp [absent]⟩
  have kept : ¬ ((none : Option Schema) = none ∧
      ∃ c ∈ later, c.write.name = name ∧ c.entry.type.accepts (.long millis) = false) := by
    rintro ⟨-, c, inside, same, refused⟩
    rcases (nulls c inside same).2 with typed | typed <;> simp [typed, FieldType.accepts] at refused
  have settled (held : Option Value) :
      Accepted.settle none policy name held a = some (.long millis) := by
    simp [Accepted.settle, here, stored]
  rw [start_run_value?, split, List.foldl_append, List.foldl_cons, settled,
    foldl_settle_some _ quiet, if_neg kept]

/-- What a finished record stores under the last entry of a name is an instant, if the type is
`DATETIME`, and it is written in the form of RFC 3339 where it has one. A long is found there only
where no schema is declared and the name got its type from nulls that store nothing, and there it
always is. Every entry is the last one of its name if entries are collapsed or a draft was frozen.
-/
theorem instants_stored {r : Record}
    (built : ((start declared? policy).run writes).build = .ok r) :
    let accepted := (start declared? policy).history writes
    (∀ entry v, r.schema.lastEntry? entry.name = some entry → entry.type = .dateTime →
      r.value? entry.name = some v →
      (∃ millis, v = .dateTime millis ∧ ∀ t, Instant.ofMillis? millis.toInt = some t →
        v.toJson = .string (Rfc3339.render t)) ∨
      declared? = none ∧ policy.nullDateTime = .absent ∧
        ∃ millis, v = .long millis ∧ KeepsLong accepted entry.name millis) ∧
    (declared? = none → policy.nullDateTime = .absent → ∀ name millis,
      KeepsLong accepted name millis → r.value? name = some (.long millis)) ∧
    (declared? = none ∧ policy.duplicateEntries = .lastWins ∨
        (∃ draft schema, SchemaDraft.freeze draft = .ok schema ∧ declared? = some schema) →
      ∀ entry ∈ r.schema.entries, r.schema.lastEntry? entry.name = some entry) := by
  intro accepted
  have sound := run_sound declared? policy writes
  obtain ⟨-, rfl⟩ := build_eq_ok_iff.mp built
  refine ⟨fun entry v last typed stored => ?_, ?_, fun origin entry member => ?_⟩
  · have held : ((start declared? policy).run writes).value? entry.name = some v := stored
    obtain ⟨known, isKnown, takes⟩ := sound.typed entry.name v held
    obtain rfl := Option.some.inj (last.symm.trans isKnown)
    rw [typed] at takes
    rcases FieldType.accepts_dateTime takes with ⟨millis, rfl⟩ | ⟨millis, rfl⟩
    · exact .inl ⟨millis, rfl, fun t inRange => Value.toJson_dateTime inRange⟩
    · refine .inr ?_
      cases declared? with
      | some schema =>
        rw [schema_of_declared (run_declared? _ writes)] at last
        exact absurd held (not_long_of_declared last typed)
      | none =>
        obtain ⟨absent, keeps⟩ := keepsLong_of_value? last typed held
        exact ⟨rfl, absent, millis, rfl, keeps⟩
  · rintro rfl absent name millis keeps
    exact value?_of_keepsLong absent keeps
  · have distinct := (run_schema_distinct writes origin).1
    rw [Schema.lastEntry?_eq_entry? distinct]
    exact Schema.entry?_of_mem distinct member

/-- Two names that are long first. One of them is written again as an instant, and both get their
type from a null. -/
def retypedLongs : List Write :=
  [.named "at" (.long 5), .generic { name := "at", type := .dateTime } (.value (.long 7)),
    .namedNull "at" .dateTime, .named "late" (.long 9), .namedNull "late" .dateTime]

theorem instants_stored_retypedLongs :
    ∃ r t, ((start none {}).run retypedLongs).build = .ok r ∧
      (r.schema.entries.map fun entry => (entry.name, entry.type)) =
        [("at", .dateTime), ("late", .dateTime)] ∧
      Instant.ofMillis? 7 = some t ∧
      (r.value? "at").map Value.toJson = some (.string (Rfc3339.render t)) ∧
      r.value? "late" = some (.long 9) := by
  have inRange : Instant.ofMillis? 7 = some ⟨0, 7000000, by decide, by decide, by decide⟩ := rfl
  obtain ⟨canonical, kept, -⟩ := @instants_stored none {} retypedLongs _ rfl
  refine ⟨_, _, rfl, rfl, inRange, ?_, kept rfl rfl "late" 9 ?_⟩
  · rcases canonical (.observed "at" .dateTime) (.dateTime 7) rfl rfl rfl with
      ⟨millis, same, written⟩ | ⟨-, -, millis, same, -⟩
    · obtain rfl := Value.dateTime.inj same
      exact congrArg some (written _ inRange)
    · cases same
  · refine ⟨_, _, _, (rfl : _ = [_, _, _] ++ _ :: [_]), rfl, rfl, rfl, fun c member same => ?_⟩
    obtain rfl := List.mem_singleton.mp member
    exact ⟨rfl, .inr rfl⟩

/-- A null gives the type of instants to a long, which stays a long and is written as a number. -/
theorem retyped_long_is_no_instant :
    ∃ r, ((start none {}).run [.named "at" (.long 5), .namedNull "at" .dateTime]).build = .ok r ∧
      (r.schema.entry? "at").map Entry.type = some .dateTime ∧ r.value? "at" = some (.long 5) ∧
      r.toJson = .object [("at", .integer 5)] :=
  ⟨_, rfl, rfl, rfl, rfl⟩

end Instants

end Builder

end TypedRecords
