import TypedRecords.Proofs.Builder.Verdict
import TypedRecords.Proofs.Schema.Distinct

/-! Types under a declared schema. The caller chooses the setter, the entry and the value of a
write; it goes through only where the setter has the type that is declared for the name, and it
stores a value of no other type. -/
namespace TypedRecords

/-- The type that a value has by itself. A long has the type `LONG`, although it may stand for an
instant. -/
def Value.type : Value → FieldType
  | .string _ => .string
  | .bytes _ => .bytes
  | .int _ => .int
  | .long _ => .long
  | .float _ => .float
  | .double _ => .double
  | .boolean _ => .boolean
  | .dateTime _ => .dateTime
  | .array _ => .array
  | .record _ => .record

/-- A long is the only value that two types accept. -/
theorem FieldType.type_of_accepts {type : FieldType} {v : Value}
    (accepted : type.accepts v = true) :
    v.type = type ∨ type = .dateTime ∧ ∃ millis, v = .long millis := by
  cases v with
  | long millis =>
    cases type with
    | long => exact .inl rfl
    | dateTime => exact .inr ⟨rfl, millis, rfl⟩
    | _ => cases accepted
  | _ =>
    refine .inl ?_
    cases type <;> simp_all [FieldType.accepts, Value.type]

namespace Builder

section Declared

variable {b : Builder} {schema : Schema}

/-- A stored form has the type of the setter, which is that of the entry. A long that is written
as an instant has become one. -/
theorem stored?_type {entry : Entry} {setter : FieldType} {input : FieldInput} {v : Value}
    (typed : entry.type = setter) (compatible : setter.isCompatible input = true)
    (stored : b.stored? entry setter input = some v) : v.type = setter := by
  rcases FieldType.type_of_accepts (stored?_accepted typed compatible stored) with
    same | ⟨isDateTime, millis, rfl⟩
  · rw [same, typed]
  · rw [typed] at isDateTime
    subst isDateTime
    cases input with
    | null =>
      obtain ⟨isInstant, -⟩ := nullValue?_some stored
      cases isInstant
    | temporal t => cases stored
    | value given => cases given <;> cases stored

/-- An accepted write has the type of the last entry of its name. -/
theorem write_accepted_type (declared : b.declared? = some schema) {w : Write}
    (accepted : (b.write w).error? = none) :
    ∃ known, schema.lastEntry? w.name = some known ∧ known.type = w.setter := by
  obtain ⟨entry, through, admits⟩ := write_accepted_iff.mp accepted
  obtain ⟨known, found, typed, -⟩ := admits.declared schema declared
  exact ⟨known, entryOf_name through ▸ found, typed⟩

def Typed (schema : Schema) (b : Builder) : Prop :=
  ∀ name v, b.value? name = some v →
    ∃ known, schema.lastEntry? name = some known ∧ v.type = known.type

theorem Typed.stage (typed : b.Typed schema) (declared : b.declared? = some schema) {entry : Entry}
    {setter : FieldType} {input : FieldInput} (admits : Admits b.declared? entry setter input) :
    (b.stage entry (b.stored? entry setter input)).Typed schema := by
  intro name v found
  rw [stage_value?] at found
  by_cases here : name = entry.name
  · subst here
    rw [if_pos rfl] at found
    cases stored : b.stored? entry setter input with
    | some fresh =>
      rw [stored, Option.some_or] at found
      obtain ⟨known, isKnown, sameType, -⟩ := admits.declared schema declared
      exact ⟨known, isKnown, (stored?_type admits.type admits.compatible (stored.trans found)).trans
        sameType.symm⟩
    | none =>
      -- a null leaves what is staged under a declared schema
      rw [stored, Option.none_or, leftover?, declared] at found
      exact typed entry.name v found
  · rw [if_neg here] at found
    exact typed name v found

theorem run_typed (schema : Schema) (policy : Policy) (writes : List Write) :
    ((start (some schema) policy).run writes).Typed schema := by
  refine (run_preserves (P := fun c => c.declared? = some schema ∧ c.Typed schema) ?_
    ⟨rfl, fun name v held => by simp [start, value?] at held⟩ writes).2
  rintro c entry setter input ⟨declared, typed⟩ admits
  exact ⟨by simpa using declared, typed.stage declared admits⟩

/-- The search for an entry has one way to fail. -/
theorem resolve_error {name : String} {observed : Entry} {error : RecordError}
    (failed : b.resolve name observed = .error error) :
    ∃ known, error = .unknownEntry name known := by
  unfold resolve at failed
  split at failed
  · cases failed
  · split at failed
    · cases failed
    · exact ⟨_, (Except.error.inj failed).symm⟩

theorem entryOf_error {w : Write} {error : RecordError} (failed : b.entryOf w = .error error) :
    ∃ known, error = .unknownEntry w.name known := by
  cases w with
  | named | namedNull => exact resolve_error failed
  | through | nullThrough | generic => cases failed

/-- The declared schema objects to a setter of another type than that of the last entry of the name,
which it reports. -/
theorem declaredObjection?_typeMismatch (declared : b.declared? = some schema)
    {written name : String} {type expected actual : FieldType} {isNull : Bool}
    (objects : b.declaredObjection? written type isNull =
      some (.typeMismatch name expected actual)) :
    name = written ∧ actual = type ∧ expected ≠ type ∧
      ∃ known, schema.lastEntry? written = some known ∧ expected = known.type := by
  simp only [declaredObjection?, declared, schema.indexed?_eq_lastEntry?] at objects
  cases found : schema.lastEntry? written with
  | none => simp [found] at objects
  | some known =>
    simp only [found] at objects
    split at objects
    · next other =>
      obtain ⟨rfl, rfl, rfl⟩ := RecordError.typeMismatch.inj (Option.some.inj objects)
      exact ⟨rfl, rfl, other, known, rfl, rfl⟩
    · split at objects <;> cases objects

/-- The two checks of types. The first one compares the setter with the entry that is passed, the
second one with what is declared. -/
theorem set_typeMismatch (declared : b.declared? = some schema) {entry : Entry}
    {setter : FieldType} {input : FieldInput} {name : String} {expected actual : FieldType}
    (failed : (b.set entry setter input).error? = some (.typeMismatch name expected actual)) :
    name = entry.name ∧ actual = setter ∧ expected ≠ setter ∧
      if entry.type = setter then
        ∃ known, schema.lastEntry? entry.name = some known ∧ expected = known.type
      else expected = entry.type := by
  rw [set_error?, Option.or_eq_some_iff] at failed
  rcases failed with raised | ⟨-, late⟩
  · unfold objection? at raised
    split at raised
    · next other =>
      obtain ⟨rfl, rfl, rfl⟩ := RecordError.typeMismatch.inj (Option.some.inj raised)
      exact ⟨rfl, rfl, other, by rw [if_neg other]⟩
    · next same =>
      split at raised
      · cases raised
      · rcases Option.or_eq_some_iff.mp raised with objects | ⟨-, incompatible⟩
        · obtain ⟨rfl, rfl, other, isKnown⟩ := declaredObjection?_typeMismatch declared objects
          exact ⟨rfl, rfl, other, by rwa [if_pos (not_not.mp same)]⟩
        · split at incompatible <;> cases incompatible
  · split at late <;> cases late

end Declared

/-- Over a frozen draft, after any writes and whatever entries are passed: what is accepted comes
from a setter of the declared type, what is staged is a value of exactly this type, and a mismatch
is reported between the setter's type and another one, which is that of the entry passed or else the
declared one. -/
theorem declared_types_kept {draft : SchemaDraft} {schema : Schema}
    (frozen : draft.freeze = .ok schema) (policy : Policy) (writes : List Write) :
    let b := (start (some schema) policy).run writes
    (∀ w, (b.write w).error? = none →
      ∃ declared, schema.entry? w.name = some declared ∧ declared.type = w.setter) ∧
    (∀ name v, b.value? name = some v →
      ∃ declared, schema.entry? name = some declared ∧ v.type = declared.type) ∧
    ∀ w name expected actual, (b.write w).error? = some (.typeMismatch name expected actual) →
      name = w.name ∧ actual = w.setter ∧ expected ≠ actual ∧
      ∃ passed, b.entryOf w = .ok passed ∧
        if passed.type = w.setter then
          ∃ declared, schema.entry? w.name = some declared ∧ expected = declared.type
        else expected = passed.type := by
  intro b
  have isDeclared : b.declared? = some schema := by simp [b, start]
  have distinct := (SchemaDraft.freeze_eq_ok_iff.mp frozen).2.1
  simp only [← Schema.lastEntry?_eq_entry? distinct]
  refine ⟨fun w accepted => write_accepted_type isDeclared accepted,
    run_typed schema policy writes, fun w name expected actual failed => ?_⟩
  rw [write_eq] at failed
  cases through : b.entryOf w with
  | error error =>
    simp only [through, Option.some.injEq] at failed
    subst failed
    obtain ⟨known, same⟩ := entryOf_error through
    cases same
  | ok passed =>
    simp only [through] at failed
    obtain ⟨rfl, rfl, other, reported⟩ := set_typeMismatch isDeclared failed
    rw [entryOf_name through] at reported ⊢
    exact ⟨rfl, rfl, other, passed, rfl, reported⟩

/-- Entries that contradict the declared one: a long under an entry of type `DATETIME` for a name
that is declared as such, and an entry of another type for a setter of the declared type. -/
def contradicting : List Write :=
  [.through { name := "at", type := .dateTime, nullable := true } (.long 5),
    .generic { name := "at", type := .dateTime, nullable := true } (.value (.long 5)),
    .generic { name := "at", type := .long } (.value (.long 6))]

theorem declared_types_kept_contradicting :
    let draft : SchemaDraft := { entries := [{ name := "at", type := .dateTime }] }
    ∃ schema, draft.freeze = .ok schema ∧
      let b := (start (some schema) {}).run contradicting
      (start (some schema) {}).answers contradicting =
        [some (.typeMismatch "at" .dateTime .long), none,
          some (.typeMismatch "at" .dateTime .long)] ∧
      (∃ v, b.value? "at" = some v ∧ v.type = .dateTime) ∧
      (b.write (.through { name := "at", type := .int } (.timestamp 7))).error? =
        some (.typeMismatch "at" .int .dateTime) ∧
      ∃ passed, b.entryOf (.through { name := "at", type := .int } (.timestamp 7)) = .ok passed ∧
        passed.type = .int := by
  intro draft
  obtain ⟨-, staged, mismatch⟩ := @declared_types_kept draft _ rfl {} contradicting
  refine ⟨_, rfl, rfl, ?_, rfl, ?_⟩
  · obtain ⟨declared, found, same⟩ := staged "at" (.dateTime 5) rfl
    exact ⟨_, rfl, same.trans (by cases found; rfl)⟩
  · obtain ⟨-, -, -, passed, through, -⟩ :=
      mismatch (.through { name := "at", type := .int } (.timestamp 7)) _ _ _ rfl
    refine ⟨passed, through, ?_⟩
    obtain rfl := Except.ok.inj through
    rfl

end Builder

end TypedRecords
