import TypedRecords.Proofs.Builder.Collapse

/-! What one write can do. It is refused and leaves the builder as it was, or it goes through one
entry of the name that is written and stages at most one value, under this name. -/
namespace TypedRecords

namespace Write

/-- The type of the setter. Setters without a type of their own take that of their entry. -/
def setter : Write → FieldType
  | named _ payload => payload.type
  | through _ payload => payload.type
  | namedNull _ type => type
  | nullThrough entry => entry.type
  | generic entry _ => entry.type

def input : Write → FieldInput
  | named _ payload => payload.input
  | through _ payload => payload.input
  | namedNull _ _ => .null
  | nullThrough _ => .null
  | generic _ input => input

end Write

/-- The writes that are accepted, of a setter's type through an entry. Neither the staged values
nor the policy have a say. -/
structure Admits (declared? : Option Schema) (entry : Entry) (setter : FieldType)
    (input : FieldInput) : Prop where
  type : entry.type = setter
  element : entry.lacksElement = false
  declared : ∀ schema, declared? = some schema →
    ∃ known, schema.lastEntry? entry.name = some known ∧
      known.type = setter ∧ (input.isNull = true → known.nullable = true)
  compatible : setter.isCompatible input = true
  nullable : input.isNull = true → entry.nullable = true

namespace Builder

def entryOf (b : Builder) : Write → Except RecordError Entry
  | .named name payload => b.resolve name (payload.observedEntry name)
  | .namedNull name type => b.resolve name (.observed name type)
  | .through entry _ => .ok entry
  | .nullThrough entry => .ok entry
  | .generic entry _ => .ok entry

theorem write_eq (b : Builder) (w : Write) :
    b.write w = match b.entryOf w with
      | .error error => ⟨some error, b⟩
      | .ok entry => b.set entry w.setter w.input := by
  cases w <;> rfl

theorem resolve_name {b : Builder} {name : String} {observed entry : Entry}
    (named : observed.name = name) (resolved : b.resolve name observed = .ok entry) :
    entry.name = name := by
  unfold resolve at resolved
  split at resolved
  · exact Except.ok.inj resolved ▸ named
  · next schema _ =>
    rw [schema.indexed?_eq_lastEntry?] at resolved
    split at resolved
    · next known found =>
      obtain rfl := Except.ok.inj resolved
      exact (Schema.lastEntry?_some found).2
    · contradiction

theorem entryOf_name {b : Builder} {w : Write} {entry : Entry}
    (through : b.entryOf w = .ok entry) : entry.name = w.name := by
  cases w with
  | named name payload => exact resolve_name (by cases payload <;> rfl) through
  | namedNull name type => exact resolve_name rfl through
  | through => exact Except.ok.inj through ▸ rfl
  | nullThrough => exact Except.ok.inj through ▸ rfl
  | generic => exact Except.ok.inj through ▸ rfl

def stage (b : Builder) (entry : Entry) : Option Value → Builder
  | some v => { b with staged := b.staged.insert entry.name v }.observe entry
  | none => (b.dropStale entry).observe entry

theorem nullValue?_some {b : Builder} {entry : Entry} {v : Value}
    (stored : b.nullValue? entry = some v) :
    v = .dateTime (-1) ∧ entry.type = .dateTime ∧ entry.nullable = true := by
  unfold nullValue? at stored
  split at stored
  · next sentinel => exact ⟨(Option.some.inj stored).symm, sentinel.1, sentinel.2.1⟩
  · contradiction

/-- Only nulls can store nothing. -/
theorem stored?_none {b : Builder} {entry : Entry} {setter : FieldType} {input : FieldInput}
    (nothing : b.stored? entry setter input = none) :
    input = .null ∧ b.nullValue? entry = none := by
  cases input with
  | null => exact ⟨rfl, nothing⟩
  | temporal t => simp [stored?] at nothing
  | value v => cases v <;> simp [stored?] at nothing

/-- The stored form is of the type of the entry. -/
theorem stored?_accepted {b : Builder} {entry : Entry} {setter : FieldType} {input : FieldInput}
    {v : Value} (typed : entry.type = setter) (compatible : setter.isCompatible input = true)
    (stored : b.stored? entry setter input = some v) : entry.type.accepts v = true := by
  subst typed
  cases input with
  | null =>
    obtain ⟨rfl, isDateTime, -⟩ := nullValue?_some stored
    simp [isDateTime, FieldType.accepts]
  | temporal t =>
    have isDateTime : entry.type = .dateTime := by simpa [FieldType.isCompatible] using compatible
    obtain rfl := Option.some.inj stored
    simp [isDateTime, FieldType.accepts]
  | value given =>
    cases given with
    | long millis =>
      obtain rfl := Option.some.inj stored
      split
      · next isDateTime => simp [isDateTime, FieldType.accepts]
      · exact compatible
    | _ => exact Option.some.inj stored ▸ compatible

theorem declaredObjection?_eq_none_iff {b : Builder} {name : String} {type : FieldType}
    {isNull : Bool} : b.declaredObjection? name type isNull = none ↔
      ∀ schema, b.declared? = some schema → ∃ known, schema.lastEntry? name = some known ∧
        known.type = type ∧ (isNull = true → known.nullable = true) := by
  unfold declaredObjection?
  cases b.declared? with
  | none => simp
  | some schema =>
    simp only [schema.indexed?_eq_lastEntry?, Option.some.injEq, forall_eq']
    cases schema.lastEntry? name with
    | none => simp
    | some known =>
      by_cases typed : known.type = type
      · by_cases nullable : known.nullable = true <;> simp [typed, nullable]
      · simp [typed]

theorem objection?_eq_none_iff {b : Builder} {entry : Entry} {setter : FieldType}
    {input : FieldInput} : b.objection? entry setter input = none ↔
      entry.type = setter ∧ entry.lacksElement = false ∧
      b.declaredObjection? entry.name setter input.isNull = none ∧
      setter.isCompatible input = true := by
  unfold objection?
  by_cases typed : entry.type = setter
  · by_cases lacks : entry.lacksElement = true
    · simp [typed, lacks]
    · by_cases compatible : setter.isCompatible input = true <;> simp [typed, lacks, compatible]
  · simp [typed]

theorem append_of_nullable {b : Builder} {entry : Entry} {v? : Option Value}
    (nullable : v? = none → entry.nullable = true) :
    b.append entry v? = ⟨none, b.stage entry v?⟩ := by
  cases v? with
  | some v => rfl
  | none => simp [append, stage, nullable rfl]

theorem set_of_admits {b : Builder} {entry : Entry} {setter : FieldType} {input : FieldInput}
    (admits : Admits b.declared? entry setter input) :
    b.set entry setter input = ⟨none, b.stage entry (b.stored? entry setter input)⟩ := by
  have silent : b.objection? entry setter input = none :=
    objection?_eq_none_iff.mpr ⟨admits.type, admits.element,
      declaredObjection?_eq_none_iff.mpr admits.declared, admits.compatible⟩
  rw [set, silent]
  refine append_of_nullable fun nothing => admits.nullable ?_
  rw [(stored?_none nothing).1]
  rfl

/-- A write that fails leaves everything in place. -/
theorem set_of_not_admits {b : Builder} {entry : Entry} {setter : FieldType} {input : FieldInput}
    (refused : ¬ Admits b.declared? entry setter input) :
    ∃ error, b.set entry setter input = ⟨some error, b⟩ := by
  unfold set
  cases objection : b.objection? entry setter input with
  | some error => exact ⟨error, rfl⟩
  | none =>
    obtain ⟨type, element, silent, compatible⟩ := objection?_eq_none_iff.mp objection
    -- every check but the last one has passed, so that a null meets an entry that is not nullable
    have required : input.isNull = true ∧ entry.nullable = false := by
      by_contra optional
      refine refused ⟨type, element, declaredObjection?_eq_none_iff.mp silent, compatible, ?_⟩
      simpa using optional
    obtain ⟨isNull, notNullable⟩ := required
    cases input with
    | null =>
      have nothing : b.stored? entry setter .null = none := by
        simp [stored?, nullValue?, notNullable]
      exact ⟨.notNullable entry.name, by simp [nothing, append, notNullable]⟩
    | value v => simp [FieldInput.isNull] at isNull
    | temporal t => simp [FieldInput.isNull] at isNull

/-- The two ends of a write. -/
theorem write_cases (b : Builder) (w : Write) :
    (∃ error, b.write w = ⟨some error, b⟩) ∨
    (∃ entry, b.entryOf w = .ok entry ∧ Admits b.declared? entry w.setter w.input ∧
      b.write w = ⟨none, b.stage entry (b.stored? entry w.setter w.input)⟩) := by
  rw [write_eq]
  cases through : b.entryOf w with
  | error error => exact .inl ⟨error, rfl⟩
  | ok entry =>
    by_cases admits : Admits b.declared? entry w.setter w.input
    · exact .inr ⟨entry, rfl, admits, set_of_admits admits⟩
    · exact .inl (set_of_not_admits admits)

theorem write_accepted_iff {b : Builder} {w : Write} :
    (b.write w).error? = none ↔
      ∃ entry, b.entryOf w = .ok entry ∧ Admits b.declared? entry w.setter w.input := by
  constructor
  · intro accepted
    rcases b.write_cases w with ⟨error, refused⟩ | ⟨entry, through, admits, -⟩
    · simp [refused] at accepted
    · exact ⟨entry, through, admits⟩
  · rintro ⟨entry, through, admits⟩
    rw [write_eq, through]
    simp only [set_of_admits admits]

theorem entryOf_congr {b c : Builder} (same : b.declared? = c.declared?) (w : Write) :
    b.entryOf w = c.entryOf w := by
  cases w <;> simp [entryOf, resolve, same]

section Stage

variable (b : Builder) (entry : Entry) (v? : Option Value)

@[simp] theorem observe_declared? : (b.observe entry).declared? = b.declared? := by
  unfold observe; split <;> simp_all

@[simp] theorem observe_policy : (b.observe entry).policy = b.policy := by
  unfold observe; split <;> rfl

@[simp] theorem observe_staged : (b.observe entry).staged = b.staged := by
  unfold observe; split <;> rfl

@[simp] theorem dropStale_declared? : (b.dropStale entry).declared? = b.declared? := by
  unfold dropStale
  split
  · split <;> rfl
  · rfl

@[simp] theorem dropStale_policy : (b.dropStale entry).policy = b.policy := by
  unfold dropStale
  split
  · split <;> rfl
  · rfl

@[simp] theorem dropStale_observed : (b.dropStale entry).observed = b.observed := by
  unfold dropStale
  split
  · split <;> rfl
  · rfl

@[simp] theorem stage_declared? : (b.stage entry v?).declared? = b.declared? := by
  cases v? <;> simp [stage]

@[simp] theorem stage_policy : (b.stage entry v?).policy = b.policy := by
  cases v? <;> simp [stage]

theorem stage_observed (free : b.declared? = none) :
    (b.stage entry v?).observed = b.observed ++ [entry] := by
  cases v? <;> simp [stage, observe, free]

theorem mem_stage_observed {other : Entry} (member : other ∈ (b.stage entry v?).observed) :
    other ∈ b.observed ∨ other = entry := by
  cases declared : b.declared? with
  | none => simpa [stage_observed b entry v? declared] using member
  | some schema =>
    refine .inl ?_
    cases v? <;> simpa [stage, observe, declared] using member

theorem stage_staged_sorted (sorted : b.staged.Sorted) : (b.stage entry v?).staged.Sorted := by
  cases v? with
  | some v => simpa [stage] using sorted.insert entry.name v
  | none =>
    simp only [stage, observe_staged, dropStale]
    split
    · split
      · exact sorted
      · exact sorted.erase entry.name
    · exact sorted

/-- What a null that stores nothing leaves under the name of its entry. -/
def leftover? : Option Value :=
  match b.declared? with
  | none => (b.value? entry.name).filter entry.type.accepts
  | some _ => b.value? entry.name

theorem dropStale_value? (name : String) :
    (b.dropStale entry).value? name =
      if name = entry.name then b.leftover? entry else b.value? name := by
  unfold dropStale leftover?
  cases b.declared? with
  | some schema => simp +contextual
  | none =>
    cases held : b.value? entry.name with
    | none => simp +contextual [held]
    | some v =>
      by_cases accepted : entry.type.accepts v = true
      · simp +contextual [accepted, held, Option.filter]
      · simp [accepted, value?, Option.filter]

/-- Only the name that is written can find another value. -/
theorem stage_value? (name : String) :
    (b.stage entry v?).value? name =
      if name = entry.name then v?.or (b.leftover? entry) else b.value? name := by
  cases v? with
  | some v => simp [stage, value?]
  | none =>
    simpa [stage, value?] using dropStale_value? b entry name

end Stage

section Run

@[simp] theorem run_nil (b : Builder) : b.run [] = b := rfl

@[simp] theorem run_cons (b : Builder) (w : Write) (writes : List Write) :
    b.run (w :: writes) = (b.write w).builder.run writes := rfl

@[simp] theorem write_declared? (b : Builder) (w : Write) :
    (b.write w).builder.declared? = b.declared? := by
  rcases b.write_cases w with ⟨error, refused⟩ | ⟨entry, -, -, accepted⟩
  · rw [refused]
  · simp [accepted]

/-- What every accepted write of some kind preserves holds after a run of such writes, those that
are refused included. -/
theorem run_preserves_of {P : Builder → Prop} {Q : Write → Prop}
    (preserved : ∀ b entry w, P b → Q w → b.entryOf w = .ok entry →
      Admits b.declared? entry w.setter w.input →
      P (b.stage entry (b.stored? entry w.setter w.input)))
    {b : Builder} (holds : P b) {writes : List Write} (kind : ∀ w ∈ writes, Q w) :
    P (b.run writes) := by
  induction writes generalizing b with
  | nil => exact holds
  | cons w writes ih =>
    obtain ⟨first, rest⟩ := List.forall_mem_cons.mp kind
    rw [run_cons]
    refine ih ?_ rest
    rcases b.write_cases w with ⟨error, refused⟩ | ⟨entry, through, admits, accepted⟩
    · rw [refused]
      exact holds
    · rw [accepted]
      exact preserved b entry w holds first through admits

theorem run_preserves {P : Builder → Prop}
    (preserved : ∀ b entry setter input, P b → Admits b.declared? entry setter input →
      P (b.stage entry (b.stored? entry setter input)))
    {b : Builder} (holds : P b) (writes : List Write) : P (b.run writes) :=
  run_preserves_of (Q := fun _ => True)
    (fun b entry w before _ _ admits => preserved b entry w.setter w.input before admits) holds
    fun _ _ => trivial

@[simp] theorem run_declared? (b : Builder) (writes : List Write) :
    (b.run writes).declared? = b.declared? :=
  run_preserves (P := fun c => c.declared? = b.declared?)
    (fun _ _ _ _ same _ => by simpa using same) rfl writes

@[simp] theorem run_policy (b : Builder) (writes : List Write) :
    (b.run writes).policy = b.policy :=
  run_preserves (P := fun c => c.policy = b.policy)
    (fun _ _ _ _ same _ => by simpa using same) rfl writes

theorem run_staged_sorted (declared? : Option Schema) (policy : Policy) (writes : List Write) :
    ((start declared? policy).run writes).staged.Sorted :=
  run_preserves (P := fun c => c.staged.Sorted)
    (fun b entry _ _ sorted _ => stage_staged_sorted b entry _ sorted) NameMap.sorted_empty writes

end Run

end Builder

end TypedRecords
