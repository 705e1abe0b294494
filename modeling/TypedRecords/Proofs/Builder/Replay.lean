import TypedRecords.Proofs.Builder.Refusal
import TypedRecords.Proofs.Builder.Settled

/-! Records written again under their own schema. Where names are distinct, every stored value
passes all checks of the entry that the schema has for its name, whatever led to the record, and the
record comes back in whatever order its values are written. Only a long that stands for an instant
comes back as an instant. -/
namespace TypedRecords

def FieldType.canonical (type : FieldType) : Value → Value
  | .long millis => if type = .dateTime then .dateTime millis else .long millis
  | v => v

def Schema.canonical (schema : Schema) (name : String) (v : Value) : Value :=
  match schema.entry? name with
  | some entry => entry.type.canonical v
  | none => v

namespace Record

def canonical (r : Record) : Record where
  schema := r.schema
  values := r.values.map fun pair => (pair.1, r.schema.canonical pair.1 pair.2)

def rewrite? (r : Record) (pair : String × Value) : Option Write :=
  (r.schema.entry? pair.1).map fun entry => .generic entry (.value pair.2)

/-- A new builder over the schema of the record accepts the pairs, one after another, and is then
finished as the other record. -/
def ReplaysTo (r : Record) (pairs : List (String × Value)) (s : Record) : Prop :=
  ∃ writes, pairs.mapM r.rewrite? = some writes ∧
    (∀ answer ∈ (Builder.start (some r.schema) {}).answers writes, answer = none) ∧
    ((Builder.start (some r.schema) {}).run writes).build = .ok s

end Record

namespace Builder

theorem stored?_canonical (b : Builder) {schema : Schema} {name : String} {entry : Entry}
    (found : schema.entry? name = some entry) (v : Value) :
    b.stored? entry entry.type (.value v) = some (schema.canonical name v) := by
  rw [Schema.canonical, found]
  cases v <;> rfl

/-- A stored pair is accepted, and its canonical form is staged. -/
theorem write_rewrite {r : Record} (settled : r.Settled) {b : Builder}
    (declared : b.declared? = some r.schema) {name : String} {v : Value}
    (member : (name, v) ∈ r.values) :
    ∃ w, r.rewrite? (name, v) = some w ∧ b.write w =
      ⟨none, { b with staged := b.staged.insert name (r.schema.canonical name v) }⟩ := by
  obtain ⟨entry, found, accepts⟩ := settled.typed name v member
  obtain ⟨inSchema, named⟩ := Schema.entry?_some found
  have admits : Admits b.declared? entry entry.type (.value v) := by
    refine ⟨rfl, settled.described entry inSchema, fun schema isSchema => ?_, accepts,
      by simp [FieldInput.isNull]⟩
    obtain rfl := Option.some.inj (declared.symm.trans isSchema)
    rw [named, Schema.lastEntry?_eq_entry? settled.distinct]
    exact ⟨entry, found, rfl, by simp [FieldInput.isNull]⟩
  refine ⟨.generic entry (.value v), by simp [Record.rewrite?, found], ?_⟩
  change b.set entry entry.type (.value v) = _
  rw [set_of_admits admits, stored?_canonical b found]
  simp [stage, observe, declared, named]

theorem run_rewrites {r : Record} (settled : r.Settled) (pairs : List (String × Value))
    (within : ∀ pair ∈ pairs, pair ∈ r.values) {b : Builder}
    (declared : b.declared? = some r.schema) :
    ∃ writes, pairs.mapM r.rewrite? = some writes ∧ (∀ answer ∈ b.answers writes, answer = none) ∧
      b.run writes = { b with
        staged := (pairs.map fun pair => (pair.1, r.schema.canonical pair.1 pair.2)).foldl
          (fun m pair => m.insert pair.1 pair.2) b.staged } := by
  induction pairs generalizing b with
  | nil => exact ⟨[], rfl, by simp, rfl⟩
  | cons pair pairs ih =>
    obtain ⟨here, later⟩ := List.forall_mem_cons.mp within
    obtain ⟨w, isWrite, accepted⟩ := write_rewrite settled declared here
    have stillDeclared : (b.write w).builder.declared? = some r.schema := by
      rw [write_declared?]
      exact declared
    obtain ⟨writes, areWrites, silent, ends⟩ := ih later stillDeclared
    refine ⟨w :: writes, ?_, ?_, ?_⟩
    · simp [List.mapM_cons, isWrite, areWrites]
    · simpa [accepted] using silent
    · rw [run_cons, ends, accepted]
      rfl

end Builder

theorem FieldType.canonical_canonical (type : FieldType) (v : Value) :
    type.canonical (type.canonical v) = type.canonical v := by
  cases v with
  | long millis => by_cases isDateTime : type = .dateTime <;> simp [canonical, isDateTime]
  | _ => rfl

theorem FieldType.accepts_canonical {type : FieldType} {v : Value}
    (accepted : type.accepts v = true) : type.accepts (type.canonical v) = true := by
  cases v with
  | long millis =>
    by_cases isDateTime : type = .dateTime
    · simp [canonical, isDateTime, accepts]
    · simpa [canonical, isDateTime] using accepted
  | _ => exact accepted

theorem Schema.canonical_canonical (schema : Schema) (name : String) (v : Value) :
    schema.canonical name (schema.canonical name v) = schema.canonical name v := by
  unfold canonical
  cases schema.entry? name with
  | some entry => exact entry.type.canonical_canonical v
  | none => rfl

namespace Record

theorem canonical_value? (r : Record) (name : String) :
    r.canonical.value? name = (r.value? name).map (r.schema.canonical name) :=
  NameMap.find?_map_values r.schema.canonical r.values name

theorem canonical_canonical (r : Record) : r.canonical.canonical = r.canonical := by
  simp only [canonical, List.map_map, Function.comp_def, Schema.canonical_canonical]

theorem Settled.replaysTo {r : Record} (settled : r.Settled) {pairs : List (String × Value)}
    (perm : pairs.Perm r.values) : r.ReplaysTo pairs r.canonical := by
  obtain ⟨writes, areWrites, silent, ends⟩ := Builder.run_rewrites settled pairs
    (fun pair member => perm.mem_iff.mp member) (b := Builder.start (some r.schema) {}) rfl
  have staged : NameMap.ofList (pairs.map fun pair => (pair.1, r.schema.canonical pair.1 pair.2)) =
      r.canonical.values :=
    (settled.sorted.map_values r.schema.canonical).ofList_perm (perm.map _)
  refine ⟨writes, areWrites, silent, Builder.build_eq_ok_iff.mpr ?_⟩
  have last : (Builder.start (some r.schema) {}).run writes =
      { declared? := some r.schema, staged := r.canonical.values } := by
    rw [ends, ← staged]
    rfl
  rw [last]
  refine ⟨(Builder.missing_eq_nil_iff rfl).mpr fun entry member absent => ?_, rfl⟩
  have unset : r.canonical.value? entry.name = none := absent
  rw [canonical_value?, Option.map_eq_none_iff] at unset
  exact settled.complete entry member unset

theorem Settled.canonical {r : Record} (settled : r.Settled) : r.canonical.Settled := by
  refine ⟨settled.sorted.map_values _, settled.distinct, settled.described, ?_, ?_⟩
  · intro name v member
    obtain ⟨⟨key, held⟩, inRecord, same⟩ := List.mem_map.mp member
    obtain ⟨rfl, rfl⟩ := Prod.mk.inj same
    obtain ⟨entry, found, accepts⟩ := settled.typed key held inRecord
    refine ⟨entry, found, ?_⟩
    rw [Schema.canonical, found]
    exact FieldType.accepts_canonical accepts
  · intro entry member absent
    rw [canonical_value?, Option.map_eq_none_iff] at absent
    exact settled.complete entry member absent

/-- A record without longs that stand for instants is in canonical form. -/
theorem Settled.canonical_eq_self {r : Record} (settled : r.Settled)
    (plain : ∀ name millis entry, r.value? name = some (.long millis) →
      r.schema.entry? name = some entry → entry.type ≠ .dateTime) : r.canonical = r := by
  have unchanged : ∀ pair ∈ r.values, (pair.1, r.schema.canonical pair.1 pair.2) = pair := by
    intro ⟨name, v⟩ member
    obtain ⟨entry, found, -⟩ := settled.typed name v member
    rw [Schema.canonical, found]
    cases v with
    | long millis =>
      have other := plain name millis entry (settled.sorted.find?_of_mem member) found
      simp [FieldType.canonical, other]
    | _ => rfl
  have values : r.canonical.values = r.values :=
    (List.map_congr_left unchanged).trans (List.map_id' r.values)
  obtain ⟨schema, held⟩ := r
  exact congrArg (Record.mk schema) values

/-- A record that was finished over a frozen draft, or whose entries were collapsed, comes back when
its pairs are written again under its schema, in any order. Its canonical form has the same schema
and the same names, and differs from it in longs of type `DATETIME` only, which become instants; it
comes back as itself. -/
theorem replay_reproduces {declared? : Option Schema} {policy : Policy} {earlier : List Write}
    {r : Record}
    (origin : declared? = none ∧ policy.duplicateEntries = .lastWins ∨
      ∃ draft schema, SchemaDraft.freeze draft = .ok schema ∧ declared? = some schema)
    (built : ((Builder.start declared? policy).run earlier).build = .ok r) :
    (∀ pairs, pairs.Perm r.values → r.ReplaysTo pairs r.canonical) ∧
    r.canonical.schema = r.schema ∧
    NameMap.names r.canonical.values = NameMap.names r.values ∧
    (∀ name v, r.value? name = some v → ∃ entry, r.schema.entry? name = some entry ∧
      r.canonical.value? name = some (entry.type.canonical v)) ∧
    ((∀ name millis entry, r.value? name = some (.long millis) →
      r.schema.entry? name = some entry → entry.type ≠ .dateTime) → r.canonical = r) ∧
    ∀ pairs, pairs.Perm r.canonical.values → r.canonical.ReplaysTo pairs r.canonical := by
  have settled := Builder.build_settled origin built
  refine ⟨fun pairs perm => settled.replaysTo perm, rfl, ?_, ?_, settled.canonical_eq_self, ?_⟩
  · simp [NameMap.names, canonical]
  · intro name v stored
    obtain ⟨entry, found, -⟩ := settled.typed name v (NameMap.mem_of_find? stored)
    refine ⟨entry, found, ?_⟩
    rw [canonical_value?, stored, Option.map_some, Schema.canonical, found]
  · intro pairs perm
    have again := settled.canonical.replaysTo perm
    rwa [canonical_canonical] at again

def lateInstant : List Write :=
  [.named "at" (.long 5), .named "n" (.int 1), .namedNull "at" .dateTime]

theorem replay_reproduces_lateInstant :
    ∃ r, ((Builder.start none {}).run lateInstant).build = .ok r ∧
      r.values = [("at", .long 5), ("n", .int 1)] ∧
      r.ReplaysTo [("n", .int 1), ("at", .long 5)]
        ⟨r.schema, [("at", .dateTime 5), ("n", .int 1)]⟩ :=
  ⟨_, rfl, rfl, (@replay_reproduces none {} lateInstant _ (.inl ⟨rfl, rfl⟩) rfl).1 _
    (List.Perm.swap ..)⟩

end Record

end TypedRecords
