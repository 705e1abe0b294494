import TypedRecords.Proofs.Builder.Required
import TypedRecords.Proofs.Builder.Verdict

/-! How far the choice for nulls of type `DATETIME` reaches. The same writes are made twice, to
builders with different choices. The answers and the entries cannot tell the two runs apart, and
neither can the values of a name to which no such null was written. A declared entry that needs a
value takes no null, so that the runs are finished in the same way. -/
namespace TypedRecords

def Accepted.NullsInstant (a : Accepted) : Prop :=
  a.write.input.isNull = true ∧ a.entry.type = .dateTime

/-- No other write asks the policy what to store. -/
theorem Accepted.stored?_congr {a : Accepted} (other : ¬ a.NullsInstant)
    (policy policy' : Policy) : a.stored? policy = a.stored? policy' := by
  unfold Accepted.stored?
  cases isInput : a.write.input with
  | null =>
    have typed : a.entry.type ≠ .dateTime := fun isDateTime =>
      other ⟨by rw [isInput]; rfl, isDateTime⟩
    simp [typed]
  | temporal t => rfl
  | value v => cases v <;> rfl

theorem Accepted.settle_congr {a : Accepted} {name : String}
    (spared : a.write.name = name → ¬ a.NullsInstant) (declared? : Option Schema)
    (policy policy' : Policy) (held : Option Value) :
    Accepted.settle declared? policy name held a =
      Accepted.settle declared? policy' name held a := by
  unfold Accepted.settle
  by_cases here : a.write.name = name
  · rw [Accepted.stored?_congr (spared here) policy policy']
  · rw [if_neg here, if_neg here]

namespace Builder

section TwoRuns

variable {b c : Builder} (declared : b.declared? = c.declared?)

include declared

/-- A name to which no null of type `DATETIME` is written keeps the same value in both runs. -/
theorem run_value?_congr {writes : List Write} {name : String}
    (held : b.value? name = c.value? name)
    (spared : ∀ a ∈ b.history writes, a.write.name = name → ¬ a.NullsInstant) :
    (b.run writes).value? name = (c.run writes).value? name := by
  rw [run_value?, run_value?, ← history_congr declared, ← declared, held]
  exact List.foldl_ext _ _ _ fun held a member =>
    Accepted.settle_congr (spared a member) b.declared? b.policy c.policy held

/-- What is missing depends on the values of the entries that need one. -/
theorem missing_congr
    (agree : ∀ schema, b.declared? = some schema → ∀ entry ∈ schema.entries,
      entry.nullable = false → b.value? entry.name = c.value? entry.name) :
    b.missing = c.missing := by
  unfold missing
  rw [← declared]
  cases isDeclared : b.declared? with
  | none => rfl
  | some schema =>
    refine congrArg (List.map Entry.name) (List.filter_congr fun entry member => ?_)
    cases required : entry.nullable with
    | true => rfl
    | false =>
      have same : b.staged.find? entry.name = c.staged.find? entry.name :=
        agree schema isDeclared entry member required
      simp only [NameMap.contains, same]

/-- The choice for nulls has no part in the schema of the record. -/
theorem run_schema_congr (start : b.observed = c.observed)
    (duplicates : b.policy.duplicateEntries = c.policy.duplicateEntries) (writes : List Write) :
    (b.run writes).schema = (c.run writes).schema := by
  cases isDeclared : b.declared? with
  | some schema =>
    rw [schema_of_declared ((run_declared? b writes).trans isDeclared),
      schema_of_declared ((run_declared? c writes).trans (declared.symm.trans isDeclared))]
  | none =>
    have observed : (b.run writes).observed = (c.run writes).observed := by
      rw [run_observed isDeclared, run_observed (declared.symm.trans isDeclared), start,
        history_congr declared]
    rw [Builder.schema, Builder.schema, run_declared?, run_declared?, run_policy, run_policy,
      declared, duplicates, observed]

end TwoRuns

/-- An entry that needs a value takes no null of any type. -/
theorem spared_of_required {b : Builder} {schema : Schema} (declared : b.declared? = some schema)
    (distinct : schema.names.Nodup) {entry : Entry} (member : entry ∈ schema.entries)
    (required : entry.nullable = false) {writes : List Write} {a : Accepted}
    (accepted : a ∈ b.history writes) (named : a.write.name = entry.name) : ¬ a.NullsInstant := by
  rintro ⟨isNull, -⟩
  rw [not_null_of_required declared distinct member required accepted named] at isNull
  cases isNull

/-- Without a declared schema, or over a frozen draft, two runs of the same writes under policies
that differ in nulls of type `DATETIME` give the same answers and are finished in the same way, with
the same schema. They agree on the value of every name to which no such null was written. -/
theorem nulls_confined {declared? : Option Schema}
    (origin : declared? = none ∨
      ∃ draft schema, SchemaDraft.freeze draft = .ok schema ∧ declared? = some schema)
    (duplicates : DuplicateEntries) (writes : List Write) :
    let absent := start declared? ⟨duplicates, .absent⟩
    let sentinel := start declared? ⟨duplicates, .sentinel⟩
    let b := absent.run writes
    let c := sentinel.run writes
    absent.answers writes = sentinel.answers writes ∧
    b.checkRequired = c.checkRequired ∧
    b.build.map Record.schema = c.build.map Record.schema ∧
    b.schema = c.schema ∧
    ∀ name, (∀ a ∈ absent.history writes, a.write.name = name → ¬ a.NullsInstant) →
      b.value? name = c.value? name ∧
        ∀ r s, b.build = .ok r → c.build = .ok s → r.value? name = s.value? name := by
  intro absent sentinel b c
  have same : absent.declared? = sentinel.declared? := rfl
  have still : b.declared? = c.declared? := by rw [run_declared?, run_declared?, same]
  have agree : ∀ name, (∀ a ∈ absent.history writes, a.write.name = name → ¬ a.NullsInstant) →
      b.value? name = c.value? name := fun name spared => run_value?_congr same rfl spared
  have missing : b.missing = c.missing := by
    refine missing_congr still fun schema isDeclared entry member required => ?_
    have declared : absent.declared? = some schema := by rwa [run_declared?] at isDeclared
    rcases origin with rfl | ⟨draft, frozenSchema, frozen, rfl⟩
    · cases declared
    · obtain rfl := Option.some.inj declared
      have distinct := (SchemaDraft.freeze_eq_ok_iff.mp frozen).2.1
      exact agree _ fun a accepted named =>
        spared_of_required declared distinct member required accepted named
  have required : b.checkRequired = c.checkRequired := by
    rw [checkRequired, checkRequired, missing]
  have schemas : b.schema = c.schema := run_schema_congr same rfl rfl writes
  refine ⟨?_, required, ?_, schemas, fun name spared => ⟨agree name spared, ?_⟩⟩
  · rw [answers_eq_map (c := sentinel) same, answers_eq_map (c := sentinel) rfl]
  · rw [build, build, required, schemas]
    cases c.checkRequired <;> rfl
  · intro r s built built'
    obtain ⟨-, rfl⟩ := build_eq_ok_iff.mp built
    obtain ⟨-, rfl⟩ := build_eq_ok_iff.mp built'
    exact agree name spared

def nulledInstant : List Write :=
  [.named "n" (.int 1), .named "at" (.timestamp 5), .namedNull "n" .int, .namedNull "at" .dateTime]

theorem nulls_confined_nulledInstant :
    let draft : SchemaDraft :=
      { entries :=
          [{ name := "n", type := .int }, { name := "at", type := .dateTime, nullable := true }] }
    ∃ schema, draft.freeze = .ok schema ∧
      let absent := start (some schema) ⟨.lastWins, .absent⟩
      let sentinel := start (some schema) ⟨.lastWins, .sentinel⟩
      absent.answers nulledInstant = [none, none, some (.notNullable "n"), none] ∧
      sentinel.answers nulledInstant = absent.answers nulledInstant ∧
      (sentinel.run nulledInstant).checkRequired = .ok () ∧
      (absent.run nulledInstant).value? "n" = (sentinel.run nulledInstant).value? "n" ∧
      (absent.run nulledInstant).value? "at" = some (.dateTime 5) ∧
      (sentinel.run nulledInstant).value? "at" = some (.dateTime (-1)) := by
  intro draft
  have frozen : draft.freeze = .ok ⟨.record, draft.entries, .empty⟩ := rfl
  obtain ⟨answers, required, -, -, agree⟩ :=
    nulls_confined (.inr ⟨draft, _, frozen, rfl⟩) .lastWins nulledInstant
  refine ⟨_, frozen, by decide +kernel, answers.symm, required.symm.trans (by decide +kernel),
    (agree "n" fun a member named => ?_).1, rfl, rfl⟩
  exact spared_of_required rfl (by decide) List.mem_cons_self rfl member named

end Builder

end TypedRecords
