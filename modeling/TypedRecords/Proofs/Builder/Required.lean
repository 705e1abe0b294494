import TypedRecords.Proofs.Builder.History
import TypedRecords.Proofs.Schema.Distinct

/-! Entries that need a value, over a whole run. Where a schema is declared no write takes a value
away, and an entry that may not be null accepts only what it stores. So what is missing in the end
can be told from the accepted writes: it is what none of them went to. -/
namespace TypedRecords

/-- Nothing is stored only for a null. -/
theorem Accepted.isNull_of_stored?_eq_none {a : Accepted} {policy : Policy}
    (nothing : a.stored? policy = none) : a.write.input.isNull = true := by
  unfold Accepted.stored? at nothing
  cases isInput : a.write.input with
  | null => rfl
  | temporal t => simp [isInput] at nothing
  | value v => cases v <;> simp [isInput] at nothing

namespace Builder

section Settle

variable {schema : Schema} {policy : Policy} {name : String} {held : Option Value}

/-- Where a schema is declared a write settles on a value of its own or on the one that is held. -/
theorem settle_isSome (staged : held.isSome = true) (a : Accepted) :
    (Accepted.settle (some schema) policy name held a).isSome = true := by
  unfold Accepted.settle
  split
  · cases a.stored? policy with
    | some v => rfl
    | none => simpa using staged
  · exact staged

theorem foldl_settle_isSome (staged : held.isSome = true) (writes : List Accepted) :
    (writes.foldl (Accepted.settle (some schema) policy name) held).isSome = true := by
  induction writes generalizing held with
  | nil => exact staged
  | cons a writes ih => exact ih (settle_isSome staged a)

end Settle

section Declared

variable {b : Builder} {schema : Schema} (declared : b.declared? = some schema)

include declared

theorem run_value?_isSome {name : String} (staged : (b.value? name).isSome = true)
    (writes : List Write) : ((b.run writes).value? name).isSome = true := by
  rw [run_value?, declared]
  exact foldl_settle_isSome staged _

section Required

variable (distinct : schema.names.Nodup) {entry : Entry} (member : entry ∈ schema.entries)
  (required : entry.nullable = false)

include distinct member required

/-- A null is accepted only where the last entry of its name is nullable, which where names are
distinct is the only one. -/
theorem not_null_of_required {writes : List Write} {a : Accepted}
    (accepted : a ∈ b.history writes) (named : a.write.name = entry.name) :
    a.write.input.isNull = false := by
  by_contra isNull
  obtain ⟨known, found, -, nullable⟩ := (history_admits accepted).declared schema declared
  rw [history_entry_name accepted, named, Schema.lastEntry?_eq_entry? distinct,
    Schema.entry?_of_mem distinct member] at found
  obtain rfl := Option.some.inj found
  simp [nullable (by simpa using isNull)] at required

/-- An entry that needs a value has one from its first accepted write on. -/
theorem run_value?_of_required (unset : b.value? entry.name = none) (writes : List Write) :
    (b.run writes).value? entry.name = none ↔
      ∀ a ∈ b.history writes, a.write.name ≠ entry.name := by
  constructor
  · intro absent a accepted named
    obtain ⟨earlier, later, split⟩ := List.append_of_mem accepted
    have stores : (a.stored? b.policy).isSome = true := by
      rw [Option.isSome_iff_ne_none]
      intro nothing
      have isNull := Accepted.isNull_of_stored?_eq_none nothing
      rw [not_null_of_required declared distinct member required accepted named] at isNull
      cases isNull
    have settled (held : Option Value) :
        (Accepted.settle (some schema) b.policy entry.name held a).isSome = true := by
      obtain ⟨v, stored⟩ := Option.isSome_iff_exists.mp stores
      simp [Accepted.settle, named, stored]
    have staged : ((b.run writes).value? entry.name).isSome = true := by
      rw [run_value?, declared, split, List.foldl_append, List.foldl_cons]
      exact foldl_settle_isSome (settled _) later
    simp [absent] at staged
  · intro others
    rw [run_value?, foldl_settle_other others, unset]

end Required

/-- What is missing at the end of a run are the entries that need a value and have had no accepted
write, in the order of declaration. -/
theorem run_missing (distinct : schema.names.Nodup) (unset : b.staged = []) (writes : List Write) :
    (b.run writes).missing = (schema.entries.filter fun entry =>
      entry.nullable = false ∧ ∀ a ∈ b.history writes, a.write.name ≠ entry.name).map
        Entry.name := by
  unfold missing
  rw [run_declared?, declared]
  refine congrArg (List.map Entry.name) (List.filter_congr fun entry member => ?_)
  cases required : entry.nullable with
  | true => simp
  | false =>
    have absent := run_value?_of_required declared distinct member required
      (by simp [value?, unset, NameMap.find?]) writes
    simp only [Bool.not_false, Bool.true_and, true_and, ← absent, value?, NameMap.contains]
    cases NameMap.find? entry.name (b.run writes).staged <;> rfl

end Declared

theorem checkRequired_eq_error_iff {b : Builder} {error : RecordError} :
    b.checkRequired = .error error ↔
      b.missing ≠ [] ∧ error = .missingRequiredEntries b.missing := by
  unfold checkRequired
  cases b.missing with
  | nil => simp
  | cons name names => simp [eq_comm]

theorem build_eq_error_iff {b : Builder} {error : RecordError} :
    b.build = .error error ↔ b.checkRequired = .error error := by
  unfold build
  cases b.checkRequired <;> simp [Except.map]

/-- Over a frozen draft, a name that is staged stays staged to the end of the run. The check of what
is required fails exactly if an entry that needs a value has had no accepted write, and then names
all such entries in the order of declaration. The builder is finished exactly if the check passes,
and then the record has the declared schema and the staged values; otherwise it fails alike. Without
a declared schema nothing is required. -/
theorem required_accounted {draft : SchemaDraft} {schema : Schema}
    (frozen : draft.freeze = .ok schema) (policy : Policy) (writes : List Write) :
    let first := start (some schema) policy
    let b := first.run writes
    let unwritten := schema.entries.filter fun entry =>
      entry.nullable = false ∧ ∀ a ∈ first.history writes, a.write.name ≠ entry.name
    let free := (start none policy).run writes
    (∀ earlier later, writes = earlier ++ later → ∀ name,
      ((first.run earlier).value? name).isSome = true → (b.value? name).isSome = true) ∧
    ((∃ error, b.checkRequired = .error error) ↔ ∃ entry ∈ schema.entries,
      entry.nullable = false ∧ ∀ a ∈ first.history writes, a.write.name ≠ entry.name) ∧
    (∀ error, b.checkRequired = .error error →
      error = .missingRequiredEntries (unwritten.map Entry.name)) ∧
    (∀ error, b.build = .error error ↔ b.checkRequired = .error error) ∧
    (b.checkRequired = .ok () → b.build = .ok ⟨schema, b.staged⟩) ∧
    free.checkRequired = .ok () ∧ ∃ r, free.build = .ok r := by
  intro first b unwritten free
  have missing : b.missing = unwritten.map Entry.name :=
    run_missing rfl (SchemaDraft.freeze_eq_ok_iff.mp frozen).2.1 rfl writes
  have nothing : free.missing = [] := by
    rw [Builder.missing, run_declared?]
    rfl
  refine ⟨fun earlier later split name staged => ?_, ?_, fun error failed => ?_,
    fun _ => build_eq_error_iff, fun passed => ?_, ?_, _, build_eq_ok_iff.mpr ⟨nothing, rfl⟩⟩
  · have last : b = (first.run earlier).run later := by
      simp only [b, split, run, List.foldl_append]
    rw [last]
    exact run_value?_isSome (run_declared? first earlier) staged later
  · simp [checkRequired_eq_error_iff, missing, unwritten]
  · rw [(checkRequired_eq_error_iff.mp failed).2, missing]
  · have complete : b.missing = [] := by
      by_contra incomplete
      have failed := checkRequired_eq_error_iff.mpr ⟨incomplete, rfl⟩
      rw [passed] at failed
      cases failed
    refine build_eq_ok_iff.mpr ⟨complete, ?_⟩
    rw [schema_of_declared (run_declared? first writes)]
  · simp [checkRequired, nothing]

def halfWritten : List Write :=
  [.named "note" (.string "x"), .namedNull "note" .string, .namedNull "n" .int,
    .named "at" (.int 1), .named "n" (.int 2)]

theorem required_accounted_halfWritten :
    let draft : SchemaDraft :=
      { entries := [{ name := "id", type := .long }, { name := "n", type := .int },
          { name := "note", type := .string, nullable := true },
          { name := "at", type := .dateTime }] }
    ∃ schema, draft.freeze = .ok schema ∧
      let first := start (some schema) .legacy
      let b := first.run halfWritten
      (first.history halfWritten).map (fun a => a.write.name) = ["note", "note", "n"] ∧
      (b.value? "note").isSome = true ∧
      b.checkRequired = .error (.missingRequiredEntries ["id", "at"]) ∧
      b.build = .error (.missingRequiredEntries ["id", "at"]) := by
  intro draft
  have frozen : draft.freeze = .ok ⟨.record, draft.entries, .empty⟩ := rfl
  obtain ⟨keeps, fails_iff, names, build_iff, -⟩ := required_accounted frozen .legacy halfWritten
  have staged := keeps [.named "note" (.string "x")] _ rfl "note" (by decide)
  obtain ⟨error, failed⟩ :=
    fails_iff.mpr ⟨{ name := "id", type := .long }, List.mem_cons_self, rfl, by decide⟩
  obtain rfl : error = .missingRequiredEntries ["id", "at"] :=
    (names error failed).trans (congrArg RecordError.missingRequiredEntries (by decide +kernel))
  exact ⟨_, frozen, rfl, staged, failed, (build_iff _).mpr failed⟩

end Builder

end TypedRecords
