import TypedRecords.Proofs.Builder.Naming
import TypedRecords.Proofs.Builder.Verdict

/-! The answers to writes by name. A setter brings values of its own type, and the entries of a
schema that can be had say what their arrays and records hold. So over a declared schema three
errors are left, and they are checked in one order; without one the entry that is made up for the
name can only lack its element schema. -/
namespace TypedRecords

theorem Write.isCompatible_of_isNamed {w : Write} (named : w.isNamed = true) :
    w.setter.isCompatible w.input = true := by
  cases w with
  | named name payload => exact payload.isCompatible_input
  | namedNull name type => rfl
  | _ => cases named

namespace Builder

section Answer

variable {b : Builder} {entry : Entry} {setter : FieldType} {input : FieldInput}
  (compatible : setter.isCompatible input = true)

include compatible

/-- The answer to a write through the entry that is declared for its name. -/
theorem set_error?_of_found {schema : Schema} (declared : b.declared? = some schema)
    (found : schema.lastEntry? entry.name = some entry) (described : entry.lacksElement = false) :
    (b.set entry setter input).error? =
      if entry.type ≠ setter then some (.typeMismatch entry.name entry.type setter)
      else if input.isNull = true ∧ entry.nullable = false then some (.notNullable entry.name)
      else none := by
  rw [set_error?, objection?, declaredObjection?, declared]
  simp only [schema.indexed?_eq_lastEntry?, found, described, compatible]
  by_cases typed : entry.type = setter
  · by_cases refused : input.isNull = true ∧ entry.nullable = false <;> simp_all
  · simp [typed]

/-- The answer to a write through an entry that is made up for it. -/
theorem set_error?_of_free (free : b.declared? = none) (typed : entry.type = setter)
    (nullable : entry.nullable = true) : (b.set entry setter input).error? =
      if entry.lacksElement then some (.missingElementSchema entry.name setter) else none := by
  rw [set_error?, objection?, declaredObjection?, free]
  cases entry.lacksElement <;> simp [typed, compatible, nullable]

end Answer

section Named

variable {b : Builder} {w : Write} (named : w.isNamed = true)

include named

/-- Where every entry says what it holds, a write by name answers with the first of three errors. -/
theorem declared_named_error? {schema : Schema} (declared : b.declared? = some schema)
    (described : ∀ entry ∈ schema.entries, entry.lacksElement = false) :
    (b.write w).error? = match schema.lastEntry? w.name with
      | none => some (.unknownEntry w.name schema.names)
      | some entry =>
        if entry.type ≠ w.setter then some (.typeMismatch w.name entry.type w.setter)
        else if w.input.isNull = true ∧ entry.nullable = false then some (.notNullable w.name)
        else none := by
  rw [write_eq, entryOf_named declared named]
  cases found : schema.lastEntry? w.name with
  | none => rfl
  | some entry =>
    obtain ⟨member, name⟩ := Schema.lastEntry?_some found
    rw [← name] at found ⊢
    exact set_error?_of_found (w.isCompatible_of_isNamed named) declared found
      (described entry member)

/-- Where entries are made up, only a record brings an element schema. -/
theorem free_named_error? (free : b.declared? = none) : (b.write w).error? =
      if w.setter = .array ∨ w.setter = .record ∧ w.input.isNull = true then
        some (.missingElementSchema w.name w.setter)
      else none := by
  have compatible := w.isCompatible_of_isNamed named
  cases w with
  | named name payload =>
    have through : b.entryOf (.named name payload) = .ok (payload.observedEntry name) := by
      simp [entryOf, resolve, free]
    have typed : (payload.observedEntry name).type = payload.type := by cases payload <;> rfl
    have nullable : (payload.observedEntry name).nullable = true := by cases payload <;> rfl
    rw [write_eq, through]
    refine (set_error?_of_free compatible free typed nullable).trans ?_
    cases payload <;> rfl
  | namedNull name type =>
    have through : b.entryOf (.namedNull name type) = .ok (.observed name type) := by
      simp [entryOf, resolve, free]
    rw [write_eq, through]
    refine (set_error?_of_free compatible free rfl rfl).trans ?_
    cases type <;> rfl
  | _ => cases named

end Named

/-- Over a schema that can be had, in any state of the builder, a write by name is refused for a
name that is not declared, or else for a setter of another type than the entry that the name leads
to, or else for a null where this entry is not nullable; otherwise it is accepted. Without a
declared schema it is refused for an array and for the null of an array or a record, always for the
element schema, and otherwise accepted. -/
theorem named_write_answers {b : Builder} (reachable : b.Reachable fun _ => True) {w : Write}
    (named : w.isNamed = true) :
    (∀ schema, b.declared? = some schema →
      (w.name ∉ schema.names → (b.write w).error? = some (.unknownEntry w.name schema.names)) ∧
      (w.name ∈ schema.names → ∃ entry ∈ schema.entries, entry.name = w.name ∧
        b.entryOf w = .ok entry ∧ (b.write w).error? =
          if entry.type ≠ w.setter then some (.typeMismatch w.name entry.type w.setter)
          else if w.input.isNull = true ∧ entry.nullable = false then some (.notNullable w.name)
          else none) ∧
      (∀ name type, (b.write w).error? ≠ some (.missingElementSchema name type)) ∧
      ∀ name type variant, (b.write w).error? ≠ some (.incompatibleValue name type variant)) ∧
    (b.declared? = none → (b.write w).error? =
      if w.setter = .array ∨ w.setter = .record ∧ w.input.isNull = true then
        some (.missingElementSchema w.name w.setter)
      else none) := by
  refine ⟨fun schema declared => ?_, free_named_error? named⟩
  have proper := reachable.proper fun _ _ => trivial
  have described : ∀ entry ∈ schema.entries, entry.lacksElement = false := fun entry member =>
    (proper.declared schema declared entry (.listed member)).described
  have answer := declared_named_error? named declared described
  cases found : schema.lastEntry? w.name with
  | none =>
    have undeclared := Schema.lastEntry?_eq_none_iff.mp found
    rw [found] at answer
    simp [answer, undeclared]
  | some entry =>
    obtain ⟨member, name⟩ := Schema.lastEntry?_some found
    have through : b.entryOf w = .ok entry := by rw [entryOf_named declared named, found]
    rw [found] at answer
    have others : ∀ error, (b.write w).error? = some error →
        error = .typeMismatch w.name entry.type w.setter ∨ error = .notNullable w.name := by
      intro error failed
      rw [answer] at failed
      dsimp only at failed
      split at failed
      · exact .inl (Option.some.inj failed).symm
      · split at failed
        · exact .inr (Option.some.inj failed).symm
        · cases failed
    refine ⟨fun undeclared => absurd (name ▸ List.mem_map_of_mem member) undeclared,
      fun _ => ⟨entry, member, name, through, answer⟩, fun name type failed => ?_,
      fun name type variant failed => ?_⟩
    · simpa using others _ failed
    · simpa using others _ failed

def keptRequired : List Write :=
  [.named "n" (.string "x"), .through { name := "n", type := .int } (.int 1)]

theorem named_write_answers_required :
    let schema := ((start none ⟨.keepAll, .absent⟩).run keptRequired).schema
    let b := (start (some schema) {}).run [.named "n" (.int 2)]
    b.Reachable (fun _ => True) ∧
      (b.write (.named "m" (.array []))).error? = some (.unknownEntry "m" ["n", "n"]) ∧
      (b.write (.named "n" (.string "y"))).error? = some (.typeMismatch "n" .int .string) ∧
      (b.write (.namedNull "n" .int)).error? = some (.notNullable "n") ∧
      (b.write (.named "n" (.int 3))).error? = none ∧
      ((start none {}).write (.namedNull "n" .record)).error? =
        some (.missingElementSchema "n" .record) := by
  intro schema b
  have start : (start none ⟨.keepAll, .absent⟩).Reachable fun _ => True := .start (by simp)
  have entry : Entry.Reachable (fun _ => True) { name := "n", type := .int } :=
    Entry.reachable_of_named (by decide) (by simp)
  have kept : ((Builder.start none ⟨.keepAll, .absent⟩).run keptRequired).Reachable fun _ => True :=
    start.run (by simpa [keptRequired, Write.brought?] using entry) (by simp [keptRequired])
      (by simp)
  have had : schema.Reachable fun _ => True := .finished (.built kept rfl)
  have reachable : b.Reachable fun _ => True :=
    (Builder.Reachable.start (by simpa using had)).run (by simp [Write.brought?]) (by simp)
      (by simp)
  have declared (w : Write) (named : w.isNamed = true) (isN : w.name = "n") :
      (b.write w).error? = if .int ≠ w.setter then some (.typeMismatch "n" .int w.setter)
        else if w.input.isNull = true ∧ false = false then some (.notNullable "n") else none := by
    obtain ⟨known, -, -, through, answer⟩ :=
      ((named_write_answers reachable named).1 schema rfl).2.1 (by rw [isN]; decide)
    have last : b.entryOf w = .ok { name := "n", type := .int } := by
      rw [entryOf_named rfl named, isN]
      rfl
    cases last.symm.trans through
    rw [isN] at answer
    exact answer
  refine ⟨reachable, ?_, declared (.named "n" (.string "y")) rfl rfl,
    declared (.namedNull "n" .int) rfl rfl, declared (.named "n" (.int 3)) rfl rfl, ?_⟩
  · exact ((named_write_answers reachable (w := .named "m" (.array [])) rfl).1 schema rfl).1
      (by decide)
  · have free : (Builder.start none {}).Reachable fun _ => True := .start (by simp)
    exact (named_write_answers free (w := .namedNull "n" .record) rfl).2 rfl

end Builder

end TypedRecords
