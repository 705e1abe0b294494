import TypedRecords.Proofs.Builder.Reachable

/-! Entries without a name. No draft of one is frozen, but where no schema is declared a write by
name makes up its entry from any name, the empty one included. -/
namespace TypedRecords

theorem Write.isNamed_of_brought? {w : Write}
    (brought : ∀ entry, w.brought? = some entry → entry.name ≠ w.name) : w.isNamed = true := by
  cases w with
  | named | namedNull => rfl
  | through entry | nullThrough entry | generic entry => exact absurd rfl (brought entry rfl)

/-- An entry that is made up has no element schema. -/
theorem Entry.observed_described (name : String) (type : FieldType) :
    (Entry.observed name type).lacksElement = false ↔ type.isPrimitive = true := by
  simp [lacksElement, observed, FieldType.needsElement]

/-- Only a record brings one. -/
theorem Payload.observedEntry_described (name : String) (payload : Payload) :
    (payload.observedEntry name).lacksElement = false ↔
      payload.type.isPrimitive = true ∨ ∃ r, payload = .record r := by
  cases payload with
  | record r => simp [observedEntry, Entry.lacksElement]
  | _ => simp [observedEntry, Entry.observed_described]

theorem Payload.isCompatible_input (payload : Payload) :
    payload.type.isCompatible payload.input = true := by
  cases payload <;> rfl

theorem Admits.free_iff {entry : Entry} {setter : FieldType} {input : FieldInput}
    (typed : entry.type = setter) (compatible : setter.isCompatible input = true)
    (nullable : entry.nullable = true) :
    Admits none entry setter input ↔ entry.lacksElement = false := by
  refine ⟨Admits.element, fun described => ?_⟩
  exact ⟨typed, described, by simp, compatible, fun _ => nullable⟩

namespace Builder

/-- Where no schema is declared, a write by name is refused only if its field would lack its element
schema: for an array, and for a null of type `RECORD`. Nothing is asked of the name. -/
theorem free_named_accepted_iff {b : Builder} (free : b.declared? = none) {w : Write}
    (named : w.isNamed = true) :
    (b.write w).error? = none ↔
      w.setter.isPrimitive = true ∨ ∃ r, w = .named w.name (.record r) := by
  rw [write_accepted_iff, free]
  cases w with
  | named name payload =>
    have through : b.entryOf (.named name payload) = .ok (payload.observedEntry name) := by
      simp [entryOf, resolve, free]
    have admits : Admits none (payload.observedEntry name) payload.type payload.input ↔ _ :=
      Admits.free_iff (by cases payload <;> rfl) payload.isCompatible_input
        (by cases payload <;> rfl)
    simp only [through, Except.ok.injEq, exists_eq_left', Write.setter, Write.input, admits,
      payload.observedEntry_described, Write.name, Write.named.injEq, true_and]
  | namedNull name type =>
    have through : b.entryOf (.namedNull name type) = .ok (.observed name type) := by
      simp [entryOf, resolve, free]
    have admits : Admits none (.observed name type) type .null ↔ _ := Admits.free_iff rfl rfl rfl
    simp only [through, Except.ok.injEq, exists_eq_left', Write.setter, Write.input, admits,
      Entry.observed_described, reduceCtorEq, exists_false, or_false]
  | _ => cases named

/-- A declared schema in which all entries have names has none for the empty one. -/
theorem Proper.unnamed_accepted_iff {b : Builder} (proper : b.Proper (· ≠ "")) {w : Write}
    (named : w.isNamed = true) (unnamed : w.name = "") :
    (b.write w).error? = none ↔ b.declared? = none ∧
      (w.setter.isPrimitive = true ∨ ∃ r, w = .named "" (.record r)) := by
  cases declared : b.declared? with
  | none => simp [free_named_accepted_iff declared named, unnamed]
  | some schema =>
    simp only [reduceCtorEq, false_and, iff_false]
    intro accepted
    obtain ⟨entry, through, -⟩ := write_accepted_iff.mp accepted
    rw [entryOf_named declared named] at through
    split at through
    · next known found =>
      obtain ⟨member, name⟩ := Schema.lastEntry?_some found
      have inSchema := proper.declared schema declared known (.listed member)
      exact inSchema.named (name.trans unnamed)
    · cases through

/-- As long as no write by name makes up an entry for the empty name, no entry is without a name,
at any depth, and nothing is staged without one. Such a write is accepted wherever no schema is
declared, and nothing else is accepted for the empty name. -/
theorem names_nonempty {schema : Schema} {b : Builder} (had : schema.Reachable (· ≠ ""))
    (reachable : b.Reachable (· ≠ "")) :
    (∀ entry, schema.Contains entry → entry.name ≠ "") ∧
      b.value? "" = none ∧ (∀ entry ∈ b.observed, entry.name ≠ "") ∧
      ∀ w : Write, w.name = "" → (∀ entry, w.brought? = some entry → entry.Reachable (· ≠ "")) →
        ((b.write w).error? = none ↔ w.isNamed = true ∧ b.declared? = none ∧
          (w.setter.isPrimitive = true ∨ ∃ r, w = .named "" (.record r))) := by
  have own : ∀ name : String, name ≠ "" → name ≠ "" := fun _ => id
  have proper := reachable.proper own
  refine ⟨fun entry contained => (had.proper own entry contained).named, ?_,
    fun entry member => (proper.observed entry member).1.named, fun w unnamed brought => ?_⟩
  · rw [Option.eq_none_iff_forall_ne_some]
    exact fun v held => proper.staged "" v held rfl
  · have named : w.isNamed = true := by
      refine Write.isNamed_of_brought? fun entry isBrought => ?_
      rw [unnamed]
      exact ((brought entry isBrought).usable own).named
    simp only [proper.unnamed_accepted_iff named unnamed, named, true_and]

/-- A write for the empty name that is refused, and one for another name. -/
theorem names_nonempty_refused :
    let b := (start none {}).run [.named "" (.array []), .named "a" (.int 1)]
    (∀ entry, b.schema.Contains entry → entry.name ≠ "") ∧ b.value? "" = none ∧
      (b.write (.namedNull "" .record)).error? ≠ none := by
  intro b
  have reachable : b.Reachable (· ≠ "") := by
    have start : Builder.Reachable (· ≠ "") (start none {}) := .start (by simp)
    have refused := Builder.Reachable.write (w := .named "" (.array [])) start
      (by simp [Write.brought?]) (by simp) fun accepted => by cases accepted
    exact .write (w := .named "a" (.int 1)) refused (by simp [Write.brought?]) (by simp) (by decide)
  have finished : b.schema.Reachable (· ≠ "") := .finished (.built reachable rfl)
  obtain ⟨named, unstaged, -, accepted_iff⟩ := names_nonempty finished reachable
  refine ⟨named, unstaged, fun accepted => ?_⟩
  have others := (accepted_iff (.namedNull "" .record) rfl (by simp [Write.brought?])).mp accepted
  simp [Write.setter, FieldType.isPrimitive] at others

/-- A write by name that makes up an entry without a name, of which no draft is frozen. -/
theorem unnamed_entry_accepted :
    ∃ r, ((start none {}).write (.named "" (.int 1))).error? = none ∧
      ((start none {}).run [.named "" (.int 1)]).build = .ok r ∧
      r.schema.entries.map Entry.name = [""] ∧ r.value? "" = some (.int 1) ∧
      { name? := some "", type? := some .int : EntryDraft }.freeze = .error .emptyEntryName :=
  ⟨_, rfl, rfl, rfl, rfl, rfl⟩

end Builder

end TypedRecords
