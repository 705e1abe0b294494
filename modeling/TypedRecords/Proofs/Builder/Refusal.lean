import TypedRecords.Proofs.Builder.Step

/-! Refused writes leave no trace. Each of them ends in the builder it was given, so that a run is
the run of its accepted writes alone, and what comes later answers the same. -/
namespace TypedRecords.Builder

def answers (b : Builder) : List Write → List (Option RecordError)
  | [] => []
  | w :: writes => (b.write w).error? :: (b.write w).builder.answers writes

def accepted (b : Builder) : List Write → List Write
  | [] => []
  | w :: writes =>
    match b.write w with
    | ⟨none, next⟩ => w :: next.accepted writes
    | ⟨some _, next⟩ => next.accepted writes

@[simp] theorem answers_nil (b : Builder) : b.answers [] = [] := rfl

@[simp] theorem answers_cons (b : Builder) (w : Write) (writes : List Write) :
    b.answers (w :: writes) = (b.write w).error? :: (b.write w).builder.answers writes := rfl

@[simp] theorem accepted_nil (b : Builder) : b.accepted [] = [] := rfl

theorem accepted_cons_refused {b next : Builder} {w : Write} {error : RecordError}
    (refused : b.write w = ⟨some error, next⟩) (writes : List Write) :
    b.accepted (w :: writes) = next.accepted writes := by
  simp only [accepted, refused]

theorem accepted_cons_accepted {b next : Builder} {w : Write}
    (accepts : b.write w = ⟨none, next⟩) (writes : List Write) :
    b.accepted (w :: writes) = w :: next.accepted writes := by
  simp only [accepted, accepts]

/-- No check comes after the first change. -/
theorem write_refused {b : Builder} {w : Write} {error : RecordError}
    (failed : (b.write w).error? = some error) : (b.write w).builder = b := by
  rcases b.write_cases w with ⟨other, refused⟩ | ⟨entry, -, -, accepts⟩
  · rw [refused]
  · simp [accepts] at failed

theorem run_accepted (b : Builder) (writes : List Write) :
    b.run (b.accepted writes) = b.run writes := by
  induction writes generalizing b with
  | nil => rfl
  | cons w writes ih =>
    rcases b.write_cases w with ⟨error, refused⟩ | ⟨entry, -, -, accepts⟩
    · rw [accepted_cons_refused refused, run_cons, refused]
      exact ih b
    · rw [accepted_cons_accepted accepts, run_cons, run_cons, accepts]
      exact ih _

/-- A write that stays answers what it answered among the others. -/
theorem answers_accepted (b : Builder) (writes : List Write) :
    b.answers (b.accepted writes) = (b.answers writes).filter Option.isNone := by
  induction writes generalizing b with
  | nil => rfl
  | cons w writes ih =>
    rcases b.write_cases w with ⟨error, refused⟩ | ⟨entry, -, -, accepts⟩
    · rw [accepted_cons_refused refused, answers_cons, refused]
      simpa using ih b
    · rw [accepted_cons_accepted accepts, answers_cons, answers_cons, accepts]
      simpa using ih _

/-- A write that fails changes nothing. A run without its failed writes has the same answers from
the others, before and after its end, the same staged values, and is finished in the same way. -/
theorem refused_leave_no_trace (declared? : Option Schema) (policy : Policy)
    (writes : List Write) :
    let first := start declared? policy
    let b := first.run writes
    let cleaned := first.run (first.accepted writes)
    (∀ w error, (b.write w).error? = some error →
      (b.write w).builder.staged = b.staged ∧ (b.write w).builder.observed = b.observed ∧
      (b.write w).builder.declared? = b.declared? ∧ (b.write w).builder.policy = b.policy) ∧
    first.answers (first.accepted writes) = (first.answers writes).filter Option.isNone ∧
    (∀ later, cleaned.answers later = b.answers later) ∧
    (∀ name, cleaned.value? name = b.value? name) ∧
    cleaned.build = b.build := by
  intro first b cleaned
  have same : cleaned = b := run_accepted first writes
  refine ⟨fun w error failed => ?_, answers_accepted first writes, ?_, ?_, ?_⟩
  · rw [write_refused failed]
    exact ⟨rfl, rfl, rfl, rfl⟩
  · intro later
    rw [same]
  · intro name
    rw [same]
  · rw [same]

end TypedRecords.Builder
