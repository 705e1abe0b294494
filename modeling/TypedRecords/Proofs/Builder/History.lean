import TypedRecords.Proofs.Builder.Soundness

/-! The result of a run as a summary of its accepted writes. The value of a name is that of the
last write which stores one, unless a later null of another type drops it; the entries of a record
without a declared schema are those of the writes. -/
namespace TypedRecords

structure Accepted where
  write : Write
  entry : Entry

/-- What the write stores. A null stores a value only in place of a `DATETIME`, and only where the
policy asks for it. -/
def Accepted.stored? (policy : Policy) (a : Accepted) : Option Value :=
  match a.write.input with
  | .null =>
    if a.entry.type = .dateTime ∧ a.entry.nullable ∧ policy.nullDateTime = .sentinel then
      some (.dateTime (-1))
    else none
  | .temporal t => some (.dateTime t.toMillis)
  | .value (.long millis) =>
    some (if a.entry.type = .dateTime then .dateTime millis else .long millis)
  | .value v => some v

/-- The part of a write in the value of a name. -/
def Accepted.settle (declared? : Option Schema) (policy : Policy) (name : String)
    (held : Option Value) (a : Accepted) : Option Value :=
  if a.write.name = name then
    (a.stored? policy).or
      (if declared? = none then held.filter a.entry.type.accepts else held)
  else held

namespace Builder

def history (b : Builder) : List Write → List Accepted
  | [] => []
  | w :: writes =>
    match b.entryOf w, (b.write w).error? with
    | .ok entry, none => ⟨w, entry⟩ :: (b.write w).builder.history writes
    | _, _ => (b.write w).builder.history writes

@[simp] theorem history_nil (b : Builder) : b.history [] = [] := rfl

theorem history_refused {b : Builder} {w : Write} {error : RecordError}
    (refused : b.write w = ⟨some error, b⟩) (writes : List Write) :
    b.history (w :: writes) = b.history writes := by
  simp only [history, refused]
  split <;> simp_all

theorem history_accepted {b next : Builder} {w : Write} {entry : Entry}
    (through : b.entryOf w = .ok entry) (accepted : b.write w = ⟨none, next⟩)
    (writes : List Write) :
    b.history (w :: writes) = ⟨w, entry⟩ :: next.history writes := by
  simp [history, through, accepted]

theorem stored?_eq {b : Builder} {w : Write} {entry : Entry} (typed : entry.type = w.setter) :
    b.stored? entry w.setter w.input = Accepted.stored? b.policy ⟨w, entry⟩ := by
  rw [← typed, Accepted.stored?]
  cases w.input with
  | null => rfl
  | temporal t => rfl
  | value v => cases v <;> rfl

theorem stage_settles {b : Builder} {w : Write} {entry : Entry} (through : b.entryOf w = .ok entry)
    (admits : Admits b.declared? entry w.setter w.input) (name : String) :
    (b.stage entry (b.stored? entry w.setter w.input)).value? name =
      Accepted.settle b.declared? b.policy name (b.value? name) ⟨w, entry⟩ := by
  rw [stage_value?, stored?_eq admits.type, Accepted.settle, ← entryOf_name through]
  by_cases here : name = entry.name
  · subst here
    rw [if_pos rfl, if_pos rfl, leftover?]
    cases b.declared? <;> rfl
  · rw [if_neg here, if_neg (Ne.symm here)]

/-- The value of a name after a run is settled by one accepted write after another. -/
theorem run_value? (b : Builder) (writes : List Write) (name : String) :
    (b.run writes).value? name =
      (b.history writes).foldl (Accepted.settle b.declared? b.policy name) (b.value? name) := by
  induction writes generalizing b with
  | nil => rfl
  | cons w writes ih =>
    rw [run_cons, ih]
    rcases b.write_cases w with ⟨error, refused⟩ | ⟨entry, through, admits, accepted⟩
    · rw [history_refused refused, refused]
    · rw [history_accepted through accepted, accepted, List.foldl_cons,
        ← stage_settles through admits]
      simp

theorem start_run_value? (declared? : Option Schema) (policy : Policy) (writes : List Write)
    (name : String) : ((start declared? policy).run writes).value? name =
      ((start declared? policy).history writes).foldl (Accepted.settle declared? policy name)
        none :=
  run_value? _ writes name

/-- Without a declared schema every accepted write leaves its entry. -/
theorem run_observed {b : Builder} (free : b.declared? = none) (writes : List Write) :
    (b.run writes).observed = b.observed ++ (b.history writes).map Accepted.entry := by
  induction writes generalizing b with
  | nil => simp
  | cons w writes ih =>
    rw [run_cons]
    rcases b.write_cases w with ⟨error, refused⟩ | ⟨entry, through, admits, accepted⟩
    · rw [history_refused refused, refused]
      exact ih free
    · rw [history_accepted through accepted, accepted, ih (by simpa using free),
        stage_observed b entry _ free]
      simp

section Settle

variable {declared? : Option Schema} {policy : Policy} {name : String}

theorem settle_other {a : Accepted} (other : a.write.name ≠ name) (held : Option Value) :
    Accepted.settle declared? policy name held a = held := by
  simp [Accepted.settle, other]

theorem settle_quiet {a : Accepted} (quiet : a.write.name = name → a.stored? policy = none)
    (held : Option Value) : Accepted.settle declared? policy name held a =
      if declared? = none ∧ a.write.name = name then held.filter a.entry.type.accepts
      else held := by
  by_cases here : a.write.name = name
  · simp [Accepted.settle, here, quiet here]
  · simp [Accepted.settle, here]

theorem foldl_settle_other {writes : List Accepted} (others : ∀ a ∈ writes, a.write.name ≠ name)
    (held : Option Value) : writes.foldl (Accepted.settle declared? policy name) held = held := by
  induction writes with
  | nil => rfl
  | cons a writes ih =>
    rw [List.foldl_cons, settle_other (others a List.mem_cons_self)]
    exact ih fun c member => others c (List.mem_cons_of_mem a member)

theorem foldl_settle_none {writes : List Accepted}
    (quiet : ∀ a ∈ writes, a.write.name = name → a.stored? policy = none) :
    writes.foldl (Accepted.settle declared? policy name) none = none := by
  induction writes with
  | nil => rfl
  | cons a writes ih =>
    rw [List.foldl_cons, settle_quiet (quiet a List.mem_cons_self), Option.filter_none, ite_self]
    exact ih fun c member => quiet c (List.mem_cons_of_mem a member)

/-- Writes that store nothing under a name keep its value, unless one of them drops it. -/
theorem foldl_settle_some {writes : List Accepted} (v : Value)
    (quiet : ∀ a ∈ writes, a.write.name = name → a.stored? policy = none) :
    writes.foldl (Accepted.settle declared? policy name) (some v) =
      if declared? = none ∧ ∃ a ∈ writes, a.write.name = name ∧ a.entry.type.accepts v = false then
        none
      else some v := by
  induction writes with
  | nil => simp
  | cons a writes ih =>
    have later : ∀ c ∈ writes, c.write.name = name → c.stored? policy = none :=
      fun c member => quiet c (List.mem_cons_of_mem a member)
    rw [List.foldl_cons, settle_quiet (quiet a List.mem_cons_self)]
    by_cases drops : declared? = none ∧ a.write.name = name ∧ a.entry.type.accepts v = false
    · obtain ⟨free, here, refused⟩ := drops
      rw [if_pos ⟨free, here⟩, Option.filter_some, refused, if_neg Bool.false_ne_true,
        foldl_settle_none later, if_pos ⟨free, a, List.mem_cons_self, here, refused⟩]
    · have kept : (if declared? = none ∧ a.write.name = name then
          (some v).filter a.entry.type.accepts else some v) = some v := by
        split
        · next hit =>
          have accepted : a.entry.type.accepts v = true := by
            simpa [hit.1, hit.2] using drops
          simp [Option.filter, accepted]
        · rfl
      rw [kept, ih later]
      refine if_congr (and_congr_right fun free => ?_) rfl rfl
      simp only [List.mem_cons, exists_eq_or_imp]
      exact (or_iff_right fun hit => drops ⟨free, hit⟩).symm

theorem settle_eq_some {a : Accepted} {held : Option Value} {v : Value}
    (settled : Accepted.settle declared? policy name held a = some v) :
    a.write.name = name ∧ a.stored? policy = some v ∨
      held = some v ∧ (a.write.name = name →
        a.stored? policy = none ∧ (declared? = none → a.entry.type.accepts v = true)) := by
  by_cases here : a.write.name = name
  · rw [Accepted.settle, if_pos here] at settled
    rcases Option.or_eq_some_iff.mp settled with stored | ⟨quiet, kept⟩
    · exact .inl ⟨here, stored⟩
    · refine .inr ?_
      split at kept
      · obtain ⟨before, accepted⟩ := Option.filter_eq_some_iff.mp kept
        exact ⟨before, fun _ => ⟨quiet, fun _ => accepted⟩⟩
      · next declared => exact ⟨kept, fun _ => ⟨quiet, fun free => absurd free declared⟩⟩
  · rw [settle_other here] at settled
    exact .inr ⟨settled, fun same => absurd same here⟩

/-- A value comes from the last write that stores one, and every later null keeps it. -/
theorem foldl_settle_eq_some {writes : List Accepted} {v : Value}
    (settled : writes.foldl (Accepted.settle declared? policy name) none = some v) :
    ∃ earlier a later, writes = earlier ++ a :: later ∧ a.write.name = name ∧
      a.stored? policy = some v ∧ ∀ c ∈ later, c.write.name = name →
        c.stored? policy = none ∧ (declared? = none → c.entry.type.accepts v = true) := by
  induction writes using List.reverseRecOn with
  | nil => simp at settled
  | append_singleton writes last ih =>
    rw [List.foldl_append, List.foldl_cons, List.foldl_nil] at settled
    rcases settle_eq_some settled with ⟨here, stored⟩ | ⟨before, keeps⟩
    · exact ⟨writes, last, [], rfl, here, stored, by simp⟩
    · obtain ⟨earlier, a, later, rfl, here, stored, others⟩ := ih before
      refine ⟨earlier, a, later ++ [last], by simp, here, stored, ?_⟩
      intro c member
      rcases List.mem_append.mp member with inside | isLast
      · exact others c inside
      · exact List.mem_singleton.mp isLast ▸ keeps

end Settle

/-- What a write adds to the history depends on the declared schema only. -/
theorem history_cons (b : Builder) (w : Write) (writes : List Write) :
    b.history (w :: writes) = b.history [w] ++ (b.write w).builder.history writes := by
  rcases b.write_cases w with ⟨error, refused⟩ | ⟨entry, through, -, accepted⟩
  · rw [history_refused refused, history_refused refused, refused]
    rfl
  · rw [history_accepted through accepted, history_accepted through accepted, accepted]
    rfl

theorem history_single_congr {b c : Builder} (same : b.declared? = c.declared?) (w : Write) :
    b.history [w] = c.history [w] := by
  have through := entryOf_congr same w
  rcases b.write_cases w with ⟨error, refused⟩ | ⟨entry, isEntry, admits, accepted⟩
  · rcases c.write_cases w with ⟨error', refused'⟩ | ⟨entry, isEntry, admits, -⟩
    · rw [history_refused refused, history_refused refused', history_nil, history_nil]
    · have accepted := write_accepted_iff.mpr ⟨entry, through.trans isEntry, same ▸ admits⟩
      simp [refused] at accepted
  · rw [history_accepted isEntry accepted]
    have accepted' := write_accepted_iff.mpr ⟨entry, through.symm.trans isEntry, same ▸ admits⟩
    rcases c.write_cases w with ⟨error, refused⟩ | ⟨entry', isEntry', -, accepted'⟩
    · simp [refused] at accepted'
    · rw [history_accepted isEntry' accepted']
      obtain rfl := Except.ok.inj (isEntry.symm.trans (through.trans isEntry'))
      rfl

theorem history_congr {b c : Builder} (same : b.declared? = c.declared?) (writes : List Write) :
    b.history writes = c.history writes := by
  induction writes generalizing b c with
  | nil => rfl
  | cons w writes ih =>
    rw [history_cons b, history_cons c, history_single_congr same]
    exact congrArg _ (ih (by simpa using same))

theorem history_append (b : Builder) (earlier later : List Write) :
    b.history (earlier ++ later) = b.history earlier ++ b.history later := by
  induction earlier with
  | nil => rfl
  | cons w earlier ih =>
    have same := history_congr (write_declared? b w)
    rw [List.cons_append, history_cons, history_cons b w earlier, same, same, ih, List.append_assoc]

theorem history_write {b : Builder} {w : Write} {a : Accepted} (member : a ∈ b.history [w]) :
    a.write = w := by
  rcases b.write_cases w with ⟨error, refused⟩ | ⟨entry, through, -, accepted⟩
  · simp [history_refused refused] at member
  · rw [history_accepted through accepted, history_nil, List.mem_singleton] at member
    rw [member]

theorem history_entry_name {b : Builder} {writes : List Write} {a : Accepted}
    (member : a ∈ b.history writes) : a.entry.name = a.write.name := by
  induction writes generalizing b with
  | nil => simp at member
  | cons w writes ih =>
    rcases b.write_cases w with ⟨error, refused⟩ | ⟨entry, through, -, accepted⟩
    · rw [history_refused refused] at member
      exact ih member
    · rw [history_accepted through accepted] at member
      rcases List.mem_cons.mp member with rfl | later
      · exact entryOf_name through
      · exact ih later

theorem history_admits {b : Builder} {writes : List Write} {a : Accepted}
    (member : a ∈ b.history writes) : Admits b.declared? a.entry a.write.setter a.write.input := by
  induction writes generalizing b with
  | nil => simp at member
  | cons w writes ih =>
    rcases b.write_cases w with ⟨error, refused⟩ | ⟨entry, through, admits, accepted⟩
    · rw [history_refused refused] at member
      exact ih member
    · rw [history_accepted through accepted] at member
      rcases List.mem_cons.mp member with rfl | later
      · exact admits
      · simpa using ih later

/-- Neighbouring writes to two names can change places. -/
theorem run_staged_swap (declared? : Option Schema) (policy : Policy) (earlier later : List Write)
    {x y : Write} (apart : x.name ≠ y.name) :
    ((start declared? policy).run (earlier ++ y :: x :: later)).staged =
      ((start declared? policy).run (earlier ++ x :: y :: later)).staged := by
  refine (run_staged_sorted ..).ext (run_staged_sorted ..) fun name => ?_
  change ((start declared? policy).run _).value? name = ((start declared? policy).run _).value? name
  have split (p q : Write) : (start declared? policy).history (earlier ++ p :: q :: later) =
      (start declared? policy).history earlier ++ ((start declared? policy).history [p] ++
        ((start declared? policy).history [q] ++ (start declared? policy).history later)) := by
    rw [← history_append, ← history_append, ← history_append]
    rfl
  rw [start_run_value?, start_run_value?, split, split]
  simp only [List.foldl_append]
  by_cases here : x.name = name
  · have others : ∀ a ∈ (start declared? policy).history [y], a.write.name ≠ name :=
      fun a member same => apart (here.trans (history_write member ▸ same.symm))
    simp only [foldl_settle_other others]
  · have others : ∀ a ∈ (start declared? policy).history [x], a.write.name ≠ name :=
      fun a member same => here (history_write member ▸ same)
    simp only [foldl_settle_other others]

/-- Whether a builder can be built, and with which values, depends on the declared schema and the
staged values only. -/
theorem build_values_congr {b c : Builder} (declared : b.declared? = c.declared?)
    (staged : b.staged = c.staged) : b.build.map Record.values = c.build.map Record.values := by
  have unset : b.missing = c.missing := by
    rw [missing, missing, declared, staged]
  have required : b.checkRequired = c.checkRequired := by
    rw [checkRequired, checkRequired, unset]
  rw [build, build, required, staged]
  cases c.checkRequired <;> rfl

/-- Without a declared schema the entries of a record are those of the accepted writes. -/
theorem run_schema (policy : Policy) (writes : List Write) :
    ((start none policy).run writes).schema =
      { type := .record
        entries := match policy.duplicateEntries with
          | .keepAll => ((start none policy).history writes).map Accepted.entry
          | .lastWins =>
            (((start none policy).history writes).map fun a => a.write.name).eraseDups.filterMap
              fun name => Entry.lastNamed? name
                (((start none policy).history writes).map Accepted.entry) } := by
  have observed : ((start none policy).run writes).observed =
      ((start none policy).history writes).map Accepted.entry := by
    rw [run_observed rfl]
    rfl
  have names : (((start none policy).history writes).map Accepted.entry).map Entry.name =
      ((start none policy).history writes).map fun a => a.write.name := by
    rw [List.map_map]
    exact List.map_congr_left fun a member => history_entry_name member
  rw [Builder.schema, run_declared?, run_policy, observed]
  cases isPolicy : policy.duplicateEntries with
  | keepAll => simp only [start, isPolicy]
  | lastWins =>
    rw [← names]
    simp only [start, isPolicy, lastByName_eq]

/-- The staged values and the record of a run, told from its accepted writes alone. -/
theorem run_summary (declared? : Option Schema) (policy : Policy) (writes : List Write) :
    let b := (start declared? policy).run writes
    let accepted := (start declared? policy).history writes
    (∀ name, (∀ a ∈ accepted, a.write.name = name → a.stored? policy = none) →
      b.value? name = none) ∧
    (∀ earlier a later v, accepted = earlier ++ a :: later → a.stored? policy = some v →
      (∀ c ∈ later, c.write.name = a.write.name → c.stored? policy = none) →
      b.value? a.write.name =
        if declared? = none ∧
            ∃ c ∈ later, c.write.name = a.write.name ∧ c.entry.type.accepts v = false then none
        else some v) ∧
    (∀ r, b.build = .ok r → r.values = b.staged ∧ r.schema =
      match declared?, policy.duplicateEntries with
      | some schema, _ => schema
      | none, .keepAll => { type := .record, entries := accepted.map Accepted.entry }
      | none, .lastWins => {
          type := .record
          entries := (accepted.map fun a => a.write.name).eraseDups.filterMap fun name =>
            Entry.lastNamed? name (accepted.map Accepted.entry) }) ∧
    (∀ earlier x y later, writes = earlier ++ x :: y :: later → x.name ≠ y.name →
      let swapped := (start declared? policy).run (earlier ++ y :: x :: later)
      swapped.staged = b.staged ∧ swapped.build.map Record.values = b.build.map Record.values) := by
  refine ⟨fun name quiet => ?_, fun earlier a later v split stored quiet => ?_, fun r built => ?_,
    fun earlier x y later split apart => ?_⟩
  · rw [start_run_value?]
    exact foldl_settle_none quiet
  · have settled (held : Option Value) :
        Accepted.settle declared? policy a.write.name held a = some v := by
      simp [Accepted.settle, stored]
    rw [start_run_value?, split, List.foldl_append, List.foldl_cons, settled]
    exact foldl_settle_some v quiet
  · obtain ⟨-, rfl⟩ := build_eq_ok_iff.mp built
    refine ⟨rfl, ?_⟩
    cases declared? with
    | some schema => exact schema_of_declared (by simp [start])
    | none =>
      refine (run_schema policy writes).trans ?_
      cases policy.duplicateEntries <;> rfl
  · subst split
    have staged := run_staged_swap declared? policy earlier later apart
    exact ⟨staged, build_values_congr (by simp) staged⟩

end Builder

end TypedRecords
