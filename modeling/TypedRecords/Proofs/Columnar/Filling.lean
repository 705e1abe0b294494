import TypedRecords.Proofs.Columnar.Encoding

/-! Demands that are met. A computation asks for what its parts ask for, as far as they are reached;
a run over a list asks for what its steps ask for, and keeps what they keep. -/
namespace TypedRecords.Filling

variable {room : CellType → Nat → Bool} {α β γ : Type}

def Met (room : CellType → Nat → Bool) (x : Filling α) : Prop :=
  ∀ demand ∈ x.demands, demand.met room = true

theorem run_of_met {x : Filling α} (met : x.Met room) : x.run room = .ok x.result := by
  have none_left : x.demands.find? (fun demand => !demand.met room) = none := by
    simpa [Met, List.find?_eq_none] using met
  rw [run, none_left]

theorem run_eq_ok_iff {x : Filling α} {answer : Except ColumnarError α} :
    x.run room = .ok answer ↔ x.Met room ∧ x.result = answer := by
  by_cases met : x.Met room
  · simp [run_of_met met, met]
  · have unmet : ∃ demand, x.demands.find? (fun demand => !demand.met room) = some demand := by
      simpa [Met, ← Option.isSome_iff_exists, List.find?_isSome] using met
    obtain ⟨demand, found⟩ := unmet
    simp [run, found, met]

@[simp] theorem met_pure (a : α) : (pure a : Filling α).Met room := by simp [Met]

@[simp] theorem met_fail (error : ColumnarError) : (fail error : Filling α).Met room := by
  simp [Met]

@[simp] theorem met_lift (given : Except ColumnarError α) : (liftM given : Filling α).Met room := by
  simp [Met]

@[simp] theorem met_ask (demand : Demand) : (ask demand).Met room ↔ demand.met room = true := by
  simp [Met]

theorem met_bind {x : Filling α} {next : α → Filling β} :
    (x >>= next).Met room ↔ x.Met room ∧ ∀ a, x.result = .ok a → (next a).Met room := by
  cases given : x.result with
  | ok a => simp [Met, bind_of_ok next given, or_imp, forall_and]
  | error error => simp [Met, bind_of_error next given]

@[simp] theorem met_map {x : Filling α} (f : α → β) : (f <$> x).Met room ↔ x.Met room := by
  rw [← bind_pure_comp, met_bind]
  simp

theorem met_mapM {f : α → Filling β} {xs : List α} (each : ∀ x ∈ xs, (f x).Met room) :
    (xs.mapM f).Met room := by
  induction xs with
  | nil => simp
  | cons x xs ih =>
    obtain ⟨here, later⟩ := List.forall_mem_cons.mp each
    rw [List.mapM_cons]
    exact met_bind.mpr ⟨here, fun _ _ => met_bind.mpr ⟨ih later, fun _ _ => met_pure _⟩⟩

theorem met_of_mapM {f : α → Filling β} {xs : List α}
    (ends : ∀ x ∈ xs, ∃ b, (f x).result = .ok b) (met : (xs.mapM f).Met room) :
    ∀ x ∈ xs, (f x).Met room := by
  induction xs with
  | nil => simp
  | cons x xs ih =>
    obtain ⟨⟨b, here⟩, later⟩ := List.forall_mem_cons.mp ends
    rw [List.mapM_cons] at met
    obtain ⟨first, rest⟩ := met_bind.mp met
    exact List.forall_mem_cons.mpr ⟨first, ih later (met_bind.mp (rest b here)).1⟩

variable {f : α → β → Filling α} {e : β → List ColumnarError} {g : List β → α}

/-- Where each element adds itself to those seen, a run asks for what its steps ask for. -/
theorem met_foldlM (each : ∀ seen x, (f (g seen) x).result = report (e x) (g (seen ++ [x])))
    (xs seen : List β)
    (steps : ∀ earlier x later, xs = earlier ++ x :: later →
      (f (g (seen ++ earlier)) x).Met room) : (xs.foldlM f (g seen)).Met room := by
  induction xs generalizing seen with
  | nil => simp
  | cons x xs ih =>
    rw [List.foldlM_cons]
    refine met_bind.mpr ⟨by simpa using steps [] x xs rfl, fun a taken => ?_⟩
    rw [each, report_eq_ok_iff] at taken
    obtain ⟨-, rfl⟩ := taken
    refine ih (seen ++ [x]) fun earlier y later split => ?_
    simpa using steps (x :: earlier) y later (by rw [split]; rfl)

/-- What the steps keep, as long as their demands are met, holds after the run. -/
theorem foldlM_preserves {P : List β → Prop}
    (each : ∀ seen x, (f (g seen) x).result = report (e x) (g (seen ++ [x]))) (xs seen : List β)
    (clean : ∀ x ∈ xs, e x = [])
    (step : ∀ seen, ∀ x ∈ xs, P seen → (f (g seen) x).Met room → P (seen ++ [x]))
    (holds : P seen) (met : (xs.foldlM f (g seen)).Met room) : P (seen ++ xs) := by
  induction xs generalizing seen with
  | nil => simpa using holds
  | cons x xs ih =>
    rw [List.foldlM_cons] at met
    obtain ⟨first, rest⟩ := met_bind.mp met
    have taken : (f (g seen) x).result = .ok (g (seen ++ [x])) := by
      rw [each, clean x List.mem_cons_self, report_nil]
    have later := ih (seen ++ [x]) (fun y member => clean y (List.mem_cons_of_mem _ member))
      (fun seen y member => step seen y (List.mem_cons_of_mem _ member))
      (step seen x List.mem_cons_self holds first) (rest _ taken)
    simpa using later

end TypedRecords.Filling
