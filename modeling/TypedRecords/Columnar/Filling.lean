import TypedRecords.Columnar.Layout

/-! Computations that fill columns. Besides a result they have a list of what they ask of the
machine, up to their end or to the error that stops them. A machine that does not meet a demand
ends them there, without result. -/
namespace TypedRecords

/-- A new column asks for room for its slots, and every slot for the offset at its end. -/
inductive Demand
  | room (type : CellType) (slots : Nat)
  | offset (last : Nat)
deriving DecidableEq, Repr

/-- Offsets are signed numbers of 32 bits. -/
def greatestOffset : Nat := 2147483647

def Demand.met (room : CellType → Nat → Bool) : Demand → Bool
  | .room type slots => room type slots
  | .offset last => decide (last ≤ greatestOffset)

structure Filling (α : Type) where
  demands : List Demand
  result : Except ColumnarError α

namespace Filling

variable {α β : Type}

def ask (demand : Demand) : Filling Unit := ⟨[demand], .ok ()⟩

def fail (error : ColumnarError) : Filling α := ⟨[], .error error⟩

instance : Monad Filling where
  pure a := ⟨[], .ok a⟩
  bind x next :=
    match x.result with
    | .ok a =>
      let rest := next a
      ⟨x.demands ++ rest.demands, rest.result⟩
    | .error error => ⟨x.demands, .error error⟩

instance : MonadLift (Except ColumnarError) Filling := ⟨fun result => ⟨[], result⟩⟩

/-- The outcome on a machine with some room, or the first demand that it does not meet. -/
def run (room : CellType → Nat → Bool) (x : Filling α) :
    Except Demand (Except ColumnarError α) :=
  match x.demands.find? fun demand => !demand.met room with
  | some demand => .error demand
  | none => .ok x.result

@[simp] theorem result_pure (a : α) : (pure a : Filling α).result = .ok a := rfl

@[simp] theorem result_ask (demand : Demand) : (ask demand).result = .ok () := rfl

@[simp] theorem result_fail (error : ColumnarError) :
    (fail error : Filling α).result = .error error := rfl

@[simp] theorem result_lift (given : Except ColumnarError α) :
    (liftM given : Filling α).result = given := rfl

@[simp] theorem demands_pure (a : α) : (pure a : Filling α).demands = [] := rfl

@[simp] theorem demands_ask (demand : Demand) : (ask demand).demands = [demand] := rfl

@[simp] theorem demands_fail (error : ColumnarError) :
    (fail error : Filling α).demands = [] := rfl

@[simp] theorem demands_lift (given : Except ColumnarError α) :
    (liftM given : Filling α).demands = [] := rfl

theorem bind_of_ok {x : Filling α} {a : α} (next : α → Filling β) (given : x.result = .ok a) :
    x >>= next = ⟨x.demands ++ (next a).demands, (next a).result⟩ := by
  simp [bind, given]

theorem bind_of_error {x : Filling α} {error : ColumnarError} (next : α → Filling β)
    (failed : x.result = .error error) : x >>= next = ⟨x.demands, .error error⟩ := by
  simp [bind, failed]

instance : LawfulMonad Filling := LawfulMonad.mk' Filling
  (by
    rintro α ⟨demands, result⟩
    cases result <;> simp [Functor.map])
  (by
    intro α β a next
    simp [bind, pure])
  (by
    rintro α β γ ⟨demands, result⟩ next last
    cases result with
    | error error => rfl
    | ok a => cases given : (next a).result <;> simp [bind, given])

@[simp] theorem result_bind (x : Filling α) (next : α → Filling β) :
    (x >>= next).result = x.result >>= fun a => (next a).result := by
  cases given : x.result with
  | ok a => rw [bind_of_ok next given]; rfl
  | error error => rw [bind_of_error next given]; rfl

end Filling

end TypedRecords
