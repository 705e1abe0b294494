import TypedRecords.NameMap

/-! Ordered string properties of schemas and entries. A key keeps the place of its first write
and holds the value of its last one. -/
namespace TypedRecords

structure Props where
  pairs : List (String × String) := []
  nodup : (pairs.map Prod.fst).Nodup := by simp

namespace Props

def empty : Props := {}

/-- A key that is present is overwritten where it stands; a new one goes to the end. -/
def overwrite (key value : String) : List (String × String) → List (String × String)
  | [] => [(key, value)]
  | (k, v) :: rest =>
    if k = key then (key, value) :: rest else (k, v) :: overwrite key value rest

theorem mem_keys_overwrite {key value other : String} {pairs : List (String × String)} :
    other ∈ (overwrite key value pairs).map Prod.fst ↔
      other = key ∨ other ∈ pairs.map Prod.fst := by
  induction pairs with
  | nil => simp [overwrite]
  | cons pair rest ih =>
    obtain ⟨k, v⟩ := pair
    simp only [overwrite]
    split
    · next same => subst same; simp
    · rw [List.map_cons, List.mem_cons, ih, List.map_cons, List.mem_cons]
      exact or_left_comm

theorem nodup_overwrite (key value : String) {pairs : List (String × String)}
    (nodup : (pairs.map Prod.fst).Nodup) : ((overwrite key value pairs).map Prod.fst).Nodup := by
  induction pairs with
  | nil => simp [overwrite]
  | cons pair rest ih =>
    obtain ⟨k, v⟩ := pair
    rw [List.map_cons, List.nodup_cons] at nodup
    simp only [overwrite]
    split
    · next same => subst same; simpa using nodup
    · next apart =>
      rw [List.map_cons, List.nodup_cons, mem_keys_overwrite]
      exact ⟨fun h => h.elim apart nodup.1, ih nodup.2⟩

def insert (props : Props) (key value : String) : Props :=
  ⟨overwrite key value props.pairs, nodup_overwrite key value props.nodup⟩

def get? (props : Props) (key : String) : Option String := NameMap.find? key props.pairs

@[simp] theorem get?_empty (key : String) : empty.get? key = none := rfl

theorem find?_overwrite (key value other : String) (pairs : List (String × String)) :
    NameMap.find? other (overwrite key value pairs) =
      if other = key then some value else NameMap.find? other pairs := by
  induction pairs with
  | nil => simp [overwrite, NameMap.find?, eq_comm]
  | cons pair rest ih =>
    obtain ⟨k, v⟩ := pair
    simp only [overwrite]
    split
    · next same =>
      subst same
      by_cases h : other = k
      · simp [NameMap.find?, h]
      · simp [NameMap.find?, h, Ne.symm h]
    · next apart =>
      by_cases h : k = other
      · subst h; simp [NameMap.find?, apart]
      · simp [NameMap.find?, h, ih]

@[simp] theorem get?_insert (props : Props) (key value other : String) :
    (props.insert key value).get? other = if other = key then some value else props.get? other :=
  find?_overwrite key value other props.pairs

def getThenInsert (props : Props) (key value : String) : Option String × Props :=
  (props.get? key, props.insert key value)

def merge (props : Props) (pairs : List (String × String)) : Props :=
  pairs.foldl (fun held pair => held.insert pair.1 pair.2) props

def ofList (pairs : List (String × String)) : Props := empty.merge pairs

def contains (props : Props) (key : String) : Bool := (props.get? key).isSome

def size (props : Props) : Nat := props.pairs.length

def isEmpty (props : Props) : Bool := props.pairs.isEmpty

def keys (props : Props) : List String := props.pairs.map Prod.fst

/-- The same pairs without their order. -/
def toNameMap (props : Props) : NameMap String := NameMap.ofList props.pairs

/-- Equality of properties ignores their order: the sizes agree, and every pair of the one is
found in the other. -/
def same (p q : Props) : Bool :=
  p.size == q.size && p.pairs.all fun pair => q.get? pair.1 == some pair.2

instance : BEq Props := ⟨same⟩

end Props

end TypedRecords
