/-! Finite maps keyed by field name. A map is the list of its pairs in code point order of the
names, so that maps built by `insert` and `erase` are equal as lists when they agree on every
name. -/
namespace TypedRecords

abbrev NameMap (α : Type) := List (String × α)

namespace NameMap

def empty : NameMap α := []

def find? (name : String) : NameMap α → Option α
  | [] => none
  | (key, value) :: rest => if key = name then some value else find? name rest

def contains (name : String) (m : NameMap α) : Bool := (m.find? name).isSome

def insert (name : String) (value : α) : NameMap α → NameMap α
  | [] => [(name, value)]
  | (key, held) :: rest =>
    if name = key then (name, value) :: rest
    else if name < key then (name, value) :: (key, held) :: rest
    else (key, held) :: insert name value rest

def erase (name : String) (m : NameMap α) : NameMap α := m.filter fun pair => pair.1 ≠ name

/-- Of pairs with one name the last counts. -/
def ofList (pairs : List (String × α)) : NameMap α :=
  pairs.foldl (fun m pair => insert pair.1 pair.2 m) empty

def names (m : NameMap α) : List String := m.map Prod.fst

@[simp] theorem find?_empty (name : String) : find? name (empty : NameMap α) = none := rfl

@[simp] theorem find?_insert (name other : String) (value : α) (m : NameMap α) :
    (m.insert name value).find? other = if other = name then some value else m.find? other := by
  induction m with
  | nil => simp [insert, find?, eq_comm]
  | cons pair rest ih =>
    obtain ⟨key, held⟩ := pair
    simp only [insert]
    split
    · next same =>
      subst same
      by_cases h : other = name
      · simp [find?, h]
      · simp [find?, h, Ne.symm h]
    · split
      · by_cases h : other = name
        · simp [find?, h]
        · simp [find?, h, Ne.symm h]
      · next apart _ =>
        simp only [find?, ih]
        by_cases h : key = other
        · subst h; simp [Ne.symm apart]
        · simp [h]

@[simp] theorem find?_erase (name other : String) (m : NameMap α) :
    (m.erase name).find? other = if other = name then none else m.find? other := by
  induction m with
  | nil => simp [erase, find?]
  | cons pair rest ih =>
    obtain ⟨key, held⟩ := pair
    simp only [erase, List.filter_cons] at ih ⊢
    by_cases same : key = name
    · subst same
      by_cases h : other = key
      · simpa [h] using ih
      · simpa [find?, h, Ne.symm h] using ih
    · by_cases h : key = other
      · subst h; simp [find?, same]
      · simpa [find?, same, h] using ih

end NameMap

end TypedRecords
