import TypedRecords.Proofs.NameMap
import TypedRecords.Schema

/-! The last entry of a name, and the index that finds it. -/
namespace TypedRecords

namespace Entry

@[simp] theorem lastNamed?_nil (name : String) : lastNamed? name [] = none := rfl

@[simp] theorem lastNamed?_append (name : String) (entries : List Entry) (entry : Entry) :
    lastNamed? name (entries ++ [entry]) =
      if entry.name = name then some entry else lastNamed? name entries := by
  by_cases same : entry.name = name <;> simp [lastNamed?, same]

/-- Entries that stand later are met first. -/
theorem lastNamed?_append_eq_or (name : String) (earlier later : List Entry) :
    lastNamed? name (earlier ++ later) = (lastNamed? name later).or (lastNamed? name earlier) := by
  unfold lastNamed?
  rw [List.reverse_append, List.find?_append]

theorem lastNamed?_append_of_some {name : String} {later : List Entry} {entry : Entry}
    (found : lastNamed? name later = some entry) (earlier : List Entry) :
    lastNamed? name (earlier ++ later) = some entry := by
  rw [lastNamed?_append_eq_or, found, Option.some_or]

theorem lastNamed?_some {name : String} {entries : List Entry} {entry : Entry}
    (found : lastNamed? name entries = some entry) : entry ∈ entries ∧ entry.name = name := by
  have member := List.mem_of_find?_eq_some found
  have named := List.find?_some found
  exact ⟨List.mem_reverse.mp member, by simpa using named⟩

def LastOf (entry : Entry) (entries : List Entry) : Prop :=
  ∃ earlier later, entries = earlier ++ entry :: later ∧ entry.name ∉ later.map Entry.name

theorem lastNamed?_eq_some_iff {name : String} {entries : List Entry} {entry : Entry} :
    lastNamed? name entries = some entry ↔ entry.name = name ∧ entry.LastOf entries := by
  unfold lastNamed?
  rw [NameMap.find?_reverse_eq_some_iff, beq_iff_eq]
  refine and_congr_right ?_
  rintro rfl
  simp [LastOf]

theorem lastNamed?_eq_none_iff {name : String} {entries : List Entry} :
    lastNamed? name entries = none ↔ name ∉ entries.map Entry.name := by
  simp [lastNamed?]

theorem lastNamed?_exists {name : String} {entries : List Entry}
    (member : name ∈ entries.map Entry.name) : ∃ entry, lastNamed? name entries = some entry := by
  cases found : lastNamed? name entries with
  | some entry => exact ⟨entry, rfl⟩
  | none => exact absurd member (lastNamed?_eq_none_iff.mp found)

end Entry

namespace Schema

theorem lastEntry?_some {schema : Schema} {name : String} {entry : Entry}
    (found : schema.lastEntry? name = some entry) : entry ∈ schema.entries ∧ entry.name = name :=
  Entry.lastNamed?_some found

/-- The index agrees with a search from the end: a position belongs to the entry it was taken
from. -/
theorem indexed?_eq_lastEntry? (schema : Schema) (name : String) :
    schema.indexed? name = schema.lastEntry? name := by
  have pairs : schema.names.zipIdx =
      schema.entries.zipIdx.map fun pair => (pair.1.name, pair.2) := by
    rw [Schema.names, List.zipIdx_map]
    rfl
  have entries : schema.entries.reverse = schema.entries.zipIdx.reverse.map Prod.fst := by
    rw [List.map_reverse, List.zipIdx_map_fst]
  rw [indexed?, index, NameMap.find?_ofList, lastEntry?, Entry.lastNamed?, pairs, entries,
    ← List.map_reverse, List.find?_map, List.find?_map]
  simp only [Function.comp_def]
  cases found : schema.entries.zipIdx.reverse.find? fun pair => pair.1.name == name with
  | none => rfl
  | some pair =>
    have member := List.mem_reverse.mp (List.mem_of_find?_eq_some found)
    have atPosition := List.mem_zipIdx_iff_getElem?.mp member
    simp [atPosition]

end Schema

end TypedRecords
