import Mathlib.Data.List.Nodup
import TypedRecords.Proofs.Schema.Lookup
import TypedRecords.Schema.Draft

/-! Schemas in which each name occurs once. There the first entry of a name is also the last one,
and every search for a name ends at the same entry. A draft freezes into a schema of this kind. -/
namespace TypedRecords

namespace SchemaDraft

theorem fault?_eq_none_iff {seen : List String} {entries : List Entry} :
    fault? seen entries = none ↔
      (entries.map Entry.name).Nodup ∧ (∀ entry ∈ entries, entry.name ∉ seen) ∧
        ∀ entry ∈ entries, entry.lacksElement = false := by
  induction entries generalizing seen with
  | nil => simp [fault?]
  | cons entry entries ih =>
    by_cases repeated : entry.name ∈ seen
    · simp [fault?, repeated]
    · by_cases lacks : entry.lacksElement = true
      · simp [fault?, repeated, lacks]
      · have later : fault? seen (entry :: entries) = fault? (entry.name :: seen) entries := by
          simp [fault?, repeated, lacks]
        rw [later, ih, List.map_cons, List.nodup_cons]
        simp only [List.mem_cons, not_or, List.mem_map, not_exists, not_and]
        grind

theorem freeze_eq_ok_iff {draft : SchemaDraft} {schema : Schema} :
    draft.freeze = .ok schema ↔
      schema = ⟨draft.type, draft.entries, draft.props⟩ ∧ schema.names.Nodup ∧
        ∀ entry ∈ schema.entries, entry.lacksElement = false := by
  have clean := @fault?_eq_none_iff [] draft.entries
  simp only [List.not_mem_nil, not_false_eq_true, implies_true, true_and] at clean
  unfold freeze
  constructor
  · intro frozen
    split at frozen
    · cases frozen
    · next silent =>
      obtain rfl := Except.ok.inj frozen
      exact ⟨rfl, clean.mp silent⟩
  · rintro ⟨rfl, sound⟩
    rw [clean.mpr sound]

end SchemaDraft

namespace Schema

theorem entry?_some {schema : Schema} {name : String} {entry : Entry}
    (found : schema.entry? name = some entry) : entry ∈ schema.entries ∧ entry.name = name :=
  ⟨List.mem_of_find?_eq_some found, by simpa using List.find?_some found⟩

theorem entry?_eq_none_iff {schema : Schema} {name : String} :
    schema.entry? name = none ↔ name ∉ schema.names := by
  unfold entry? names
  simp

theorem lastEntry?_eq_none_iff {schema : Schema} {name : String} :
    schema.lastEntry? name = none ↔ name ∉ schema.names :=
  Entry.lastNamed?_eq_none_iff

/-- Two entries of one name are the same entry. -/
theorem entry_eq_of_name {schema : Schema} (distinct : schema.names.Nodup) {entry other : Entry}
    (member : entry ∈ schema.entries) (otherMember : other ∈ schema.entries)
    (same : entry.name = other.name) : entry = other :=
  List.inj_on_of_nodup_map distinct member otherMember same

theorem entry?_of_mem {schema : Schema} (distinct : schema.names.Nodup) {entry : Entry}
    (member : entry ∈ schema.entries) : schema.entry? entry.name = some entry := by
  cases found : schema.entry? entry.name with
  | none => exact absurd (List.mem_map_of_mem member) (entry?_eq_none_iff.mp found)
  | some other =>
    obtain ⟨otherMember, same⟩ := entry?_some found
    rw [entry_eq_of_name distinct otherMember member same]

/-- Where names are distinct, it makes no difference from which end a name is searched for. -/
theorem lastEntry?_eq_entry? {schema : Schema} (distinct : schema.names.Nodup) (name : String) :
    schema.lastEntry? name = schema.entry? name := by
  cases found : schema.lastEntry? name with
  | none => exact (entry?_eq_none_iff.mpr (lastEntry?_eq_none_iff.mp found)).symm
  | some entry =>
    obtain ⟨member, rfl⟩ := lastEntry?_some found
    exact (entry?_of_mem distinct member).symm

end Schema

end TypedRecords
