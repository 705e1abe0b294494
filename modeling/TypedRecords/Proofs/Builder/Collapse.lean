import TypedRecords.Builder
import TypedRecords.Proofs.Schema.Lookup

/-! Collapsed entries: one for each name, in the order in which the names came first, each as it
came last. The positions kept beside the entries lead to them. -/
namespace TypedRecords.Builder

theorem getElem?_concat_iff {names : List String} {name other : String} {position : Nat} :
    (names ++ [name])[position]? = some other ↔
      names[position]? = some other ∨ position = names.length ∧ name = other := by
  rcases lt_trichotomy position names.length with inside | rfl | outside
  · simp [List.getElem?_append_left inside, inside.ne]
  · simp
  · rw [List.getElem?_eq_none (by simp; omega), List.getElem?_eq_none outside.le]
    simp [outside.ne']

namespace Kept

structure Holds (kept : Kept) (seen : List Entry) : Prop where
  names : kept.entries.map Entry.name = (seen.map Entry.name).eraseDups
  positions : ∀ name position, kept.positions.find? name = some position ↔
    (kept.entries.map Entry.name)[position]? = some name
  last : ∀ entry ∈ kept.entries, Entry.lastNamed? entry.name seen = some entry

theorem holds_empty : Holds {} [] where
  names := by simp
  positions := by simp
  last := by simp

/-- An entry of a known name takes its place, and no other entry has this name. -/
theorem Holds.replace {kept : Kept} {seen : List Entry} (holds : kept.Holds seen)
    {entry : Entry} {position : Nat}
    (known : kept.positions.find? entry.name = some position) :
    Holds { kept with entries := kept.entries.set position entry } (seen ++ [entry]) := by
  have place := (holds.positions entry.name position).mp known
  have unmoved : (kept.entries.set position entry).map Entry.name =
      kept.entries.map Entry.name := by
    rw [List.map_set]
    obtain ⟨bound, same⟩ := List.getElem?_eq_some_iff.mp place
    rw [← same, List.set_getElem_self]
  have member : entry.name ∈ seen.map Entry.name := by
    rw [← List.mem_eraseDups, ← holds.names]
    exact List.mem_of_getElem? place
  refine ⟨?_, ?_, ?_⟩
  · rw [unmoved, holds.names, List.map_append, List.map_singleton, NameMap.eraseDups_concat,
      if_pos member]
  · intro name other
    rw [unmoved]
    exact holds.positions name other
  · intro other inside
    obtain ⟨index, bound, rfl⟩ := List.mem_iff_getElem.mp inside
    rw [List.length_set] at bound
    rw [Entry.lastNamed?_append, List.getElem_set]
    by_cases here : position = index
    · simp [here]
    · have apart : entry.name ≠ kept.entries[index].name := by
        intro same
        have found := (holds.positions entry.name index).mpr (by simp [bound, same])
        exact here (Option.some.inj (known.symm.trans found))
      simp only [here, if_false, if_neg apart]
      exact holds.last _ (List.getElem_mem bound)

theorem Holds.fresh {kept : Kept} {seen : List Entry} (holds : kept.Holds seen) {name : String}
    (unknown : kept.positions.find? name = none) : name ∉ kept.entries.map Entry.name := by
  intro member
  obtain ⟨position, place⟩ := List.mem_iff_getElem?.mp member
  have found := (holds.positions name position).mpr place
  simp [unknown] at found

theorem Holds.extend {kept : Kept} {seen : List Entry} (holds : kept.Holds seen)
    {entry : Entry} (unknown : kept.positions.find? entry.name = none) :
    Holds ⟨kept.positions.insert entry.name kept.entries.length, kept.entries ++ [entry]⟩
      (seen ++ [entry]) := by
  have fresh := holds.fresh unknown
  have unseen : entry.name ∉ seen.map Entry.name := by
    rwa [← List.mem_eraseDups, ← holds.names]
  refine ⟨?_, ?_, ?_⟩
  · rw [List.map_append, holds.names, List.map_append, List.map_singleton, NameMap.eraseDups_concat,
      if_neg unseen]
  · intro name position
    rw [NameMap.find?_insert, List.map_append, List.map_singleton, getElem?_concat_iff,
      List.length_map]
    by_cases same : name = entry.name
    · subst same
      have absent : (kept.entries.map Entry.name)[position]? ≠ some entry.name :=
        fun place => fresh (List.mem_of_getElem? place)
      simp only [if_true, Option.some.injEq, absent, false_or, and_true]
      exact eq_comm
    · rw [if_neg same, holds.positions]
      simp [Ne.symm same]
  · intro other inside
    rw [Entry.lastNamed?_append]
    rcases List.mem_append.mp inside with before | last
    · have apart : entry.name ≠ other.name :=
        fun same => fresh (same ▸ List.mem_map_of_mem before)
      rw [if_neg apart]
      exact holds.last other before
    · obtain rfl := List.mem_singleton.mp last
      simp

theorem Holds.add {kept : Kept} {seen : List Entry} (holds : kept.Holds seen) (entry : Entry) :
    (kept.add entry).Holds (seen ++ [entry]) := by
  unfold Kept.add
  split
  · next position known => exact holds.replace known
  · next unknown => exact holds.extend unknown

theorem Holds.addAll {kept : Kept} {seen : List Entry} (holds : kept.Holds seen)
    (entries : List Entry) : (entries.foldl Kept.add kept).Holds (seen ++ entries) := by
  induction entries generalizing kept seen with
  | nil => simpa using holds
  | cons entry entries ih => simpa using ih (holds.add entry)

end Kept

theorem lastByName_holds (entries : List Entry) :
    (entries.foldl Kept.add {}).Holds entries := by
  simpa using Kept.holds_empty.addAll entries

theorem lastByName_names (entries : List Entry) :
    (lastByName entries).map Entry.name = (entries.map Entry.name).eraseDups :=
  (lastByName_holds entries).names

theorem lastByName_nodup (entries : List Entry) :
    ((lastByName entries).map Entry.name).Nodup := by
  rw [lastByName_names]
  exact NameMap.nodup_eraseDups _

theorem lastByName_last {entries : List Entry} {entry : Entry}
    (member : entry ∈ lastByName entries) : Entry.lastNamed? entry.name entries = some entry :=
  (lastByName_holds entries).last entry member

/-- Entries are determined by the order of their names and by the entry that each name has. -/
theorem eq_filterMap_lastNamed? {kept entries : List Entry}
    (names : kept.map Entry.name = (entries.map Entry.name).eraseDups)
    (last : ∀ entry ∈ kept, Entry.lastNamed? entry.name entries = some entry) :
    kept =
      (entries.map Entry.name).eraseDups.filterMap fun name => Entry.lastNamed? name entries := by
  rw [← names, List.filterMap_map]
  have each : ∀ entry ∈ kept,
      ((fun name => Entry.lastNamed? name entries) ∘ Entry.name) entry = some entry := last
  rw [List.filterMap_congr each, List.filterMap_some]

/-- The collapsed entries in closed form. -/
theorem lastByName_eq (entries : List Entry) :
    lastByName entries =
      (entries.map Entry.name).eraseDups.filterMap fun name => Entry.lastNamed? name entries :=
  eq_filterMap_lastNamed? (lastByName_names entries) fun _ => lastByName_last

/-- Collapsing does not change which entry of a name is the last. -/
theorem lastNamed?_lastByName (name : String) (entries : List Entry) :
    Entry.lastNamed? name (lastByName entries) = Entry.lastNamed? name entries := by
  cases found : Entry.lastNamed? name (lastByName entries) with
  | some entry =>
    obtain ⟨member, rfl⟩ := Entry.lastNamed?_some found
    exact (lastByName_last member).symm
  | none =>
    rw [Entry.lastNamed?_eq_none_iff, lastByName_names, List.mem_eraseDups] at found
    exact (Entry.lastNamed?_eq_none_iff.mpr found).symm

end TypedRecords.Builder
