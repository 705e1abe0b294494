import TypedRecords.Proofs.Builder.Collapse
import TypedRecords.Proofs.Props

/-! Entries are collapsed by the rule of properties. Beside properties that hold a text for each
kept entry, keeping one more entry is the same as inserting its text under its name: the positions
lead to the pair that the insertion looks for from the front. -/
namespace TypedRecords

def Entry.pair (text : Entry → String) (entry : Entry) : String × String :=
  (entry.name, text entry)

namespace Builder

/-- The kept entries have different names, in the order in which the names come first, and are the
last ones of their names. -/
structure Collapses (entries kept : List Entry) : Prop where
  names : kept.map Entry.name = (entries.map Entry.name).eraseDups
  distinct : (kept.map Entry.name).Nodup
  last : ∀ entry, entry ∈ kept ↔ entry.LastOf entries

theorem mem_lastByName_iff {entries : List Entry} {entry : Entry} :
    entry ∈ lastByName entries ↔ entry.LastOf entries := by
  constructor
  · intro member
    exact (Entry.lastNamed?_eq_some_iff.mp (lastByName_last member)).2
  · intro last
    have found := Entry.lastNamed?_eq_some_iff.mpr ⟨rfl, last⟩
    rw [← lastNamed?_lastByName] at found
    exact (Entry.lastNamed?_some found).1

theorem collapses_iff {entries kept : List Entry} :
    Collapses entries kept ↔ kept = lastByName entries := by
  constructor
  · intro collapses
    rw [lastByName_eq]
    refine eq_filterMap_lastNamed? collapses.names fun entry member => ?_
    exact Entry.lastNamed?_eq_some_iff.mpr ⟨rfl, (collapses.last entry).mp member⟩
  · rintro rfl
    exact ⟨lastByName_names entries, lastByName_nodup entries, fun _ => mem_lastByName_iff⟩

section Properties

variable {kept : Kept} {seen : List Entry} {text : Entry → String} {p : Props}

/-- Keeping an entry and inserting its property go together: both replace what has the name where it
stands, or put the new name last. -/
theorem Kept.Holds.insert (holds : kept.Holds seen)
    (alike : p.pairs = kept.entries.map (Entry.pair text)) (entry : Entry) :
    (p.insert entry.name (text entry)).pairs = (kept.add entry).entries.map (Entry.pair text) := by
  have keys : p.pairs.map Prod.fst = kept.entries.map Entry.name := by
    rw [alike, List.map_map]
    rfl
  change Props.overwrite entry.name (text entry) p.pairs = _
  -- the keys of the properties are distinct by their type, so the position is where the search
  -- stops
  unfold Kept.add
  split
  · next position known =>
    have place := (holds.positions entry.name position).mp known
    rw [← keys] at place
    rw [Props.overwrite_eq_set p.nodup place, alike, List.map_set]
    rfl
  · next unknown =>
    have fresh := holds.fresh unknown
    rw [← keys] at fresh
    rw [Props.overwrite_of_notMem fresh, alike, List.map_append]
    rfl

theorem Kept.Holds.merge (holds : kept.Holds seen)
    (alike : p.pairs = kept.entries.map (Entry.pair text)) (entries : List Entry) :
    (p.merge (entries.map (Entry.pair text))).pairs =
      (entries.foldl Kept.add kept).entries.map (Entry.pair text) := by
  induction entries generalizing kept seen p with
  | nil => exact alike
  | cons entry entries ih => exact ih (holds.add entry) (holds.insert alike entry)

theorem pairs_ofList_pair (text : Entry → String) (entries : List Entry) :
    (Props.ofList (entries.map (Entry.pair text))).pairs =
      (lastByName entries).map (Entry.pair text) :=
  Kept.holds_empty.merge rfl entries

end Properties

theorem lastByName_lastByName_append (earlier later : List Entry) :
    lastByName (lastByName earlier ++ later) = lastByName (earlier ++ later) := by
  have names : ((lastByName earlier ++ later).map Entry.name).eraseDups =
      ((earlier ++ later).map Entry.name).eraseDups := by
    rw [List.map_append, List.map_append, lastByName_names, NameMap.eraseDups_eraseDups_append]
  rw [lastByName_eq, lastByName_eq (earlier ++ later), names]
  simp only [Entry.lastNamed?_append_eq_or, lastNamed?_lastByName]

/-- Collapsing keeps the last entry of each name, where the name came first, and nothing else does.
Whatever text is taken from the entries, the properties collected from all of them are those of the
collapsed entries, in the same order. Entries that are collapsed before others follow make no
difference. -/
theorem lastByName_as_props :
    (∀ entries kept, Collapses entries kept ↔ kept = lastByName entries) ∧
    (∀ (text : Entry → String) entries, (Props.ofList (entries.map (Entry.pair text))).pairs =
      (lastByName entries).map (Entry.pair text)) ∧
    ∀ earlier later, lastByName (lastByName earlier ++ later) = lastByName (earlier ++ later) :=
  ⟨fun _ _ => collapses_iff, pairs_ofList_pair, lastByName_lastByName_append⟩

end Builder

end TypedRecords
