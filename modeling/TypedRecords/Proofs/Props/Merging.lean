import Mathlib.Data.Finset.Card
import TypedRecords.Proofs.Props
import TypedRecords.Proofs.Schema.Distinct

/-! Properties as a summary of what was written. A key stands where it was written first and has the
value that was written last. Only the pairs count and the order in which they come, not the calls
that bring them: single writes, merges, or those of the draft of an entry or of a schema. -/
namespace TypedRecords

namespace Props

def LastWritten (written : List (String × String)) (key value : String) : Prop :=
  ∃ earlier later, written = earlier ++ (key, value) :: later ∧ key ∉ later.map Prod.fst

/-- What the properties are after the pairs have been written to empty ones. -/
structure Summarizes (p : Props) (written : List (String × String)) : Prop where
  keys : p.keys = (written.map Prod.fst).eraseDups
  distinct : p.keys.Nodup
  pairs : ∀ key value, (key, value) ∈ p.pairs ↔ LastWritten written key value
  size : p.size = (written.map Prod.fst).toFinset.card
  get? : ∀ key value, p.get? key = some value ↔ LastWritten written key value
  contains : ∀ key, p.contains key = true ↔ key ∈ written.map Prod.fst
  toNameMap : p.toNameMap.Perm p.pairs ∧ ∀ key, p.toNameMap.find? key = p.get? key

inductive Call
  | insert (key value : String)
  | merge (pairs : List (String × String))

def Call.written : Call → List (String × String)
  | insert key value => [(key, value)]
  | merge pairs => pairs

def call (p : Props) : Call → Props
  | .insert key value => (p.getThenInsert key value).2
  | .merge pairs => p.merge pairs

def run (p : Props) (calls : List Call) : Props := calls.foldl call p

section Merge

@[simp] theorem merge_nil (p : Props) : p.merge [] = p := rfl

theorem merge_append (p : Props) (xs ys : List (String × String)) :
    p.merge (xs ++ ys) = (p.merge xs).merge ys := List.foldl_append

theorem merge_concat (p : Props) (xs : List (String × String)) (key value : String) :
    p.merge (xs ++ [(key, value)]) = (p.merge xs).insert key value := merge_append p xs _

theorem overwrite_keys_of_mem {key value : String} {pairs : List (String × String)}
    (known : key ∈ pairs.map Prod.fst) :
    (overwrite key value pairs).map Prod.fst = pairs.map Prod.fst := by
  induction pairs with
  | nil => simp at known
  | cons pair rest ih =>
    obtain ⟨k, v⟩ := pair
    by_cases here : k = key
    · simp [overwrite, here]
    · have later : key ∈ rest.map Prod.fst := by simpa [Ne.symm here] using known
      simp [overwrite, here, ih later]

theorem keys_insert (p : Props) (key value : String) :
    (p.insert key value).keys = if key ∈ p.keys then p.keys else p.keys ++ [key] := by
  change (overwrite key value p.pairs).map Prod.fst = _
  split
  · next known => exact overwrite_keys_of_mem known
  · next fresh =>
    rw [overwrite_of_notMem fresh, List.map_append]
    rfl

theorem keys_merge (p : Props) (xs : List (String × String)) :
    (p.merge xs).keys = (p.keys ++ xs.map Prod.fst).eraseDups := by
  induction xs using List.reverseRecOn with
  | nil =>
    rw [merge_nil, List.map_nil, List.append_nil]
    exact (NameMap.eraseDups_of_nodup p.nodup).symm
  | append_singleton xs pair ih =>
    obtain ⟨key, value⟩ := pair
    rw [merge_concat, keys_insert, ih, List.map_append, ← List.append_assoc, List.map_singleton,
      NameMap.eraseDups_concat]
    simp only [List.mem_eraseDups]

theorem get?_merge (p : Props) (xs : List (String × String)) (key : String) :
    (p.merge xs).get? key = ((NameMap.ofList xs).find? key).or (p.get? key) := by
  induction xs using List.reverseRecOn with
  | nil => simp [NameMap.ofList]
  | append_singleton xs pair ih =>
    obtain ⟨other, value⟩ := pair
    rw [merge_concat, get?_insert, ih, NameMap.ofList_concat, NameMap.find?_insert]
    split <;> simp

/-- Properties are determined by the order of their keys and the value of each. -/
theorem ext_keys {p q : Props} (keys : p.keys = q.keys)
    (values : ∀ key, p.get? key = q.get? key) : p = q := by
  have listed (r : Props) : r.pairs = r.keys.filterMap fun key => (r.get? key).map (key, ·) := by
    rw [Props.keys, List.filterMap_map]
    have each : ∀ pair ∈ r.pairs,
        ((fun key => (r.get? key).map (key, ·)) ∘ Prod.fst) pair = some pair := by
      rintro ⟨key, value⟩ member
      simp [get?_eq_some_iff.mpr member]
    rw [List.filterMap_congr each, List.filterMap_some]
  refine eq_of_pairs ?_
  rw [listed p, listed q, keys]
  simp only [values]

/-- Pairs that are collected before they are merged are merged alike. -/
theorem merge_ofList (p : Props) (ys : List (String × String)) :
    p.merge (ofList ys).pairs = p.merge ys := by
  refine ext_keys ?_ fun key => ?_
  · have collected : (ofList ys).pairs.map Prod.fst = (ys.map Prod.fst).eraseDups :=
      keys_merge empty ys
    rw [keys_merge, keys_merge, collected, NameMap.eraseDups_append_eraseDups]
  · have collected : (NameMap.ofList (ofList ys).pairs).find? key =
        (NameMap.ofList ys).find? key := by
      rw [← toNameMap, find?_toNameMap, ofList, get?_merge, get?_empty, Option.or_none]
    rw [get?_merge, get?_merge, collected]

theorem ofList_append (xs ys : List (String × String)) :
    ofList (xs ++ ys) = (ofList xs).merge (ofList ys).pairs := by
  rw [merge_ofList]
  exact merge_append empty xs ys

theorem ofList_pairs (p : Props) : ofList p.pairs = p :=
  eq_of_pairs (pairs_merge_of_nodup (p := empty) p.nodup)

theorem merge_assoc (p q r : Props) :
    (p.merge q.pairs).merge r.pairs = p.merge (q.merge r.pairs).pairs := by
  have collected : q.merge r.pairs = ofList (q.pairs ++ r.pairs) := by
    rw [ofList_append, ofList_pairs, ofList_pairs]
  rw [collected, merge_ofList, merge_append]

end Merge

section Summary

theorem find?_ofList_eq_some_iff {written : List (String × String)} {key value : String} :
    (NameMap.ofList written).find? key = some value ↔ LastWritten written key value := by
  have unwritten_iff (later : List (String × String)) :
      (∀ pair ∈ later, (pair.1 == key) = false) ↔ key ∉ later.map Prod.fst := by
    simp only [beq_eq_false_iff_ne, ne_eq, List.mem_map, not_exists, not_and]
  rw [NameMap.find?_ofList, Option.map_eq_some_iff]
  simp only [NameMap.find?_reverse_eq_some_iff, unwritten_iff, beq_iff_eq]
  constructor
  · rintro ⟨⟨_, _⟩, ⟨rfl, last⟩, rfl⟩
    exact last
  · exact fun last => ⟨(key, value), ⟨rfl, last⟩, rfl⟩

theorem get?_ofList_eq_some_iff {written : List (String × String)} {key value : String} :
    (ofList written).get? key = some value ↔ LastWritten written key value := by
  rw [ofList, get?_merge, get?_empty, Option.or_none, find?_ofList_eq_some_iff]

theorem keys_ofList (written : List (String × String)) :
    (ofList written).keys = (written.map Prod.fst).eraseDups := keys_merge empty written

theorem summarizes_ofList (written : List (String × String)) :
    (ofList written).Summarizes written where
  keys := keys_ofList written
  distinct := (ofList written).nodup
  pairs key value := by rw [← get?_eq_some_iff, get?_ofList_eq_some_iff]
  size := by
    have same : (written.map Prod.fst).toFinset = (ofList written).keys.toFinset := by
      ext key
      simp [keys_ofList]
    have counted := List.toFinset_card_of_nodup (ofList written).nodup
    rw [same, Props.keys, counted, List.length_map]
    rfl
  get? _ _ := get?_ofList_eq_some_iff
  contains key := by
    rw [← List.mem_eraseDups, ← keys_ofList, contains, Option.isSome_iff_exists]
    simp [get?_eq_some_iff, Props.keys]
  toNameMap := ⟨(perm_toNameMap _).symm, find?_toNameMap _⟩

/-- Where every call merges the pairs that it writes, a run of calls merges them all. -/
theorem foldl_merges {State Call : Type} (step : State → Call → State) (props : State → Props)
    (written : Call → List (String × String))
    (each : ∀ state call, props (step state call) = (props state).merge (written call))
    (state : State) (calls : List Call) :
    props (calls.foldl step state) = (props state).merge (calls.flatMap written) := by
  induction calls generalizing state with
  | nil => rfl
  | cons call calls ih => rw [List.foldl_cons, ih, each, List.flatMap_cons, merge_append]

theorem call_eq_merge (p : Props) (c : Call) : p.call c = p.merge c.written := by
  cases c <;> rfl

theorem run_eq_ofList (calls : List Call) :
    empty.run calls = ofList (calls.flatMap Call.written) :=
  foldl_merges call id Call.written call_eq_merge empty calls

end Summary

end Props

inductive EntryDraft.Call
  | name (name : String)
  | rawName (name : String)
  | type (type : FieldType)
  | nullable (nullable : Bool)
  | element (schema : Schema)
  | comment (text : String)
  | prop (key value : String)
  | props (pairs : List (String × String))

namespace EntryDraft

def Call.written : Call → List (String × String)
  | prop key value => [(key, value)]
  | props pairs => pairs
  | _ => []

def call (draft : EntryDraft) : Call → EntryDraft
  | .name name => { draft with name? := some name }
  | .rawName name => { draft with rawName? := some name }
  | .type type => { draft with type? := some type }
  | .nullable nullable => { draft with nullable }
  | .element schema => { draft with element? := some schema }
  | .comment text => { draft with comment? := some text }
  | .prop key value => draft.addProp key value
  | .props pairs => draft.addProps pairs

def run (draft : EntryDraft) (calls : List Call) : EntryDraft := calls.foldl call draft

theorem call_props (draft : EntryDraft) (c : Call) :
    (draft.call c).props = draft.props.merge c.written := by
  cases c <;> rfl

theorem run_props (calls : List Call) :
    (run {} calls).props = .ofList (calls.flatMap Call.written) :=
  Props.foldl_merges call EntryDraft.props Call.written call_props {} calls

theorem props_of_freeze {draft : EntryDraft} {entry : Entry} (frozen : draft.freeze = .ok entry) :
    entry.props = draft.props := by
  unfold freeze at frozen
  split at frozen
  · cases frozen
  · split at frozen
    · cases frozen
    · split at frozen
      · cases frozen
      · exact Except.ok.inj frozen ▸ rfl

end EntryDraft

inductive SchemaDraft.Call
  | type (type : FieldType)
  | entry (entry : Entry)
  | prop (key value : String)
  | props (pairs : List (String × String))

namespace SchemaDraft

def Call.written : Call → List (String × String)
  | prop key value => [(key, value)]
  | props pairs => pairs
  | _ => []

def call (draft : SchemaDraft) : Call → SchemaDraft
  | .type type => { draft with type }
  | .entry entry => draft.addEntry entry
  | .prop key value => draft.addProp key value
  | .props pairs => draft.addProps pairs

def run (draft : SchemaDraft) (calls : List Call) : SchemaDraft := calls.foldl call draft

theorem call_props (draft : SchemaDraft) (c : Call) :
    (draft.call c).props = draft.props.merge c.written := by
  cases c <;> rfl

theorem run_props (calls : List Call) :
    (run {} calls).props = .ofList (calls.flatMap Call.written) :=
  Props.foldl_merges call SchemaDraft.props Call.written call_props {} calls

end SchemaDraft

/-- Properties that were written to empty ones by any calls are the summary of the written pairs,
and an insertion answers with the value that came last before it. Merging collected pairs is the
same as collecting them with the others, so that it is associative. The calls on the draft of an
entry or of a schema write the same summary, and freezing keeps it. -/
theorem Props.writes_summarized :
    (∀ calls : List Props.Call,
      (Props.empty.run calls).Summarizes (calls.flatMap Props.Call.written) ∧
      ∀ key value held, ((Props.empty.run calls).getThenInsert key value).1 = some held ↔
        LastWritten (calls.flatMap Props.Call.written) key held) ∧
    (∀ xs ys, ofList (xs ++ ys) = (ofList xs).merge (ofList ys).pairs) ∧
    (∀ p q r : Props, (p.merge q.pairs).merge r.pairs = p.merge (q.merge r.pairs).pairs) ∧
    (∀ calls : List EntryDraft.Call,
      (EntryDraft.run {} calls).props.Summarizes (calls.flatMap EntryDraft.Call.written) ∧
      ∀ entry, (EntryDraft.run {} calls).freeze = .ok entry →
        entry.props.Summarizes (calls.flatMap EntryDraft.Call.written)) ∧
    ∀ calls : List SchemaDraft.Call,
      (SchemaDraft.run {} calls).props.Summarizes (calls.flatMap SchemaDraft.Call.written) ∧
      ∀ schema, (SchemaDraft.run {} calls).freeze = .ok schema →
        schema.props.Summarizes (calls.flatMap SchemaDraft.Call.written) := by
  refine ⟨fun calls => ⟨?_, fun key value held => ?_⟩, ofList_append, merge_assoc,
    fun calls => ⟨?_, fun entry frozen => ?_⟩, fun calls => ⟨?_, fun schema frozen => ?_⟩⟩
  · rw [run_eq_ofList]
    exact summarizes_ofList _
  · rw [run_eq_ofList]
    exact get?_ofList_eq_some_iff
  · rw [EntryDraft.run_props]
    exact summarizes_ofList _
  · rw [EntryDraft.props_of_freeze frozen, EntryDraft.run_props]
    exact summarizes_ofList _
  · rw [SchemaDraft.run_props]
    exact summarizes_ofList _
  · obtain ⟨rfl, -⟩ := SchemaDraft.freeze_eq_ok_iff.mp frozen
    rw [SchemaDraft.run_props]
    exact summarizes_ofList _

/-- A key that is written by both kinds of calls, around others. -/
theorem Props.writes_summarized_rewritten :
    let calls : List EntryDraft.Call := [.prop "unit" "m", .name "depth",
      .props [("at", "sea"), ("unit", "km")], .type .int, .prop "at" "lake"]
    ∃ entry, (EntryDraft.run {} calls).freeze = .ok entry ∧
      entry.props.pairs = [("unit", "km"), ("at", "lake")] ∧
      entry.props.Summarizes [("unit", "m"), ("at", "sea"), ("unit", "km"), ("at", "lake")] := by
  intro calls
  obtain ⟨-, -, -, entries, -⟩ := writes_summarized
  have frozen : (EntryDraft.run {} calls).freeze = .ok
      { name := "depth", type := .int, props := .ofList [("unit", "km"), ("at", "lake")] } := rfl
  exact ⟨_, frozen, rfl, (entries calls).2 _ frozen⟩

end TypedRecords
