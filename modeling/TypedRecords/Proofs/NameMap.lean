import Mathlib.Data.List.Induction
import Mathlib.Data.List.Nodup
import Mathlib.Data.String.Basic
import TypedRecords.NameMap

/-! Names in the order in which they occur first, searches from the end, and the order of a map.
Maps whose names increase are determined by what they find, and every map that is built from the
empty one is of this form. -/
namespace TypedRecords.NameMap

section FirstOccurrences

theorem eraseDups_concat (names : List String) (name : String) :
    (names ++ [name]).eraseDups =
      if name ∈ names then names.eraseDups else names.eraseDups ++ [name] := by
  rw [List.eraseDups_append]
  split
  · next known => simp [List.removeAll, known]
  · next unknown => simp [List.removeAll, unknown, List.eraseDups_cons]

theorem nodup_eraseDups (names : List String) : names.eraseDups.Nodup := by
  induction names using List.reverseRecOn with
  | nil => simp
  | append_singleton names name ih =>
    rw [eraseDups_concat]
    split
    · exact ih
    · next fresh =>
      refine ih.append (List.nodup_singleton name) (List.disjoint_singleton.mpr ?_)
      rwa [List.mem_eraseDups]

theorem eraseDups_of_nodup {names : List String} (distinct : names.Nodup) :
    names.eraseDups = names := by
  induction names using List.reverseRecOn with
  | nil => simp
  | append_singleton names name ih =>
    obtain ⟨before, -, apart⟩ := List.nodup_append.mp distinct
    have fresh : name ∉ names := fun known => apart name known name (by simp) rfl
    rw [eraseDups_concat, if_neg fresh, ih before]

/-- Names that repeat make no difference before others. -/
theorem eraseDups_eraseDups_append (names others : List String) :
    (names.eraseDups ++ others).eraseDups = (names ++ others).eraseDups := by
  have same : others.removeAll names.eraseDups = others.removeAll names := by
    simp [List.removeAll]
  rw [List.eraseDups_append, List.eraseDups_append, same,
    eraseDups_of_nodup (nodup_eraseDups names)]

/-- Occurrences that are not the first make no difference in what follows either. -/
theorem eraseDups_append_eraseDups (names others : List String) :
    (names ++ others.eraseDups).eraseDups = (names ++ others).eraseDups := by
  induction others using List.reverseRecOn with
  | nil => simp
  | append_singleton others name ih =>
    rw [eraseDups_concat, ← List.append_assoc, eraseDups_concat]
    split
    · next known => rw [ih, if_pos (List.mem_append_right names known)]
    · next fresh =>
      rw [← List.append_assoc, eraseDups_concat, ih]
      simp only [List.mem_append, List.mem_eraseDups]

end FirstOccurrences

variable {α : Type}

/-- A search from the end finds the element that has the property, if none after it has it. -/
theorem find?_reverse_eq_some_iff {holds : α → Bool} {xs : List α} {x : α} :
    xs.reverse.find? holds = some x ↔ holds x = true ∧
      ∃ earlier later, xs = earlier ++ x :: later ∧ ∀ y ∈ later, holds y = false := by
  rw [List.find?_eq_some_iff_append]
  refine and_congr_right fun _ => ⟨?_, ?_⟩
  · rintro ⟨later, earlier, reversed, lacking⟩
    refine ⟨earlier.reverse, later.reverse, ?_, by simpa using lacking⟩
    rw [← xs.reverse_reverse, reversed]
    simp
  · rintro ⟨earlier, later, rfl, lacking⟩
    exact ⟨later.reverse, earlier.reverse, by simp, by simpa using lacking⟩

/-- The names increase from pair to pair, so that each occurs once. -/
def Sorted (m : NameMap α) : Prop := m.Pairwise fun p q => p.1 < q.1

theorem sorted_empty : Sorted (empty : NameMap α) := List.Pairwise.nil

theorem mem_insert {name : String} {value : α} {m : NameMap α} {pair : String × α}
    (member : pair ∈ m.insert name value) : pair = (name, value) ∨ pair ∈ m := by
  induction m with
  | nil => simpa [insert] using member
  | cons head rest ih =>
    obtain ⟨key, held⟩ := head
    simp only [insert] at member
    split at member
    · exact (List.mem_cons.mp member).imp_right (List.mem_cons_of_mem _)
    · split at member
      · exact List.mem_cons.mp member
      · rcases List.mem_cons.mp member with rfl | later
        · exact .inr List.mem_cons_self
        · exact (ih later).imp_right (List.mem_cons_of_mem _)

theorem Sorted.insert {m : NameMap α} (sorted : Sorted m) (name : String) (value : α) :
    Sorted (m.insert name value) := by
  induction m with
  | nil => simp [NameMap.insert, Sorted]
  | cons head rest ih =>
    obtain ⟨key, held⟩ := head
    obtain ⟨above, tail⟩ := List.pairwise_cons.mp sorted
    simp only [NameMap.insert]
    split
    · next same =>
      subst same
      exact List.pairwise_cons.mpr ⟨above, tail⟩
    · next apart =>
      split
      · next before =>
        refine List.pairwise_cons.mpr ⟨fun pair member => ?_, sorted⟩
        rcases List.mem_cons.mp member with rfl | later
        · exact before
        · exact before.trans (above pair later)
      · next notBefore =>
        refine List.pairwise_cons.mpr ⟨fun pair member => ?_, ih tail⟩
        rcases mem_insert member with rfl | later
        · exact lt_of_le_of_ne (not_lt.mp notBefore) (Ne.symm apart)
        · exact above pair later

theorem Sorted.erase {m : NameMap α} (sorted : Sorted m) (name : String) :
    Sorted (m.erase name) :=
  sorted.filter _

theorem sorted_ofList (pairs : List (String × α)) : Sorted (ofList pairs) := by
  suffices h : ∀ m : NameMap α, Sorted m →
      Sorted (pairs.foldl (fun m pair => m.insert pair.1 pair.2) m) from h empty sorted_empty
  intro m sorted
  induction pairs generalizing m with
  | nil => exact sorted
  | cons pair pairs ih => exact ih _ (sorted.insert pair.1 pair.2)

theorem ofList_concat (pairs : List (String × α)) (name : String) (value : α) :
    ofList (pairs ++ [(name, value)]) = (ofList pairs).insert name value := List.foldl_append

theorem mem_of_find? {m : NameMap α} {name : String} {value : α}
    (found : m.find? name = some value) : (name, value) ∈ m := by
  induction m with
  | nil => simp [find?] at found
  | cons head rest ih =>
    obtain ⟨key, held⟩ := head
    simp only [find?] at found
    split at found
    · next same =>
      obtain rfl := Option.some.inj found
      exact same ▸ List.mem_cons_self
    · exact List.mem_cons_of_mem _ (ih found)

/-- Where each name occurs once, no pair is hidden behind another one. -/
theorem find?_eq_some_iff_of_nodup {m : NameMap α} (distinct : (m.map Prod.fst).Nodup)
    {name : String} {value : α} : m.find? name = some value ↔ (name, value) ∈ m := by
  refine ⟨mem_of_find?, fun member => ?_⟩
  induction m with
  | nil => simp at member
  | cons head rest ih =>
    obtain ⟨key, held⟩ := head
    rw [List.map_cons, List.nodup_cons] at distinct
    rcases List.mem_cons.mp member with same | later
    · obtain ⟨rfl, rfl⟩ := Prod.mk.inj same
      simp [find?]
    · have apart : key ≠ name := by
        rintro rfl
        exact distinct.1 (List.mem_map.mpr ⟨_, later, rfl⟩)
      simp [find?, apart, ih distinct.2 later]

theorem Sorted.nodup_names {m : NameMap α} (sorted : Sorted m) : (m.map Prod.fst).Nodup :=
  List.pairwise_map.mpr (List.Pairwise.imp (fun before => before.ne) sorted)

theorem Sorted.find?_of_mem {m : NameMap α} (sorted : Sorted m) {name : String} {value : α}
    (member : (name, value) ∈ m) : m.find? name = some value :=
  (find?_eq_some_iff_of_nodup sorted.nodup_names).mpr member

theorem Sorted.mem_iff {m : NameMap α} (sorted : Sorted m) {name : String} {value : α} :
    (name, value) ∈ m ↔ m.find? name = some value :=
  (find?_eq_some_iff_of_nodup sorted.nodup_names).symm

/-- Both sides are ordered, so that it is enough that they have the same pairs. -/
theorem Sorted.ext {m n : NameMap α} (left : Sorted m) (right : Sorted n)
    (same : ∀ name, m.find? name = n.find? name) : m = n := by
  have pairs : m.Perm n := by
    refine (List.perm_ext_iff_of_nodup (.of_map Prod.fst left.nodup_names)
      (.of_map Prod.fst right.nodup_names)).mpr fun ⟨name, value⟩ => ?_
    rw [left.mem_iff, right.mem_iff, same name]
  refine pairs.eq_of_pairwise (fun p q _ _ before after => ?_) left right
  exact absurd (before.trans after) (lt_irrefl _)

theorem find?_ofList (pairs : List (String × α)) (name : String) :
    (ofList pairs).find? name = (pairs.reverse.find? fun pair => pair.1 == name).map Prod.snd := by
  suffices h : ∀ m : NameMap α,
      (pairs.foldl (fun m pair => m.insert pair.1 pair.2) m).find? name =
        ((pairs.reverse.find? fun pair => pair.1 == name).map Prod.snd).or (m.find? name) by
    simpa [ofList] using h empty
  intro m
  induction pairs generalizing m with
  | nil => simp
  | cons pair pairs ih =>
    obtain ⟨key, value⟩ := pair
    rw [List.foldl_cons, ih, find?_insert, List.reverse_cons, List.find?_append]
    cases pairs.reverse.find? fun pair => pair.1 == name with
    | some found => simp
    | none =>
      by_cases same : name = key
      · simp [same]
      · simp [same, Ne.symm same]

/-- Of pairs with different names each counts, and a map finds what their list finds. -/
theorem find?_ofList_of_nodup {pairs : List (String × α)} (distinct : (pairs.map Prod.fst).Nodup)
    (name : String) : (ofList pairs).find? name = find? name pairs := by
  rw [find?_ofList]
  cases found : pairs.reverse.find? fun pair => pair.1 == name with
  | some pair =>
    have member : pair ∈ pairs := List.mem_reverse.mp (List.mem_of_find?_eq_some found)
    have named : pair.1 = name := by simpa using List.find?_some found
    exact ((find?_eq_some_iff_of_nodup distinct).mpr (named ▸ member)).symm
  | none =>
    cases held : find? name pairs with
    | none => rfl
    | some v =>
      have member := List.mem_reverse.mpr (mem_of_find? held)
      exact absurd (List.find?_eq_none.mp found _ member) (by simp)

/-- The pairs of a sorted map give the map, in whatever order they are inserted. -/
theorem Sorted.ofList_perm {m : NameMap α} (sorted : Sorted m) {pairs : List (String × α)}
    (perm : pairs.Perm m) : ofList pairs = m := by
  have distinct : (pairs.map Prod.fst).Nodup :=
    (perm.map Prod.fst).nodup_iff.mpr sorted.nodup_names
  refine (sorted_ofList pairs).ext sorted fun name => ?_
  rw [find?_ofList_of_nodup distinct]
  ext value
  rw [find?_eq_some_iff_of_nodup distinct, perm.mem_iff, sorted.mem_iff]

section MapValues

variable {β : Type} (f : String → α → β)

theorem Sorted.map_values {m : NameMap α} (sorted : Sorted m) :
    Sorted (m.map fun pair => (pair.1, f pair.1 pair.2)) :=
  List.pairwise_map.mpr sorted

theorem find?_map_values (m : NameMap α) (name : String) :
    find? name (m.map fun pair => (pair.1, f pair.1 pair.2)) = (m.find? name).map (f name) := by
  induction m with
  | nil => rfl
  | cons pair rest ih =>
    obtain ⟨key, held⟩ := pair
    by_cases here : key = name
    · simp [find?, here]
    · simp [find?, here, ih]

end MapValues

end TypedRecords.NameMap
