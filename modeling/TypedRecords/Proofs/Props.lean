import Mathlib.Data.List.Nodup
import Mathlib.Data.List.Perm.Subperm
import TypedRecords.Proofs.NameMap
import TypedRecords.Props

/-! Properties as maps. Keys are distinct, so that a pair is found by its key wherever it stands.
Properties are equal exactly if they have the same pairs, and then they give one map. -/
namespace TypedRecords.Props

theorem nodup_pairs (p : Props) : p.pairs.Nodup := .of_map Prod.fst p.nodup

theorem get?_eq_some_iff {p : Props} {key value : String} :
    p.get? key = some value ↔ (key, value) ∈ p.pairs :=
  NameMap.find?_eq_some_iff_of_nodup p.nodup

theorem find?_toNameMap (p : Props) (key : String) : p.toNameMap.find? key = p.get? key :=
  NameMap.find?_ofList_of_nodup p.nodup key

theorem perm_toNameMap (p : Props) : p.pairs.Perm p.toNameMap := by
  have sorted := NameMap.sorted_ofList p.pairs
  refine (List.perm_ext_iff_of_nodup p.nodup_pairs (.of_map Prod.fst sorted.nodup_names)).mpr
    fun ⟨key, value⟩ => ?_
  rw [← get?_eq_some_iff, ← find?_toNameMap]
  exact sorted.mem_iff.symm

/-- The comparison looks at the pairs of one side only, and at their number. -/
theorem beq_iff_perm {p q : Props} : (p == q) = true ↔ p.pairs.Perm q.pairs := by
  have unfolded : (p == q) = true ↔
      p.pairs.length = q.pairs.length ∧ ∀ pair ∈ p.pairs, pair ∈ q.pairs := by
    change p.same q = true ↔ _
    simp [same, size, get?_eq_some_iff]
  rw [unfolded]
  constructor
  · rintro ⟨sizes, within⟩
    exact (List.subperm_of_subset p.nodup_pairs within).perm_of_length_le sizes.ge
  · exact fun perm => ⟨perm.length_eq, fun pair => perm.mem_iff.mp⟩

theorem beq_iff_toNameMap {p q : Props} : (p == q) = true ↔ p.toNameMap = q.toNameMap := by
  rw [beq_iff_perm]
  constructor
  · intro perm
    exact (NameMap.sorted_ofList q.pairs).ofList_perm (perm.trans q.perm_toNameMap)
  · intro same
    exact p.perm_toNameMap.trans (same ▸ q.perm_toNameMap.symm)

theorem eq_of_pairs {p q : Props} (same : p.pairs = q.pairs) : p = q := by
  cases p
  cases q
  cases same
  rfl

/-- New keys go to the end. -/
theorem overwrite_of_notMem {key value : String} {pairs : List (String × String)}
    (fresh : key ∉ pairs.map Prod.fst) : overwrite key value pairs = pairs ++ [(key, value)] := by
  induction pairs with
  | nil => rfl
  | cons pair rest ih =>
    obtain ⟨k, v⟩ := pair
    simp only [List.map_cons, List.mem_cons, not_or] at fresh
    rw [overwrite, if_neg (Ne.symm fresh.1), ih fresh.2, List.cons_append]

/-- A key that is held is overwritten where it stands. -/
theorem overwrite_eq_set {key value : String} {pairs : List (String × String)} {position : Nat}
    (distinct : (pairs.map Prod.fst).Nodup)
    (place : (pairs.map Prod.fst)[position]? = some key) :
    overwrite key value pairs = pairs.set position (key, value) := by
  induction pairs generalizing position with
  | nil => simp at place
  | cons pair rest ih =>
    obtain ⟨k, v⟩ := pair
    rw [List.map_cons, List.nodup_cons] at distinct
    cases position with
    | zero =>
      obtain rfl : k = key := by simpa using place
      simp [overwrite]
    | succ position =>
      have later : (rest.map Prod.fst)[position]? = some key := by simpa using place
      have apart : k ≠ key := by
        rintro rfl
        exact distinct.1 (List.mem_of_getElem? later)
      rw [overwrite, if_neg apart, ih distinct.2 later, List.set_cons_succ]

theorem pairs_merge_of_nodup {pairs : List (String × String)} {p : Props}
    (distinct : ((p.pairs ++ pairs).map Prod.fst).Nodup) :
    (p.merge pairs).pairs = p.pairs ++ pairs := by
  induction pairs generalizing p with
  | nil => simp [merge]
  | cons pair rest ih =>
    obtain ⟨key, value⟩ := pair
    have fresh : key ∉ p.pairs.map Prod.fst := fun held => by
      rw [List.map_append, List.nodup_append] at distinct
      exact distinct.2.2 key held key (by simp) rfl
    have inserted : (p.insert key value).pairs = p.pairs ++ [(key, value)] :=
      overwrite_of_notMem fresh
    change ((p.insert key value).merge rest).pairs = _
    rw [ih (by rwa [inserted, List.append_assoc]), inserted, List.append_assoc]
    rfl

def normal (p : Props) : Props where
  pairs := p.toNameMap
  nodup := (p.perm_toNameMap.map Prod.fst).nodup_iff.mp p.nodup

theorem beq_iff_normal {p q : Props} : (p == q) = true ↔ p.normal = q.normal := by
  simp [beq_iff_toNameMap, normal]

/-- Read back from their map the properties stand in the order of their keys. -/
theorem ofList_toNameMap (p : Props) : ofList p.toNameMap = p.normal :=
  eq_of_pairs (pairs_merge_of_nodup (p := empty) p.normal.nodup)

@[simp] theorem toNameMap_normal (p : Props) : p.normal.toNameMap = p.toNameMap :=
  (NameMap.sorted_ofList p.pairs).ofList_perm (List.Perm.refl _)

end TypedRecords.Props
