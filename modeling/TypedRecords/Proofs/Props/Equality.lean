import TypedRecords.Proofs.Props.Merging

/-! Equality of properties is equality of maps. The comparison looks for the pairs of one side in
the other and counts both, and yet it makes no difference which side it starts from: keys are
distinct, so that as many pairs of the one as the other has are all that the other has. What is
equal stays equal when the same pairs are merged into it. -/
namespace TypedRecords.Props

theorem toNameMap_eq_iff {p q : Props} :
    p.toNameMap = q.toNameMap ↔ ∀ key, p.toNameMap.find? key = q.toNameMap.find? key := by
  constructor
  · intro same key
    rw [same]
  · exact (NameMap.sorted_ofList p.pairs).ext (NameMap.sorted_ofList q.pairs)

/-- Properties are equal exactly if no reader of a single key can tell them apart. -/
theorem beq_iff_get? {p q : Props} : (p == q) = true ↔ ∀ key, p.get? key = q.get? key := by
  rw [beq_iff_toNameMap, toNameMap_eq_iff]
  simp only [find?_toNameMap]

theorem beq_equivalence : Equivalence fun p q : Props => (p == q) = true := by
  simp only [beq_iff_get?]
  exact ⟨fun _ _ => rfl, fun same key => (same key).symm,
    fun same other key => (same key).trans (other key)⟩

theorem merge_beq {p q : Props} (same : (p == q) = true) (pairs : List (String × String)) :
    (p.merge pairs == q.merge pairs) = true := by
  rw [beq_iff_get?] at same ⊢
  intro key
  rw [get?_merge, get?_merge, same]

/-- Any properties can be written to empty ones. -/
theorem exists_run (p : Props) : ∃ calls, empty.run calls = p :=
  ⟨[.merge p.pairs], ofList_pairs p⟩

/-- Properties, which are all that calls on empty ones can give, are equal exactly if their maps
are, and exactly if they have the same pairs in some order. This is an equivalence, and merging
keeps it. -/
theorem beq_as_maps :
    (∀ p : Props, ∃ calls, empty.run calls = p) ∧
    (∀ p q : Props,
      ((p == q) = true ↔ p.toNameMap = q.toNameMap) ∧
      (p.toNameMap = q.toNameMap ↔ ∀ key, p.toNameMap.find? key = q.toNameMap.find? key) ∧
      ((p == q) = true ↔ q.pairs.Perm p.pairs)) ∧
    (Equivalence fun p q : Props => (p == q) = true) ∧
    ∀ p q : Props, (p == q) = true → ∀ pairs, (p.merge pairs == q.merge pairs) = true :=
  ⟨exists_run, fun _ _ => ⟨beq_iff_toNameMap, toNameMap_eq_iff, beq_iff_perm.trans List.perm_comm⟩,
    beq_equivalence, fun _ _ => merge_beq⟩

/-- A new key and one that is overwritten, each in the order of its own side. -/
theorem beq_as_maps_swapped :
    let p := ofList [("unit", "m"), ("at", "sea")]
    let q := ofList [("at", "sea"), ("unit", "m")]
    let later := [("by", "crew"), ("unit", "km")]
    (p == q) = true ∧ (p.merge later == q.merge later) = true ∧
      (p.merge later).pairs = [("unit", "km"), ("at", "sea"), ("by", "crew")] ∧
      (q.merge later).pairs = [("at", "sea"), ("unit", "km"), ("by", "crew")] := by
  intro p q later
  obtain ⟨-, equal_iff, -, merged⟩ := beq_as_maps
  have same : (p == q) = true := (equal_iff p q).2.2.mpr (.swap ..)
  exact ⟨same, merged p q same later, rfl, rfl⟩

end TypedRecords.Props
