import Mathlib.Order.Bounds.Basic
import TypedRecords.Proofs.Schema.Distinct

/-! What a draft of a schema freezes to. Its entries are read in order, each with the names before
it, so that the verdict on a list of entries is that on its beginning as long as this is at fault,
and otherwise depends on what comes next. The error is that of the first entry at fault. -/
namespace TypedRecords.SchemaDraft

/-- The entry at the position repeats a name, or it is an array or a record and does not say what
it holds. -/
def Faulty (entries : List Entry) (k : Nat) : Prop :=
  ∃ entry, entries[k]? = some entry ∧ (entry.name ∈ (entries.take k).map Entry.name ∨
    (entry.type = .array ∨ entry.type = .record) ∧ entry.element? = none)

/-- The fault of such an entry after entries of the names. A repeated name comes first. -/
def faultAfter (names : List String) (entry : Entry) : SchemaError :=
  if entry.name ∈ names then .duplicateEntry entry.name
  else .missingElementSchema entry.name entry.type

theorem lacksElement_iff {entry : Entry} : entry.lacksElement = true ↔
    (entry.type = .array ∨ entry.type = .record) ∧ entry.element? = none := by
  unfold Entry.lacksElement FieldType.needsElement
  cases entry.type <;> simp [FieldType.isPrimitive]

/-- The names that were seen count, and not their order. -/
theorem fault?_append (seen : List String) (earlier later : List Entry) :
    fault? seen (earlier ++ later) =
      (fault? seen earlier).or (fault? ((earlier.map Entry.name).reverse ++ seen) later) := by
  induction earlier generalizing seen with
  | nil => simp [fault?]
  | cons entry earlier ih =>
    simp only [List.cons_append, fault?, ih]
    split
    · rfl
    · split
      · rfl
      · simp

theorem fault?_concat (earlier : List Entry) (entry : Entry) :
    fault? [] (earlier ++ [entry]) = (fault? [] earlier).or
      (if entry.name ∈ earlier.map Entry.name ∨ entry.lacksElement = true then
        some (faultAfter (earlier.map Entry.name) entry) else none) := by
  rw [fault?_append]
  by_cases known : entry.name ∈ earlier.map Entry.name
  · simp [fault?, faultAfter, known]
  · cases lacks : entry.lacksElement <;> simp [fault?, faultAfter, known, lacks]

theorem faulty_append_of_lt {earlier later : List Entry} {k : Nat} (inside : k < earlier.length) :
    Faulty (earlier ++ later) k ↔ Faulty earlier k := by
  unfold Faulty
  rw [List.getElem?_append_left inside, List.take_append_of_le_length inside.le]

theorem faulty_length_iff {earlier later : List Entry} {entry : Entry} :
    Faulty (earlier ++ entry :: later) earlier.length ↔
      entry.name ∈ earlier.map Entry.name ∨ entry.lacksElement = true := by
  simp [Faulty, lacksElement_iff]

theorem Faulty.lt_length {entries : List Entry} {k : Nat} (faulty : Faulty entries k) :
    k < entries.length := by
  obtain ⟨entry, found, -⟩ := faulty
  exact (List.getElem?_eq_some_iff.mp found).1

theorem not_faulty_of_silent {entries : List Entry} (silent : fault? [] entries = none) (k : Nat) :
    ¬ Faulty entries k := by
  induction entries using List.reverseRecOn with
  | nil => simp [Faulty]
  | append_singleton earlier entry ih =>
    rw [fault?_concat, Option.or_eq_none_iff] at silent
    intro faulty
    have bound := faulty.lt_length
    rw [List.length_append, List.length_singleton] at bound
    rcases Nat.lt_succ_iff_lt_or_eq.mp bound with inside | rfl
    · exact ih silent.1 ((faulty_append_of_lt inside).mp faulty)
    · rw [if_pos (faulty_length_iff.mp faulty)] at silent
      cases silent.2

/-- What is found is the fault of an entry that comes after entries without fault. -/
theorem fault?_origin {entries : List Entry} {error : SchemaError}
    (found : fault? [] entries = some error) : ∃ earlier entry later,
      entries = earlier ++ entry :: later ∧ fault? [] earlier = none ∧
      Faulty entries earlier.length ∧ error = faultAfter (earlier.map Entry.name) entry := by
  induction entries using List.reverseRecOn with
  | nil => cases found
  | append_singleton entries last ih =>
    rw [fault?_concat] at found
    rcases Option.or_eq_some_iff.mp found with before | ⟨silent, here⟩
    · obtain ⟨earlier, entry, later, rfl, silent, faulty, rfl⟩ := ih before
      refine ⟨earlier, entry, later ++ [last], by simp, silent, ?_, rfl⟩
      exact (faulty_append_of_lt faulty.lt_length).mpr faulty
    · split at here
      · next atFault =>
        exact ⟨entries, last, [], rfl, silent, faulty_length_iff.mpr atFault,
          (Option.some.inj here).symm⟩
      · cases here

theorem fault?_eq_some_iff {entries : List Entry} {error : SchemaError} :
    fault? [] entries = some error ↔ ∃ k entry, IsLeast {k | Faulty entries k} k ∧
      entries[k]? = some entry ∧ error = faultAfter ((entries.take k).map Entry.name) entry := by
  have first : ∀ error, fault? [] entries = some error → ∃ k entry,
      IsLeast {k | Faulty entries k} k ∧ entries[k]? = some entry ∧
        error = faultAfter ((entries.take k).map Entry.name) entry := by
    intro error found
    obtain ⟨earlier, entry, later, split, silent, faulty, rfl⟩ := fault?_origin found
    refine ⟨earlier.length, entry, ⟨split ▸ faulty, fun k other => ?_⟩, by simp [split],
      by simp [split]⟩
    by_contra outside
    have inside : k < earlier.length := not_le.mp outside
    have before : Faulty earlier k := (faulty_append_of_lt inside).mp (split ▸ other)
    exact not_faulty_of_silent silent k before
  refine ⟨first error, ?_⟩
  rintro ⟨k, entry, least, isEntry, rfl⟩
  cases found : fault? [] entries with
  | none => exact absurd least.1 (not_faulty_of_silent found k)
  | some other =>
    obtain ⟨j, atJ, leastJ, isAtJ, rfl⟩ := first other found
    obtain rfl := least.unique leastJ
    rw [isEntry] at isAtJ
    rw [Option.some.inj isAtJ]

theorem freeze_eq_error_iff {draft : SchemaDraft} {error : SchemaError} :
    draft.freeze = .error error ↔ fault? [] draft.entries = some error := by
  unfold freeze
  cases fault? [] draft.entries <;> simp

/-- A draft freezes exactly if the names of its entries are distinct and its arrays and records have
element schemas, and into a schema of its parts. Otherwise the error is that of the first entry at
fault, and it stays the same whatever entries come after. -/
theorem freezing_verdict (draft : SchemaDraft) :
    (∀ schema, draft.freeze = .ok schema ↔
      schema = ⟨draft.type, draft.entries, draft.props⟩ ∧ (draft.entries.map Entry.name).Nodup ∧
        ∀ entry ∈ draft.entries, entry.type = .array ∨ entry.type = .record →
          ∃ element, entry.element? = some element) ∧
    (∀ error, draft.freeze = .error error ↔ ∃ k entry,
      IsLeast {k | Faulty draft.entries k} k ∧ draft.entries[k]? = some entry ∧
        error = if entry.name ∈ (draft.entries.take k).map Entry.name then
          .duplicateEntry entry.name else .missingElementSchema entry.name entry.type) ∧
    ∀ error, draft.freeze = .error error → ∀ longer : SchemaDraft,
      draft.entries <+: longer.entries → longer.freeze = .error error := by
  refine ⟨fun schema => ?_, fun error => freeze_eq_error_iff.trans fault?_eq_some_iff,
    fun error failed longer goesOn => ?_⟩
  · have described : (∀ entry ∈ draft.entries, entry.lacksElement = false) ↔
        ∀ entry ∈ draft.entries, entry.type = .array ∨ entry.type = .record →
          ∃ element, entry.element? = some element := by
      refine forall₂_congr fun entry _ => ?_
      rw [← Bool.not_eq_true, lacksElement_iff, not_and, ← Option.isSome_iff_exists,
        Option.isSome_iff_ne_none]
    rw [freeze_eq_ok_iff, ← described]
    constructor
    · rintro ⟨rfl, sound⟩
      exact ⟨rfl, sound⟩
    · rintro ⟨rfl, sound⟩
      exact ⟨rfl, sound⟩
  · obtain ⟨later, split⟩ := goesOn
    rw [freeze_eq_error_iff] at failed ⊢
    rw [← split, fault?_append, failed, Option.some_or]

/-- Of the two faults of one entry the repeated name is reported, and nothing that comes later. -/
theorem freezing_verdict_repeated :
    let entries : List Entry := [{ name := "a", type := .int }, { name := "a", type := .array }]
    freeze { entries } = .error (.duplicateEntry "a") ∧
      freeze { entries := entries ++ [{ name := "b", type := .record }] } =
        .error (.duplicateEntry "a") := by
  intro entries
  obtain ⟨-, fails_iff, stays⟩ := freezing_verdict { entries }
  have least : IsLeast {k | Faulty entries k} 1 := by
    refine ⟨⟨_, rfl, .inl (by simp [entries])⟩, fun k faulty => Nat.one_le_iff_ne_zero.mpr ?_⟩
    rintro rfl
    simp [Faulty, entries] at faulty
  have failed := (fails_iff (.duplicateEntry "a")).mpr ⟨1, _, least, rfl, rfl⟩
  exact ⟨failed, stays _ failed _ (List.prefix_append entries _)⟩

end TypedRecords.SchemaDraft
