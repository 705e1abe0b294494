import TypedRecords.Proofs.Props
import TypedRecords.Schema

/-! Equality of schemas as equality of normal forms. A normal form has its properties in the order
of their keys, at every depth, and is otherwise the schema itself: two schemas are equal exactly if
they differ in nothing but the order of properties. -/
namespace TypedRecords

mutual

def Schema.normal : Schema → Schema
  | ⟨type, entries, props⟩ => ⟨type, normalEntries entries, props.normal⟩

def Entry.normal : Entry → Entry
  | ⟨name, rawName?, type, nullable, element?, comment?, props⟩ =>
    ⟨name, rawName?, type, nullable, normalElement element?, comment?, props.normal⟩

def normalElement : Option Schema → Option Schema
  | none => none
  | some schema => some schema.normal

def normalEntries : List Entry → List Entry
  | [] => []
  | entry :: entries => entry.normal :: normalEntries entries

end

mutual

theorem Schema.same_iff_normal : ∀ schema other : Schema,
    schema.same other = true ↔ schema.normal = other.normal
  | ⟨type, entries, props⟩, ⟨otherType, others, otherProps⟩ => by
    simp [Schema.same, Schema.normal, sameEntries_iff_normal entries others,
      Props.beq_iff_normal, and_assoc]

theorem Entry.same_iff_normal : ∀ entry other : Entry,
    entry.same other = true ↔ entry.normal = other.normal
  | ⟨name, rawName?, type, nullable, element?, comment?, props⟩, ⟨_, _, _, _, other?, _, _⟩ => by
    simp [Entry.same, Entry.normal, sameElement_iff_normal element? other?,
      Props.beq_iff_normal, and_assoc]

theorem sameElement_iff_normal : ∀ element? other? : Option Schema,
    sameElement element? other? = true ↔ normalElement element? = normalElement other?
  | none, none | none, some _ | some _, none => by simp [sameElement, normalElement]
  | some schema, some other => by
    simp [sameElement, normalElement, Schema.same_iff_normal schema other]

theorem sameEntries_iff_normal : ∀ entries others : List Entry,
    sameEntries entries others = true ↔ normalEntries entries = normalEntries others
  | [], [] | [], _ :: _ | _ :: _, [] => by simp [sameEntries, normalEntries]
  | entry :: entries, other :: others => by
    simp [sameEntries, normalEntries, Entry.same_iff_normal entry other,
      sameEntries_iff_normal entries others]

end

theorem normalEntries_eq_map : ∀ entries : List Entry,
    normalEntries entries = entries.map Entry.normal
  | [] => rfl
  | _ :: entries => by rw [normalEntries, normalEntries_eq_map entries, List.map_cons]

theorem Schema.beq_iff_normal {schema other : Schema} :
    (schema == other) = true ↔ schema.normal = other.normal :=
  Schema.same_iff_normal schema other

theorem Schema.beq_equivalence :
    Equivalence fun schema other : Schema => (schema == other) = true := by
  simp only [Schema.beq_iff_normal]
  exact ⟨fun _ => rfl, Eq.symm, Eq.trans⟩

end TypedRecords
