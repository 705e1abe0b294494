import Mathlib.Data.List.Nodup
import TypedRecords.Proofs.Builder.Reachable
import TypedRecords.Schema.Outline

/-! What the outline of a schema shows. Entries are met depth first, each at its indentation: every
one of them has a line of its own, and after this line, further to the right, the entries below it
and then its properties under their header. The properties of the schema itself come last. Those of
the element schemas in it are left out: the outline is the same without them. -/
namespace TypedRecords

/-- The entry belongs to the schema, or at some depth to what an array or a record in it holds. -/
inductive Schema.Describes : Schema → Entry → Prop
  | listed {schema : Schema} {entry : Entry} (member : entry ∈ schema.entries) :
      Schema.Describes schema entry
  | nested {schema element : Schema} {parent entry : Entry} (member : parent ∈ schema.entries)
      (holds : parent.type = .array ∨ parent.type = .record)
      (own : parent.element? = some element) (inside : Schema.Describes element entry) :
      Schema.Describes schema entry

mutual

def Entry.bare : Entry → Entry
  | ⟨name, rawName?, type, nullable, element?, comment?, props⟩ =>
    ⟨name, rawName?, type, nullable, bareElement element?, comment?, props⟩

def bareElement : Option Schema → Option Schema
  | none => none
  | some ⟨type, entries, _⟩ => some ⟨type, bareEntries entries, .empty⟩

def bareEntries : List Entry → List Entry
  | [] => []
  | entry :: entries => entry.bare :: bareEntries entries

end

/-- The element schemas in it, at every depth, lose their properties. -/
def Schema.bare (schema : Schema) : Schema := { schema with entries := bareEntries schema.entries }

namespace Outline

def Indented (indent : Nat) (text : String) : Prop := ∃ rest, text = line indent rest

/-- Every property has a line of its own below a header, and nothing comes between that stands
further to the left. -/
def Lists (indent : Nat) (props : Props) (lines : List String) : Prop :=
  ∀ key value, (key, value) ∈ props.pairs → ∃ front back,
    lines = line indent "props:" :: (front ++ line (indent + 4) (key ++ ": " ++ value) :: back) ∧
      ∀ text ∈ front, Indented (indent + 4) text

def headLine (indent : Nat) (entry : Entry) : String :=
  if entry.type.isPrimitive && entry.props.isEmpty then
    line indent
      (entry.name ++ ": \x7b type: " ++ entry.type.name ++ ", " ++ flag entry.nullable ++ " \x7d")
  else line indent (entry.name ++ ":")

abbrev Place := Nat × Entry

def headLines (places : List Place) : List String :=
  places.map fun place => headLine place.1 place.2

mutual

def entryPlaces (indent : Nat) : Entry → List Place
  | ⟨name, rawName?, type, nullable, element?, comment?, props⟩ =>
    (indent, ⟨name, rawName?, type, nullable, element?, comment?, props⟩) ::
      contentPlaces (indent + 4) type element?

def contentPlaces (indent : Nat) (type : FieldType) : Option Schema → List Place
  | none => []
  | some ⟨_, entries, _⟩ =>
    match type with
    | .record => entriesPlaces (indent + 4) entries
    | .array => entriesPlaces (indent + 8) entries
    | _ => []

def entriesPlaces (indent : Nat) : List Entry → List Place
  | [] => []
  | entry :: entries => entryPlaces indent entry ++ entriesPlaces indent entries

end

/-- In the order of the places, each entry has its own line, and below it a block of lines that
stand further to the right and end with its properties. -/
def Arranged (lines : List String) (places : List Place) : Prop :=
  ∀ earlier indent entry later, places = earlier ++ (indent, entry) :: later →
    ∃ before inner listing after,
      lines = before ++ headLine indent entry :: (inner ++ listing ++ after) ∧
      (∀ text ∈ inner, Indented (indent + 4) text) ∧ Lists (indent + 4) entry.props listing ∧
      (headLines earlier).Sublist before ∧ (headLines later).Sublist (inner ++ after)

section Indentation

theorem blanks_add (m n : Nat) : "".pushn ' ' (m + n) = "".pushn ' ' m ++ "".pushn ' ' n := by
  induction n with
  | zero => simp [String.pushn, Nat.repeat]
  | succ n ih =>
    change ("".pushn ' ' (m + n)).push ' ' = "".pushn ' ' m ++ ("".pushn ' ' n).push ' '
    rw [ih]
    apply String.toList_inj.mp
    simp

theorem indented_line {m n : Nat} (within : m ≤ n) (text : String) : Indented m (line n text) := by
  obtain ⟨deeper, rfl⟩ := Nat.exists_eq_add_of_le within
  exact ⟨line deeper text, by rw [line, line, line, blanks_add, String.append_assoc]⟩

theorem Indented.mono {m n : Nat} {text : String} (within : m ≤ n) (indented : Indented n text) :
    Indented m text := by
  obtain ⟨rest, rfl⟩ := indented
  exact indented_line within rest

theorem propLines_indented (indent : Nat) (props : Props) :
    ∀ text ∈ propLines indent props, Indented indent text := by
  intro text member
  unfold propLines at member
  split at member
  · cases member
  · rcases List.mem_cons.mp member with rfl | listed
    · exact indented_line le_rfl _
    · obtain ⟨pair, -, rfl⟩ := List.mem_map.mp listed
      exact indented_line (Nat.le_add_right indent 4) _

mutual

theorem entryLines_indented (indent : Nat) : ∀ entry : Entry,
    ∀ text ∈ entryLines indent entry, Indented indent text
  | ⟨name, rawName?, type, nullable, element?, comment?, props⟩, text, member => by
    rw [entryLines] at member
    split at member
    · obtain rfl := List.mem_singleton.mp member
      exact indented_line le_rfl _
    · simp only [List.cons_append, List.mem_cons, List.mem_append] at member
      have inner : indent ≤ indent + 4 := Nat.le_add_right indent 4
      obtain rfl | rfl | rfl | content | listed := member
      · exact indented_line le_rfl _
      · exact indented_line inner _
      · exact indented_line inner _
      · exact (contentLines_indented (indent + 4) type element? text content).mono inner
      · exact (propLines_indented (indent + 4) props text listed).mono inner

theorem contentLines_indented (indent : Nat) (type : FieldType) : ∀ element? : Option Schema,
    ∀ text ∈ contentLines indent type element?, Indented indent text
  | none, text, member => by simp [contentLines] at member
  | some ⟨elementType, entries, props⟩, text, member => by
    rw [contentLines.eq_def] at member
    dsimp only at member
    split at member
    · rcases List.mem_cons.mp member with rfl | below
      · exact indented_line le_rfl _
      · exact (entriesLines_indented (indent + 4) entries text below).mono
          (Nat.le_add_right indent 4)
    · simp only [List.mem_cons] at member
      obtain rfl | rfl | fields := member
      · exact indented_line le_rfl _
      · exact indented_line (Nat.le_add_right indent 4) _
      · split at fields
        · cases fields
        · rcases List.mem_cons.mp fields with rfl | below
          · exact indented_line (Nat.le_add_right indent 4) _
          · exact (entriesLines_indented (indent + 8) entries text below).mono
              (Nat.le_add_right indent 8)
    · cases member

theorem entriesLines_indented (indent : Nat) : ∀ entries : List Entry,
    ∀ text ∈ entriesLines indent entries, Indented indent text
  | [], text, member => by simp [entriesLines] at member
  | entry :: entries, text, member => by
    rw [entriesLines, List.mem_append] at member
    rcases member with here | later
    · exact entryLines_indented indent entry text here
    · exact entriesLines_indented indent entries text later

end

end Indentation

theorem lists_propLines (indent : Nat) (props : Props) :
    Lists indent props (propLines indent props) := by
  intro key value member
  have some : props.isEmpty = false := by
    cases isPairs : props.pairs with
    | nil => simp [isPairs] at member
    | cons pair pairs => simp [Props.isEmpty, isPairs]
  obtain ⟨front, back, split⟩ := List.append_of_mem member
  refine ⟨front.map fun pair => line (indent + 4) (pair.1 ++ ": " ++ pair.2),
    back.map fun pair => line (indent + 4) (pair.1 ++ ": " ++ pair.2), ?_, ?_⟩
  · simp [propLines, some, split]
  · intro text above
    obtain ⟨pair, -, rfl⟩ := List.mem_map.mp above
    exact indented_line le_rfl _

section Arranged

theorem arranged_nil (lines : List String) : Arranged lines [] := by
  intro earlier indent entry later split
  simp at split

theorem Arranged.heads {lines : List String} {places : List Place}
    (arranged : Arranged lines places) : (headLines places).Sublist lines := by
  cases places with
  | nil => exact List.nil_sublist lines
  | cons place places =>
    obtain ⟨before, inner, listing, after, rfl, -, -, -, later⟩ := arranged [] _ _ places rfl
    refine .trans (.cons_cons _ ?_) (List.sublist_append_right before _)
    rw [List.append_assoc]
    exact later.trans (.append (.refl inner) (List.sublist_append_right listing after))

theorem headLines_append (places others : List Place) :
    headLines (places ++ others) = headLines places ++ headLines others := List.map_append

theorem Arranged.append {first second : List String} {places others : List Place}
    (left : Arranged first places) (right : Arranged second others) :
    Arranged (first ++ second) (places ++ others) := by
  intro earlier indent entry later split
  rcases List.append_eq_append_iff.mp split with ⟨between, rfl, inSecond⟩ | ⟨between, inFirst, rest⟩
  · obtain ⟨before, inner, listing, after, rfl, indented, lists, above, below⟩ :=
      right between indent entry later inSecond
    refine ⟨first ++ before, inner, listing, after, by simp, indented, lists, ?_, below⟩
    rw [headLines_append]
    exact left.heads.append above
  · cases between with
    | nil =>
      -- the place is the first one of the second part
      obtain ⟨before, inner, listing, after, rfl, indented, lists, -, below⟩ :=
        right [] indent entry later (by simpa using rest.symm)
      refine ⟨first ++ before, inner, listing, after, by simp, indented, lists, ?_, below⟩
      rw [List.append_nil] at inFirst
      exact inFirst ▸ left.heads.trans (List.sublist_append_left first before)
    | cons place between =>
      obtain ⟨rfl, rfl⟩ := List.cons.inj rest
      obtain ⟨before, inner, listing, after, rfl, indented, lists, above, below⟩ :=
        left earlier indent entry between inFirst
      refine ⟨before, inner, listing, after ++ second, by simp, indented, lists, above, ?_⟩
      change (headLines (between ++ others)).Sublist _
      rw [headLines_append, ← List.append_assoc]
      exact below.append right.heads

/-- Lines without entries of their own may surround the others. -/
theorem Arranged.surround {lines : List String} {places : List Place}
    (arranged : Arranged lines places) (above below : List String) :
    Arranged (above ++ lines ++ below) places := by
  simpa using ((arranged_nil above).append arranged).append (arranged_nil below)

/-- An entry with its block. -/
theorem Arranged.block {indent : Nat} (entry : Entry) {inner listing : List String}
    {places : List Place} (indented : ∀ text ∈ inner, Indented (indent + 4) text)
    (lists : Lists (indent + 4) entry.props listing) (arranged : Arranged inner places) :
    Arranged (headLine indent entry :: (inner ++ listing)) ((indent, entry) :: places) := by
  intro earlier n other later split
  cases earlier with
  | nil =>
    obtain ⟨same, rfl⟩ := List.cons.inj split
    obtain ⟨rfl, rfl⟩ := Prod.mk.inj same
    exact ⟨[], inner, listing, [], by simp, indented, lists, .refl [],
      by simpa using arranged.heads⟩
  | cons place earlier =>
    obtain ⟨rfl, rest⟩ := List.cons.inj split
    obtain ⟨before, own, properties, after, rfl, ownIndented, ownLists, above, below⟩ :=
      arranged earlier n other later rest
    refine ⟨headLine indent entry :: before, own, properties, after ++ listing, by simp,
      ownIndented, ownLists, .cons_cons _ above, ?_⟩
    rw [← List.append_assoc]
    exact below.trans (List.sublist_append_left _ listing)

theorem contentPlaces_of_scalar {type : FieldType} (scalar : type.isPrimitive = true)
    (indent : Nat) (element? : Option Schema) : contentPlaces indent type element? = [] := by
  cases element? with
  | none => rw [contentPlaces]
  | some element =>
    obtain ⟨elementType, entries, props⟩ := element
    cases type <;> simp [contentPlaces, FieldType.isPrimitive] at scalar ⊢

mutual

theorem entryLines_arranged (indent : Nat) : ∀ entry : Entry,
    Arranged (entryLines indent entry) (entryPlaces indent entry)
  | ⟨name, rawName?, type, nullable, element?, comment?, props⟩ => by
    let entry : Entry := ⟨name, rawName?, type, nullable, element?, comment?, props⟩
    rw [entryLines, entryPlaces]
    split
    · next short =>
      -- the line is all there is: a scalar holds nothing, and there are no properties to list
      obtain ⟨scalar, unset⟩ := Bool.and_eq_true_iff.mp short
      have listsNone : Lists (indent + 4) props [] := by
        have lists := lists_propLines (indent + 4) props
        rwa [propLines, if_pos unset] at lists
      rw [contentPlaces_of_scalar scalar]
      have block := Arranged.block entry (by simp) listsNone (arranged_nil [])
      rwa [headLine, if_pos short] at block
    · next long =>
      have content := contentLines_arranged (indent + 4) type element?
      have indented : ∀ text ∈ line (indent + 4) ("type: " ++ type.name) ::
          line (indent + 4) (flag nullable) :: contentLines (indent + 4) type element?,
          Indented (indent + 4) text := by
        simp only [List.forall_mem_cons]
        exact ⟨indented_line le_rfl _, indented_line le_rfl _,
          contentLines_indented (indent + 4) type element?⟩
      have below := content.surround [line (indent + 4) ("type: " ++ type.name),
        line (indent + 4) (flag nullable)] []
      rw [List.append_nil] at below
      have block := Arranged.block entry indented (lists_propLines (indent + 4) props) below
      rwa [headLine, if_neg long] at block

theorem contentLines_arranged (indent : Nat) : ∀ (type : FieldType) (element? : Option Schema),
    Arranged (contentLines indent type element?) (contentPlaces indent type element?)
  | type, none => by
    rw [contentPlaces]
    exact arranged_nil _
  | .record, some ⟨elementType, entries, props⟩ => by
    have fields := entriesLines_arranged (indent + 4) entries
    rw [contentLines, contentPlaces]
    simpa using fields.surround [line indent "fields:"] []
  | .array, some ⟨elementType, entries, props⟩ => by
    have fields := entriesLines_arranged (indent + 8) entries
    rw [contentLines, contentPlaces]
    cases entries with
    | nil =>
      rw [entriesPlaces]
      exact arranged_nil _
    | cons entry entries =>
      simpa using fields.surround [line indent "element:",
        line (indent + 4) ("type: " ++ elementType.name), line (indent + 4) "fields:"] []
  | .string, some _ | .int, some _ | .long, some _ | .float, some _ | .double, some _
  | .boolean, some _ | .bytes, some _ | .dateTime, some _ => by
    rw [contentPlaces_of_scalar rfl]
    exact arranged_nil _

theorem entriesLines_arranged (indent : Nat) : ∀ entries : List Entry,
    Arranged (entriesLines indent entries) (entriesPlaces indent entries)
  | [] => by
    rw [entriesPlaces]
    exact arranged_nil _
  | entry :: entries => by
    rw [entriesLines, entriesPlaces]
    exact (entryLines_arranged indent entry).append (entriesLines_arranged indent entries)

end

end Arranged

section Places

theorem mem_entriesPlaces {indent : Nat} {entries : List Entry} {entry : Entry} {place : Place}
    (member : entry ∈ entries) (inside : place ∈ entryPlaces indent entry) :
    place ∈ entriesPlaces indent entries := by
  induction entries with
  | nil => cases member
  | cons first entries ih =>
    rw [entriesPlaces, List.mem_append]
    rcases List.mem_cons.mp member with rfl | later
    · exact .inl inside
    · exact .inr (ih later)

/-- No entry is passed over, at any depth. -/
theorem exists_place {schema : Schema} {entry : Entry} (describes : schema.Describes entry)
    (indent : Nat) : ∃ n, (n, entry) ∈ entriesPlaces indent schema.entries := by
  induction describes generalizing indent with
  | @listed schema entry member =>
    obtain ⟨name, rawName?, type, nullable, element?, comment?, props⟩ := entry
    exact ⟨indent, mem_entriesPlaces member (by rw [entryPlaces]; exact List.mem_cons_self)⟩
  | @nested schema element parent entry member holds own inside ih =>
    obtain ⟨name, rawName?, type, nullable, element?, comment?, props⟩ := parent
    obtain rfl : element? = some element := own
    have below (deeper : Nat) (content : contentPlaces (indent + 4) type (some element) =
        entriesPlaces deeper element.entries) :
        ∃ n, (n, entry) ∈ entriesPlaces indent schema.entries := by
      obtain ⟨n, place⟩ := ih deeper
      refine ⟨n, mem_entriesPlaces member ?_⟩
      rw [entryPlaces, content]
      exact List.mem_cons_of_mem _ place
    obtain ⟨elementType, entries, elementProps⟩ := element
    rcases holds with rfl | rfl
    · exact below (indent + 12) (by rw [contentPlaces])
    · exact below (indent + 8) (by rw [contentPlaces])

end Places

section Bare

theorem contentLines_of_scalar {type : FieldType} (scalar : type.isPrimitive = true)
    (indent : Nat) (element? : Option Schema) : contentLines indent type element? = [] := by
  cases element? with
  | none => rw [contentLines]
  | some element =>
    obtain ⟨elementType, entries, props⟩ := element
    cases type <;> simp [contentLines, FieldType.isPrimitive] at scalar ⊢

mutual

theorem entryLines_bare (indent : Nat) : ∀ entry : Entry,
    entryLines indent entry.bare = entryLines indent entry
  | ⟨name, rawName?, type, nullable, element?, comment?, props⟩ => by
    rw [Entry.bare, entryLines, entryLines, contentLines_bare (indent + 4) type element?]

theorem contentLines_bare (indent : Nat) : ∀ (type : FieldType) (element? : Option Schema),
    contentLines indent type (bareElement element?) = contentLines indent type element?
  | _, none => by rw [bareElement]
  | .record, some ⟨elementType, entries, props⟩ => by
    rw [bareElement, contentLines, contentLines, entriesLines_bare (indent + 4) entries]
  | .array, some ⟨elementType, entries, props⟩ => by
    have fields := entriesLines_bare (indent + 8) entries
    rw [bareElement, contentLines, contentLines, fields]
    cases entries <;> rfl
  | .string, some _ | .int, some _ | .long, some _ | .float, some _ | .double, some _
  | .boolean, some _ | .bytes, some _ | .dateTime, some _ => by
    rw [contentLines_of_scalar rfl, contentLines_of_scalar rfl]

theorem entriesLines_bare (indent : Nat) : ∀ entries : List Entry,
    entriesLines indent (bareEntries entries) = entriesLines indent entries
  | [] => by rw [bareEntries]
  | entry :: entries => by
    rw [bareEntries, entriesLines, entriesLines, entryLines_bare indent entry,
      entriesLines_bare indent entries]

end

end Bare

end Outline

namespace Schema

/-- The properties of a schema stand at the end of its outline, and every entry in it, at every
depth, has a line and a block of its own there that ends with its properties. The properties of the
element schemas have no part in it. -/
theorem outline_covers_entries (schema : Schema) :
    schema.outline = String.join (schema.outlineLines.map fun line => line ++ "\n") ∧
      (∃ above listing, schema.outlineLines = above ++ listing ∧
        Outline.Lists 0 schema.props listing) ∧
      (∀ entry, schema.Describes entry →
        ∃ indent, (indent, entry) ∈ Outline.entriesPlaces 0 schema.entries) ∧
      Outline.Arranged schema.outlineLines (Outline.entriesPlaces 0 schema.entries) ∧
      schema.bare.outline = schema.outline := by
  refine ⟨rfl, ⟨_, _, rfl, Outline.lists_propLines 0 schema.props⟩, fun entry describes =>
    Outline.exists_place describes 0, ?_, ?_⟩
  · exact (Outline.entriesLines_arranged 0 schema.entries).surround []
      (Outline.propLines 0 schema.props)
  · simp only [outline, outlineLines, bare, Outline.entriesLines_bare]

/-- The property of an entry in what an array holds. -/
theorem outline_covers_entries_nested :
    let inner : Entry := { name := "depth", type := .int, props := .ofList [("unit", "m")] }
    let element : Schema := { type := .record, entries := [inner] }
    let outer : Entry := { name := "readings", type := .array, element? := some element }
    let schema : Schema := { type := .record, entries := [outer] }
    ∃ indent, (indent, inner) ∈ Outline.entriesPlaces 0 schema.entries ∧
      Outline.line (indent + 8) "unit: m" ∈ schema.outlineLines := by
  intro inner element outer schema
  obtain ⟨-, -, placed, arranged, -⟩ := outline_covers_entries schema
  obtain ⟨indent, member⟩ := placed inner
    (.nested List.mem_cons_self (.inl rfl) rfl (.listed List.mem_cons_self))
  obtain ⟨earlier, later, split⟩ := List.append_of_mem member
  obtain ⟨before, own, listing, after, lines, -, lists, -⟩ := arranged _ _ _ _ split
  obtain ⟨front, back, rfl, -⟩ := lists "unit" "m" (by decide +kernel)
  exact ⟨indent, member, by simp [lines]⟩

/-- The property of what the record holds is on no line. -/
theorem outline_omits_element_props :
    let element : Schema :=
      { type := .record, entries := [{ name := "city", type := .string }],
        props := .ofList [("owner", "crm")] }
    let entry : Entry := { name := "address", type := .record, element? := some element }
    let schema : Schema := { type := .record, entries := [entry] }
    schema.Reachable (fun _ => True) ∧ entry ∈ schema.entries ∧ entry.element? = some element ∧
      ("owner", "crm") ∈ element.props.pairs ∧
      ∀ indent, Outline.line indent "owner: crm" ∉ schema.outlineLines := by
  intro element entry schema
  have reachable : element.Reachable fun _ => True :=
    reachable_of_entries (by simp [element]) (by simp [element]) rfl
  refine ⟨reachable_of_entries (by simp [schema, entry]) (by simpa [schema, entry] using reachable)
    rfl, List.mem_cons_self, rfl, by decide +kernel, fun indent member => ?_⟩
  -- no line of the outline has this letter
  have without : ∀ text ∈ schema.outlineLines, 'w' ∉ text.toList := by decide +kernel
  exact without _ member (by simp [Outline.line])

end Schema

end TypedRecords
