/-! The choices that a builder leaves open. -/
namespace TypedRecords

/-- Several writes to one name without a declared schema: one entry, or one for each write. -/
inductive DuplicateEntries
  | lastWins | keepAll
deriving DecidableEq, Repr

/-- A null written to a nullable `DATETIME` entry: nothing is stored, or one millisecond before
1970. -/
inductive NullDateTime
  | absent | sentinel
deriving DecidableEq, Repr

structure Policy where
  duplicateEntries : DuplicateEntries := .lastWins
  nullDateTime : NullDateTime := .absent
deriving DecidableEq, Repr

def Policy.legacy : Policy := ⟨.keepAll, .sentinel⟩

end TypedRecords
