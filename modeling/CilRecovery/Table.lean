/-!
Tables: finite maps as lists of entries, in the order in which the keys came.
-/
namespace CilRecovery

/-- A finite map. -/
structure Table (Key Value : Type) where
  entries : List (Key × Value) := []

namespace Table

variable {Key Value : Type} [DecidableEq Key]

instance : Inhabited (Table Key Value) := ⟨{}⟩

instance [DecidableEq Value] : DecidableEq (Table Key Value) := fun a b =>
  decidable_of_iff (a.entries = b.entries) (by cases a; cases b; simp)

def get? (table : Table Key Value) (key : Key) : Option Value :=
  table.entries.lookup key

def contains (table : Table Key Value) (key : Key) : Bool :=
  (table.get? key).isSome

/-- The number of keys. -/
def size (table : Table Key Value) : Nat := table.entries.length

/-- Replaces the value of the first entry with the key, or adds an entry at the end. -/
def insertEntry (key : Key) (value : Value) : List (Key × Value) → List (Key × Value)
  | [] => [(key, value)]
  | entry :: rest =>
    if entry.1 = key then (key, value) :: rest else entry :: insertEntry key value rest

/-- Sets the value of a key; a key that is there keeps its place. -/
def insert (table : Table Key Value) (key : Key) (value : Value) : Table Key Value :=
  ⟨insertEntry key value table.entries⟩

theorem get?_insert (table : Table Key Value) (key other : Key) (value : Value) :
    (table.insert key value).get? other = if other = key then some value else table.get? other := by
  obtain ⟨entries⟩ := table
  simp only [insert, get?]
  induction entries with
  | nil =>
    by_cases same : other = key
    · simp [insertEntry, same]
    · have differs : (other == key) = false := by simpa using same
      simp [insertEntry, List.lookup_cons, differs, same]
  | cons entry rest ih =>
    obtain ⟨k, v⟩ := entry
    by_cases found : k = key
    · subst found
      by_cases same : other = k
      · simp [insertEntry, same]
      · have differs : (other == k) = false := by simpa using same
        simp [insertEntry, List.lookup_cons, differs, same]
    · by_cases same : other = k
      · subst same
        simp [insertEntry, found]
      · have differs : (other == k) = false := by simpa using same
        simp [insertEntry, found, List.lookup_cons, differs, ih]

end Table

end CilRecovery
