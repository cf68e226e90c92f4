/-!
# Tables

A table of keys and values that **keeps the order in which keys first came**. Looking up a key gives
the value of its first entry; inserting replaces the value where the key stands, or adds the entry at
the end. Documents, the known schemas, caches and file trees are such tables.
-/

namespace TypeScribe

/-- Keys with their values, in order. -/
abbrev Table (κ α : Type) := List (κ × α)

/-- A table with texts as keys. -/
abbrev Entries (α : Type) := Table String α

namespace Table

variable {κ α : Type} [DecidableEq κ]

/-- The value of a key. -/
def get? (table : Table κ α) (key : κ) : Option α :=
  match table with
  | [] => none
  | (k, v) :: rest => if key = k then some v else get? rest key

/-- Whether a key has a value. -/
def has (table : Table κ α) (key : κ) : Bool := (table.get? key).isSome

/-- Gives a key a value: in place if the key is there, at the end otherwise. -/
def insert (table : Table κ α) (key : κ) (value : α) : Table κ α :=
  match table with
  | [] => [(key, value)]
  | (k, v) :: rest => if key = k then (k, value) :: rest else (k, v) :: insert rest key value

/-- Takes a key out. -/
def erase (table : Table κ α) (key : κ) : Table κ α :=
  table.filter fun entry => decide (entry.1 ≠ key)

@[simp]
theorem get?_nil (key : κ) : get? ([] : Table κ α) key = none := rfl

theorem get?_cons (k : κ) (v : α) (rest : Table κ α) (key : κ) :
    get? ((k, v) :: rest) key = if key = k then some v else get? rest key := rfl

/-- **What an insertion changes**: the value of its own key, and nothing else. -/
theorem get?_insert (table : Table κ α) (key : κ) (value : α) (other : κ) :
    (table.insert key value).get? other = if other = key then some value else table.get? other := by
  induction table with
  | nil => rfl
  | cons entry rest ih =>
    obtain ⟨k, v⟩ := entry
    by_cases h : key = k
    · by_cases ho : other = k <;> simp [insert, get?_cons, h, ho]
    · by_cases ho : other = k
      · have hk : ¬k = key := fun he => h he.symm
        simp [insert, get?_cons, h, hk, ho]
      · simp [insert, get?_cons, h, ho, ih]

end Table

/-- The entries by increasing key. -/
def Entries.sorted {α : Type} (entries : Entries α) : Entries α :=
  entries.mergeSort fun a b => decide (a.1 ≤ b.1)

end TypeScribe
