import SchemaTypes.Text.Order

/-!
# Table — values by name, in order of first entry

A table holds one value per name.  Putting a value under a name that is there already replaces the
value and keeps the place, so the names stand in the order in which each was first put.
-/

namespace SchemaTypes

/-- Values by name, each name once. -/
structure Table (α : Type) where
  entries : List (String × α) := []
  deriving DecidableEq

namespace Table

variable {α : Type}

/-- The table without entries. -/
def empty : Table α := {}

/-- The value under a name, among entries. -/
def find? (name : String) : List (String × α) → Option α
  | [] => none
  | (key, value) :: rest => if key = name then some value else find? name rest

/-- Entries with a value put under a name: in its place when the name is there, else at the end. -/
def put (name : String) (value : α) : List (String × α) → List (String × α)
  | [] => [(name, value)]
  | (key, old) :: rest =>
    if key = name then (key, value) :: rest else (key, old) :: put name value rest

/-- The value under a name. -/
def get? (t : Table α) (name : String) : Option α := find? name t.entries

/-- The table with a value put under a name. -/
def insert (t : Table α) (name : String) (value : α) : Table α := ⟨put name value t.entries⟩

/-- The names, in order of first entry. -/
def keys (t : Table α) : List String := t.entries.map Prod.fst

/-- The names, in code point order. -/
def sortedKeys (t : Table α) : List String := Text.sorted t.keys

/-- The table after putting all pairs, from left to right. -/
def ofList (pairs : List (String × α)) : Table α :=
  pairs.foldl (fun t p => t.insert p.1 p.2) empty

@[simp] theorem get?_empty (name : String) : (empty : Table α).get? name = none := rfl

theorem find?_put (name other : String) (value : α) (es : List (String × α)) :
    find? other (put name value es) = if name = other then some value else find? other es := by
  induction es with
  | nil => rfl
  | cons e es ih => grind [put, find?]

/-- The last value put under a name is the one found there — and no other name is touched. -/
theorem get?_insert (t : Table α) (name other : String) (value : α) :
    (t.insert name value).get? other = if name = other then some value else t.get? other :=
  find?_put name other value t.entries

end Table

end SchemaTypes
