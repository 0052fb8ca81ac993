import EquationFigure.Text.Basic

/-!
# Tables from names to values

Two things are looked up by name: the variables an equation may refer to, and the values already
worked out for them.  Both are a `Table`, which keeps its entries in the order in which their names
first came in and holds each name once.

* `Table.get?` — the value of a name, if it has one; `get?_eq_none_iff` says which names have none.
* `Table.insert` — gives a name a value, in place of the one it had.  `get?_insert_self` and
  `get?_insert_of_ne` say what that does to `get?`.
* `Table.ofList` — a table from a list in which a later entry wins over an earlier one.
-/

set_option autoImplicit false

namespace EquationFigure

/-- A table from names to values. -/
structure Table (α : Type) where
  /-- The names with their values, in the order in which the names came in. -/
  entries : List (Text × α) := []

namespace Table

variable {α : Type}

instance : EmptyCollection (Table α) := ⟨{}⟩

/-- The first value under `name` in a list of entries. -/
def find? (name : Text) : List (Text × α) → Option α
  | [] => none
  | (key, value) :: rest => if key = name then some value else find? name rest

/-- The entries with `value` under `name`: at the place of `name` if it is there, else at the
end. -/
def put (name : Text) (value : α) : List (Text × α) → List (Text × α)
  | [] => [(name, value)]
  | (key, old) :: rest =>
    if key = name then (name, value) :: rest else (key, old) :: put name value rest

/-- The value of `name`, or `none` if the table has no such name. -/
def get? (table : Table α) (name : Text) : Option α := find? name table.entries

/-- The table in which `name` has the given value. -/
def insert (table : Table α) (name : Text) (value : α) : Table α :=
  ⟨put name value table.entries⟩

/-- The names of the table, in the order in which they came in. -/
def names (table : Table α) : List Text := table.entries.map (·.1)

/-- The table of a list of entries, of which the last one under a name counts. -/
def ofList (entries : List (Text × α)) : Table α :=
  entries.foldl (fun table entry => table.insert entry.1 entry.2) ∅

@[simp] theorem get?_empty (name : Text) : (∅ : Table α).get? name = none := rfl

theorem find?_put_self (name : Text) (value : α) (entries : List (Text × α)) :
    find? name (put name value entries) = some value := by
  fun_induction put name value entries <;> simp_all [find?]

theorem find?_put_of_ne {name other : Text} (h : other ≠ name) (value : α)
    (entries : List (Text × α)) :
    find? other (put name value entries) = find? other entries := by
  fun_induction put name value entries <;> grind [find?]

theorem find?_eq_none_iff {name : Text} {entries : List (Text × α)} :
    find? name entries = none ↔ name ∉ entries.map (·.1) := by
  fun_induction find? name entries <;> simp_all [eq_comm]

/-- The names of a table are those that have a value. -/
theorem get?_eq_none_iff {table : Table α} {name : Text} :
    table.get? name = none ↔ name ∉ table.names := find?_eq_none_iff

@[simp] theorem get?_insert_self (table : Table α) (name : Text) (value : α) :
    (table.insert name value).get? name = some value :=
  find?_put_self name value table.entries

theorem get?_insert_of_ne (table : Table α) {name other : Text} (h : other ≠ name) (value : α) :
    (table.insert name value).get? other = table.get? other :=
  find?_put_of_ne h value table.entries

end Table

end EquationFigure
