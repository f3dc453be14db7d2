/-
SchemaClient.Table — tables.

A table holds one value for each of its names, in the order in which the names first came up.
Giving a name a new value leaves it in its place.
-/

namespace SchemaClient

abbrev Table (α : Type) := List (String × α)

namespace Table

variable {α : Type}

/-- The value of a name. -/
def find? (table : Table α) (name : String) : Option α :=
  match table with
  | [] => none
  | (n, value) :: rest => if n = name then some value else find? rest name

/-- Whether the table has the name. -/
def has (table : Table α) (name : String) : Bool := (find? table name).isSome

/-- The names, in order. -/
def names (table : Table α) : List String := table.map (·.1)

/-- Change the value of a name, which is `f none` if there is none so far. -/
def alter (table : Table α) (name : String) (f : Option α → α) : Table α :=
  match table with
  | [] => [(name, f none)]
  | (n, value) :: rest =>
    if n = name then (n, f (some value)) :: rest else (n, value) :: alter rest name f

/-- Give a name a value. -/
def put (table : Table α) (name : String) (value : α) : Table α := alter table name fun _ => value

end Table

end SchemaClient
