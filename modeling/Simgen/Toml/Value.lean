/-! TOML values, and how one table is laid over another. -/
namespace Simgen.Toml

inductive Value where
  | text (s : String)
  | integer (n : Int)
  /-- A float, as it was written. -/
  | float (literal : String)
  | boolean (b : Bool)
  /-- A date, a time or both, as it was written. -/
  | date (literal : String)
  | array (items : List Value)
  | table (entries : List (String × Value))

/-- The entries of a table, of which no two have the same key. -/
abbrev Table := List (String × Value)

/-- Sets the value of a key. -/
def Table.put (t : Table) (key : String) (v : Value) : Table :=
  if (t.lookup key).isSome then t.map fun e => if e.1 = key then (key, v) else e
  else t ++ [(key, v)]

mutual

/-- Lays `upper` over `lower`: tables are merged key by key, anything else replaces. -/
def Value.over (upper lower : Value) : Value :=
  match upper, lower with
  | .table us, .table ls => .table (overTable us ls)
  | _, _ => upper

/-- Lays the entries of a table over another table. -/
def overTable : List (String × Value) → Table → Table
  | [], lower => lower
  | (key, v) :: rest, lower =>
    overTable rest (Table.put lower key (match lower.lookup key with
      | some old => v.over old
      | none => v))

end

/-- Lays one table over another. -/
def Table.over (upper lower : Table) : Table := overTable upper lower

end Simgen.Toml
