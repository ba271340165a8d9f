import Simgen.Toml.Value

/-! Tables while a document is being read. A table remembers how it came to be, because
that decides what may still be added to it. -/
namespace Simgen.Toml

/-- What a key stands for while the document is being read. -/
inductive Node where
  /-- A value that is complete. -/
  | value (v : Value)
  /-- A table. It is implicit until a header names it, and dotted if a dotted key made it. -/
  | table (implicit dotted : Bool) (entries : List (String × Node))
  /-- An array of tables, the latest first. -/
  | tables (items : List (List (String × Node)))

/-- The entries of a table. -/
abbrev Entries := List (String × Node)

namespace Entries

/-- Sets what a key stands for. -/
def put (es : Entries) (key : String) (n : Node) : Entries :=
  if (es.lookup key).isSome then es.map fun e => if e.1 = key then (key, n) else e
  else es ++ [(key, n)]

/-- Changes the table that a path leads to; tables on the way are made if they are
missing, and an array of tables is entered at its latest table. With `byDots` the path
is that of a dotted key: it may not enter a table that a header named. The change is
told whether a dotted key made the table. -/
def changeAt (byDots : Bool) (change : Bool → Entries → Option Entries) (dotted : Bool) :
    List String → Entries → Option Entries
  | [], es => change dotted es
  | key :: path, es => match es.lookup key with
    | none => do
      let inner ← changeAt byDots change byDots path []
      return es.put key (.table true byDots inner)
    | some (.value _) => none
    | some (.table implicit dotted inner) =>
      if byDots && !implicit then none
      else do
        let inner ← changeAt byDots change dotted path inner
        return es.put key (.table implicit dotted inner)
    | some (.tables []) => none
    | some (.tables (latest :: earlier)) => do
      let latest ← changeAt byDots change false path latest
      return es.put key (.tables (latest :: earlier))

/-- Adds a value under a dotted key: `path` and then `key`, which must be new. -/
def addValue (path : List String) (key : String) (v : Value) (es : Entries) : Option Entries :=
  changeAt true (fun dotted es =>
    if dotted == path.isEmpty || (es.lookup key).isSome then none
    else some (es ++ [(key, .value v)])) false path es

/-- Opens a table by its header. -/
def openTable (path : List String) (key : String) (es : Entries) : Option Entries :=
  changeAt false (fun _ es => match es.lookup key with
    | none => some (es ++ [(key, .table false false [])])
    | some (.table true false inner) => some (es.put key (.table false false inner))
    | some _ => none) false path es

/-- Opens a further table of an array of tables. -/
def openItem (path : List String) (key : String) (es : Entries) : Option Entries :=
  changeAt false (fun _ es => match es.lookup key with
    | none => some (es ++ [(key, .tables [[]])])
    | some (.tables items) => some (es.put key (.tables ([] :: items)))
    | some _ => none) false path es

end Entries

mutual

/-- The value that a node comes to. -/
def Node.toValue : Node → Value
  | .value v => v
  | .table _ _ entries => .table (entriesToTable entries)
  | .tables items => .array (itemsToValues items).reverse

def entriesToTable : List (String × Node) → Table
  | [] => []
  | (key, n) :: rest => (key, n.toValue) :: entriesToTable rest

def itemsToValues : List (List (String × Node)) → List Value
  | [] => []
  | entries :: rest => .table (entriesToTable entries) :: itemsToValues rest

end

end Simgen.Toml
