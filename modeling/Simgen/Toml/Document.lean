import Simgen.Toml.Scalar
import Simgen.Toml.Tree

/-! TOML documents. -/
namespace Simgen.Toml

/-- How deep arrays and inline tables may be nested, and how many parts a key may have. -/
def nestingLimit : Nat := 79

def isBareKey (c : Char) : Bool := c.isAlphanum || c == '_' || c == '-'

/-- One part of a key. -/
def keyPart? (cs : List Char) : Option (String × List Char) :=
  match cs with
  | '"' :: rest => (basicString? (rest.length + 1) rest).map fun (t, r) => (.ofList t, r)
  | '\'' :: rest => (literalString? rest).map fun (t, r) => (.ofList t, r)
  | _ =>
    let part := cs.takeWhile isBareKey
    if part = [] then none else some (.ofList part, cs.drop part.length)

/-- A key of at most so many parts, with dots between them; the last part is given apart. -/
def key? : Nat → List Char → Option (List String × String × List Char)
  | 0, _ => none
  | limit + 1, cs => do
    let (part, rest) ← keyPart? cs
    match skipGap rest with
    | '.' :: more =>
      let (path, last, rest) ← key? limit (skipGap more)
      return (part :: path, last, rest)
    | _ => return ([], part, rest)

/-- The line end behind a comment, or the end of the document. -/
def afterComment? (cs : List Char) : Option (List Char) :=
  match cs.dropWhile isPlain with
  | [] => some []
  | rest => (newline? rest).map fun _ => rest

/-- Skips blanks, comments and line ends. -/
def skipLines? : Nat → List Char → Option (List Char)
  | 0, _ => none
  | fuel + 1, cs => match skipGap cs with
    | '#' :: rest => do skipLines? fuel (← afterComment? rest)
    | rest => match newline? rest with
      | some rest => skipLines? fuel rest
      | none => some rest

mutual

/-- A value; `depth` says how many brackets may still be opened. -/
def value? : (fuel depth : Nat) → List Char → Option (Value × List Char)
  | 0, _, _ => none
  | fuel + 1, depth, cs => match cs with
    | '[' :: rest => match depth with
      | 0 => none
      | depth + 1 => do
        let (items, rest) ← items? fuel depth rest
        return (.array items, rest)
    | '\x7b' :: rest => match depth with
      | 0 => none
      | depth + 1 => match skipGap rest with
        | '\x7d' :: rest => some (.table [], rest)
        | rest => do
          let (entries, rest) ← pairs? fuel depth [] rest
          return (.table (entriesToTable entries), rest)
    | '"' :: _ => (string? cs).map fun (s, rest) => (.text s, rest)
    | '\'' :: _ => (string? cs).map fun (s, rest) => (.text s, rest)
    | _ => bareValue? cs

/-- The items of an array behind its bracket or behind a comma. -/
def items? : (fuel depth : Nat) → List Char → Option (List Value × List Char)
  | 0, _, _ => none
  | fuel + 1, depth, cs => do
    match ← skipLines? (cs.length + 1) cs with
    | ']' :: rest => return ([], rest)
    | cs =>
      let (item, rest) ← value? fuel depth cs
      match ← skipLines? (rest.length + 1) rest with
      | ',' :: rest =>
        let (items, rest) ← items? fuel depth rest
        return (item :: items, rest)
      | ']' :: rest => return ([item], rest)
      | _ => none

/-- The pairs of an inline table, which stands on one line. -/
def pairs? : (fuel depth : Nat) → Entries → List Char → Option (Entries × List Char)
  | 0, _, _, _ => none
  | fuel + 1, depth, entries, cs => do
    let (path, key, rest) ← key? nestingLimit (skipGap cs)
    let rest ← mark? '=' (skipGap rest)
    let (v, rest) ← value? fuel depth (skipGap rest)
    let entries ← entries.addValue path key v
    match skipGap rest with
    | ',' :: rest => pairs? fuel depth entries rest
    | '\x7d' :: rest => return (entries, rest)
    | _ => none

end

/-- The end of an expression: blanks, perhaps a comment, and a line end or the end of
the document. -/
def endOfLine? (cs : List Char) : Option (List Char) :=
  match skipGap cs with
  | [] => some []
  | '#' :: rest => afterComment? rest
  | rest => (newline? rest).map fun _ => rest

/-- A document while it is read: the path of the table that pairs go to, and all tables. -/
structure Reading where
  current : List String
  root : Entries

/-- A header of a table or, in double brackets, of an item of an array. -/
def header? (r : Reading) (cs : List Char) : Option (Reading × List Char) := do
  let (isItem, cs) := match cs with
    | '[' :: '[' :: rest => (true, rest)
    | _ => (false, cs.drop 1)
  let (path, key, rest) ← key? nestingLimit (skipGap cs)
  let rest ← mark? ']' (skipGap rest)
  let rest ← if isItem then mark? ']' rest else some rest
  let root ← if isItem then r.root.openItem path key else r.root.openTable path key
  return ({ current := path ++ [key], root }, rest)

/-- A pair of a key and a value. -/
def pair? (r : Reading) (cs : List Char) : Option (Reading × List Char) := do
  let (path, key, rest) ← key? nestingLimit cs
  let rest ← mark? '=' (skipGap rest)
  let (v, rest) ← value? (rest.length + 1) nestingLimit (skipGap rest)
  let root ← r.root.changeAt false (fun _ es => es.addValue path key v) false r.current
  return ({ r with root }, rest)

/-- The expressions of a document, one a line. -/
def expressions? : (fuel : Nat) → Reading → List Char → Option Reading
  | 0, _, _ => none
  | fuel + 1, r, cs => do
    match ← skipLines? (cs.length + 1) cs with
    | [] => return r
    | '[' :: rest =>
      let (r, rest) ← header? r ('[' :: rest)
      expressions? fuel r (← endOfLine? rest)
    | cs =>
      let (r, rest) ← pair? r cs
      expressions? fuel r (← endOfLine? rest)

/-- Reads a document. A byte order mark may stand in front. -/
def parse? (document : String) : Option Table := do
  let cs := match document.toList with
    | '﻿' :: cs => cs
    | cs => cs
  let r ← expressions? (cs.length + 1) { current := [], root := [] } cs
  return entriesToTable r.root

end Simgen.Toml
