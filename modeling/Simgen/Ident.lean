/-! Identifiers that may name a declaration in generated code. -/
namespace Simgen.Ident

/-- ASCII letters and the underscore. -/
def isStart (c : Char) : Bool := c.isAlpha || c == '_'

/-- ASCII letters, digits and the underscore. -/
def isRest (c : Char) : Bool := c.isAlphanum || c == '_'

/-- A valid identifier starts with a letter or an underscore and goes on with
letters, digits and underscores, all of them ASCII. -/
def isValid (s : String) : Bool :=
  match s.toList with
  | [] => false
  | c :: cs => isStart c && cs.all isRest

/-- The order of names: by code point, which is the order of their UTF-8 bytes. -/
def le (a b : String) : Bool := decide (a ≤ b)

/-- Names in their order; equal names stay. -/
def sort (names : List String) : List String := names.mergeSort le

end Simgen.Ident
