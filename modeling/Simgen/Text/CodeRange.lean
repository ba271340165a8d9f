/-! Classes of characters that are given by ranges of code points. -/
namespace Simgen.Text

/-- The code points from `first` to `last`, both included. -/
structure CodeRange where
  first : Nat
  last : Nat
  deriving DecidableEq

/-- Whether a character lies in one of the ranges. -/
def inRanges (ranges : List CodeRange) (c : Char) : Bool :=
  ranges.any fun r => r.first ≤ c.toNat && c.toNat ≤ r.last

/-- Ranges by their ends. -/
def codeRanges (ends : List (Nat × Nat)) : List CodeRange := ends.map fun (a, b) => ⟨a, b⟩

end Simgen.Text
