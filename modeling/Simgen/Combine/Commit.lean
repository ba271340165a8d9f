import Simgen.Combine.Basic

/-! The bookkeeping of the commit phase, before the combine's own logic runs. -/
namespace Simgen

inductive CommitStep where
  /-- Takes over the winning proposal of a register. -/
  | applyNext (name : String)
  /-- Puts a register back to its default. -/
  | resetTick (name default : String)
  /-- Lowers the stall flag. -/
  | clearStall
  deriving DecidableEq

/-- Registers with proposals first, then those that reset, then the stall flag. -/
def Combine.commitPlan (c : Combine) : List CommitStep :=
  (c.storage.filterMap fun | .next name .. => some (.applyNext name) | _ => none) ++
    (c.storage.filterMap fun
      | .tick name _ default _ => some (.resetTick name default)
      | _ => none) ++
    if c.stallable then [.clearStall] else []

end Simgen
