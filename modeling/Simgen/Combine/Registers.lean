import Simgen.Combine.Commit

/-! The registers of a combine over cycles. A cycle runs the combine's logic, then the
commit plan, then the logic of the commit phase. Values and their literals are left
open; the model only says which value a register holds, and when. -/
namespace Simgen

/-- The literal that a field holds at first. -/
def Storage.initial : Storage → String
  | plain _ _ default _ => default.getD "0"
  | next _ _ default _ => default.getD "0"
  | tick _ _ default _ => default

/-- The state of one instance of a combine. -/
structure Registers (V : Type) where
  /-- What reading a field gives. -/
  current : String → V
  /-- The winning proposal for a field and its priority. -/
  pending : String → Option (V × Nat)
  stalled : Bool

/-- What the logic of a combine does to its registers. -/
inductive LogicAction (V : Type) where
  /-- Sets a field that takes no proposals. -/
  | set (name : String) (value : V)
  /-- Proposes the next value of a field. -/
  | propose (name : String) (value : V) (priority : Nat)
  | stall

/-- Which actions the generated class of a combine offers to its logic. -/
def LogicAction.offeredBy {V : Type} (c : Combine) : LogicAction V → Prop
  | set name _ => ∃ s ∈ c.storage, s.name = name ∧ ∀ type default comment,
      s ≠ .next name type default comment
  | propose name _ _ => ∃ type default comment, .next name type default comment ∈ c.storage
  | stall => c.stallable

namespace Registers

variable {V : Type}

/-- Before the first cycle every field holds its default and nothing is proposed. -/
def start (read : String → V) (c : Combine) : Registers V :=
  { current := fun name =>
      read (((c.storage.find? fun s => s.name = name).map Storage.initial).getD "0")
    pending := fun _ => none
    stalled := false }

/-- Gives a field a value. -/
def write (r : Registers V) (name : String) (value : V) : Registers V :=
  { r with current := fun other => if other = name then value else r.current other }

/-- Takes in a proposal. The highest priority wins, and among equals the latest. -/
def propose (r : Registers V) (name : String) (value : V) (priority : Nat) : Registers V :=
  let wins := match r.pending name with
    | none => true
    | some (_, best) => best ≤ priority
  if wins then
    { r with
      pending := fun other =>
        if other = name then some (value, priority) else r.pending other }
  else r

/-- Performs one action of the logic. -/
def perform (r : Registers V) : LogicAction V → Registers V
  | .set name value => r.write name value
  | .propose name value priority => r.propose name value priority
  | .stall => { r with stalled := true }

/-- Performs one action of the commit plan. -/
def commit (read : String → V) (r : Registers V) : CommitStep → Registers V
  | .applyNext name => match r.pending name with
    | none => r
    | some (value, _) =>
      { r.write name value with
        pending := fun other => if other = name then none else r.pending other }
  | .resetTick name default => r.write name (read default)
  | .clearStall => { r with stalled := false }

/-- Performs the whole commit plan of a combine. -/
def commitAll (read : String → V) (c : Combine) (r : Registers V) : Registers V :=
  c.commitPlan.foldl (commit read) r

/-- One cycle: the logic, the commit plan, the logic of the commit phase. -/
structure Cycle (V : Type) where
  tick : List (LogicAction V)
  applyTick : List (LogicAction V)

/-- Runs one cycle. -/
def cycle (read : String → V) (c : Combine) (r : Registers V) (k : Cycle V) : Registers V :=
  k.applyTick.foldl perform (commitAll read c (k.tick.foldl perform r))

/-- Runs cycles one after another. -/
def run (read : String → V) (c : Combine) (cycles : List (Cycle V)) : Registers V :=
  cycles.foldl (cycle read c) (start read c)

end Registers

end Simgen
