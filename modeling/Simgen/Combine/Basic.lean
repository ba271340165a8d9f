import Simgen.Text.Lines
import Simgen.ValueType

/-! Combines: modules of a simulation that read their pipes in one phase of a cycle and
commit their state in the other. -/
namespace Simgen

inductive Direction where
  | input | output
  deriving DecidableEq

/-- A pipe that the combine reads or writes. -/
structure Pipe where
  name : String
  direction : Direction
  type : ValueType
  comment : String
  deriving DecidableEq

/-- A parameter or a returned value. -/
structure Param where
  name : String
  type : ValueType
  comment : String
  deriving DecidableEq

/-- Parameters, and values returned through pointers behind them. -/
structure Signature where
  params : List Param
  returns : List Param
  deriving DecidableEq

/-- All parameters, the returned values last. -/
def Signature.all (s : Signature) : List Param := s.params ++ s.returns

/-- An operation that is implemented elsewhere and bound at construction. -/
structure Request where
  name : String
  signature : Signature
  comment : String
  deriving DecidableEq

/-- Lines that go into the generated code as they are. -/
abbrev Code := List String

/-- The lines of several texts, one after another. -/
def Code.ofTexts (texts : List String) : Code := texts.flatMap Text.lines

/-- Who calls an operation. -/
inductive Role where
  /-- Can be called from outside. -/
  | service
  /-- A helper of the combine itself. -/
  | helper
  deriving DecidableEq

/-- An operation that the combine implements. -/
structure Operation where
  role : Role
  name : String
  signature : Signature
  comment : String
  body : Code
  deriving DecidableEq

/-- State of a combine. -/
inductive Storage where
  /-- Keeps its value until the logic changes it. -/
  | plain (name : String) (type : ValueType) (default : Option String) (comment : String)
  /-- Shows the committed value and takes proposals for the next one. -/
  | next (name : String) (type : ValueType) (default : Option String) (comment : String)
  /-- Returns to its default in every commit phase. -/
  | tick (name : String) (type : Primitive) (default comment : String)
  deriving DecidableEq

def Storage.name : Storage → String
  | plain name .. => name
  | next name .. => name
  | tick name .. => name

/-- A named constant. -/
structure Constant where
  name : String
  value : String
  comment : String
  deriving DecidableEq

structure Combine where
  name : String
  comment : String
  pipes : List Pipe
  requests : List Request
  operations : List Operation
  storage : List Storage
  configs : List Constant
  /-- Runs at construction, behind the injection of what the combine depends on. -/
  init : Code
  tick : Code
  applyTick : Code
  stallable : Bool
  deriving DecidableEq

namespace Combine

def inputs (c : Combine) : List Pipe := c.pipes.filter fun p => p.direction = .input

def outputs (c : Combine) : List Pipe := c.pipes.filter fun p => p.direction = .output

/-- The signatures of requests, then of operations. -/
def signatures (c : Combine) : List Signature :=
  c.requests.map Request.signature ++ c.operations.map Operation.signature

end Combine

end Simgen
