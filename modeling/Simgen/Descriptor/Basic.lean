/-! Descriptors: bundles and combines as their documents give them, before types are
told apart and code is put in place. -/
namespace Simgen.Descriptor

/-- A member of a bundle. -/
structure Member where
  name : String
  type : String
  value : Option String
  deriving DecidableEq

structure Bundle where
  name : String
  members : List Member
  /-- The file that the descriptor stands in. -/
  source : String
  deriving DecidableEq

/-- A pipe that a combine reads or writes. -/
structure Pipe where
  name : String
  type : String
  comment : Option String
  deriving DecidableEq

/-- A parameter or a returned value. -/
structure Param where
  name : String
  type : String
  comment : Option String
  deriving DecidableEq

/-- A reference to a function in a hand-written source file. -/
structure FunctionRef where
  file : String
  func : String
  deriving DecidableEq

/-- A block of code: the body of a referenced function, if one is named, and inline
fragments behind it. -/
structure Code where
  reference : Option FunctionRef
  fragments : List String
  deriving DecidableEq

/-- A request, a service or a helper function. Requests have no body. -/
structure Operation where
  name : String
  comment : Option String
  params : List Param
  returns : List Param
  body : Option Code
  deriving DecidableEq

/-- A storage field of any kind. -/
structure Storage where
  name : String
  type : String
  value : Option String
  comment : Option String
  deriving DecidableEq

/-- A named constant. -/
structure Constant where
  name : String
  value : String
  comment : Option String
  deriving DecidableEq

structure Combine where
  name : String
  comment : Option String
  /-- The file that the descriptor stands in. -/
  source : String
  pipeIn : List Pipe
  pipeOut : List Pipe
  requests : List Operation
  services : List Operation
  functions : List Operation
  storage : List Storage
  storageNext : List Storage
  storageTick : List Storage
  configs : List Constant
  init : List Code
  tick : List Code
  applyTick : List Code
  stallable : Bool
  deriving DecidableEq

end Simgen.Descriptor
