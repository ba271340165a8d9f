/-! Types of members, pipes and parameters. -/
namespace Simgen

/-- The scalar types of the runtime library. -/
inductive Primitive where
  | bool | int8 | int16 | int32 | int64 | int128 | uint8 | uint16 | uint32 | uint64 | uint128
  deriving DecidableEq

namespace Primitive

def all : List Primitive :=
  [bool, int8, int16, int32, int64, int128, uint8, uint16, uint32, uint64, uint128]

def name : Primitive → String
  | bool => "bool" | int8 => "int8" | int16 => "int16" | int32 => "int32" | int64 => "int64"
  | int128 => "int128" | uint8 => "uint8" | uint16 => "uint16" | uint32 => "uint32"
  | uint64 => "uint64" | uint128 => "uint128"

/-- The primitive type of exactly this name. -/
def ofName? (name : String) : Option Primitive := all.find? fun p => p.name = name

end Primitive

/-- A primitive is handed over by value, everything else by reference. A composite
type is known by its name only; it need not be a bundle of the project. -/
inductive ValueType where
  | primitive (p : Primitive)
  | composite (name : String)
  deriving DecidableEq

namespace ValueType

/-- Every name denotes a type: what is not a primitive is a composite. -/
def ofName (name : String) : ValueType :=
  match Primitive.ofName? name with
  | some p => primitive p
  | none => composite name

def text : ValueType → String
  | primitive p => p.name
  | composite name => name

def isPrimitive : ValueType → Bool
  | primitive _ => true
  | composite _ => false

def composite? : ValueType → Option String
  | primitive _ => none
  | composite name => some name

end ValueType

end Simgen
