import Simgen.ValueType

/-! Bundles: named records whose members may embed other bundles by value. -/
namespace Simgen

/-- A member of a bundle. Only members of primitive type carry a default. -/
structure Bundle.Member where
  name : String
  type : ValueType
  default : Option String
  deriving DecidableEq

structure Bundle where
  name : String
  members : List Bundle.Member
  deriving DecidableEq

namespace Bundle

/-- The members of composite type, each with the name of its type. -/
def dependencies (b : Bundle) : List (String × String) :=
  b.members.filterMap fun m => m.type.composite?.map fun type => (m.name, type)

/-- The bundles of the list that `b` embeds, once for every member. -/
def embedded (names : List String) (b : Bundle) : List String :=
  (b.dependencies.map Prod.snd).filter names.contains

end Bundle

end Simgen
