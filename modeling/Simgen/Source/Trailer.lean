import Simgen.Source.Piece

/-! What may stand between the parameters of a function and its body: qualifiers,
exception specifications, attributes, a result type, a constraint, initializers of
members. -/
namespace Simgen.Source

/-- Where the reading of what follows parameters stands. -/
inductive Trailer where
  /-- Qualifiers and specifiers. -/
  | plain
  /-- A specifier that may have parentheses. -/
  | called
  /-- A word of unknown meaning. -/
  | strange
  /-- The result type behind an arrow. -/
  | result
  /-- An operand of a constraint is due. -/
  | demand
  /-- A constraint that may end here. -/
  | demanded
  /-- The requirements of a constraint are due, perhaps after their parameters. -/
  | requirements
  /-- The name of a member is due. -/
  | member
  /-- The initial value of a member is due. -/
  | value
  /-- A list of initializers that may end here. -/
  | initialized
  deriving DecidableEq

namespace Trailer

/-- Words that qualify a function behind its parameters. -/
def qualifiers : List String :=
  ["const", "volatile", "mutable", "override", "final", "try", "restrict", "__restrict__",
    "__extension__"]

/-- Words that may have parentheses behind the parameters of a function. -/
def specifiers : List String :=
  ["noexcept", "throw", "__attribute__", "__attribute", "__declspec", "alignas", "asm", "__asm__",
    "__asm"]

/-- The step from a place where qualifiers may stand. -/
def stepPlain : Piece → Option Trailer
  | .word w =>
    if w = "requires" then some demand
    else if specifiers.contains w then some called
    else if qualifiers.contains w then some plain
    else if Cpp.isKeyword w then none
    else some strange
  | .symbol "&" => some plain
  | .symbol "->" => some result
  | .symbol ":" => some member
  | .group .square _ => some plain
  | _ => none

/-- The step from a constraint that may end. -/
def stepDemanded : Piece → Option Trailer
  | .symbol "::" => some demand
  | .symbol "&" => some demand
  | .symbol "|" => some demand
  | .symbol "." => some demanded
  | .symbol "->" => some result
  | .word "and" => some demand
  | .word "or" => some demand
  | .arguments => some demanded
  | .group .round _ => some demanded
  | .word w => stepPlain (.word w)
  | _ => none

/-- The step from an operand of a constraint that is due. -/
def stepDemand : Piece → Option Trailer
  | .word "requires" => some requirements
  | .word "template" => some demand
  | .word "not" => some demand
  | .word _ => some demanded
  | .symbol "!" => some demand
  | .symbol "::" => some demand
  | .symbol "&" => some demand
  | .symbol "|" => some demand
  | .group .round _ => some demanded
  | .constant _ => some demanded
  | _ => none

/-- The step from a result type. -/
def stepResult : Piece → Option Trailer
  | .word "requires" => some demand
  | .word _ => some result
  | .symbol "::" => some result
  | .symbol "*" => some result
  | .symbol "&" => some result
  | .symbol "->" => some result
  | .arguments => some result
  | .group .round _ => some result
  | .group .square _ => some result
  | _ => none

/-- One step over a piece, if it may stand there. Several words of unknown meaning may
stand together if `isLoose`. -/
def step (isLoose : Bool) : Trailer → Piece → Option Trailer
  | plain, p => stepPlain p
  | called, .group .round _ => some plain
  | called, p => stepPlain p
  | strange, .symbol "&" => none
  | strange, p => (stepPlain p).filter fun t => t ≠ strange || isLoose
  | result, p => stepResult p
  | demand, p => stepDemand p
  | demanded, p => stepDemanded p
  | requirements, .group .round _ => some requirements
  | requirements, .group .brace _ => some demanded
  | requirements, _ => none
  | member, .word "template" => some member
  | member, .word _ => some value
  | member, .symbol "::" => some member
  | member, _ => none
  | value, .symbol "::" => some member
  | value, .arguments => some value
  | value, .group .round _ => some initialized
  | value, .group .brace _ => some initialized
  | value, _ => none
  | initialized, .symbol "," => some member
  | initialized, .symbol "." => some initialized
  | initialized, _ => none

/-- Whether braces that come next are the body. -/
def endsHeader : Trailer → Bool
  | plain | called | strange | result | demanded | initialized => true
  | demand | requirements | member | value => false

/-- Reads pieces behind parameters, if only such stand there as may. -/
def read? (isLoose : Bool) (ps : List Piece) : Option Trailer := ps.foldlM (step isLoose) plain

end Trailer

end Simgen.Source
