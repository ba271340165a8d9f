import Simgen.Source.Piece

/-! Telling the parameters of a function from the arguments of a call: both stand in
parentheses behind a name. -/
namespace Simgen.Source

/-- What a list in parentheses can be. -/
inductive ListKind where
  | parameters
  | arguments
  | either
  deriving DecidableEq

/-- Names of types that need no declaration. -/
def basicTypes : List String :=
  ["void", "bool", "char", "short", "int", "long", "float", "double", "signed", "unsigned",
    "char8_t", "char16_t", "char32_t", "char64_t", "size_t", "ssize_t", "ptrdiff_t", "intptr_t",
    "uintptr_t", "charptr_t", "nullptr_t", "max_align_t", "int8_t", "int16_t", "int32_t", "int64_t",
    "uint8_t", "uint16_t", "uint32_t", "uint64_t"]

/-- Words that only a declaration has. -/
def declaringWords : List String :=
  ["auto", "const", "volatile", "struct", "class", "union", "enum", "typename", "register",
    "static", "constexpr", "decltype", "typeof", "__typeof__", "alignas", "__attribute__",
    "__attribute", "__declspec"]

/-- Words that only an expression has. -/
def valueWords : List String :=
  ["true", "TRUE", "false", "FALSE", "nullptr", "NULL", "this", "sizeof", "alignof", "new",
    "delete", "not", "typeid", "throw", "co_await", "static_cast", "dynamic_cast", "const_cast",
    "reinterpret_cast", "requires", "noexcept"]

/-- What stands right before a place in a list. -/
inductive ListPlace where
  /-- Nothing of the entry. -/
  | start
  | name
  /-- A mark of a pointer or reference. -/
  | mark
  | other
  /-- The default value of a parameter has begun. -/
  | default
  deriving DecidableEq

/-- What a list shows by its first piece that can stand in one kind of list only. `inner`
tells what further parentheses show. In them (not `isOuter`), the mark of a pointer may
begin a declarator. -/
def scanList (inner : List Lexeme → ListKind) (isOuter : Bool) (place : ListPlace) :
    List Piece → ListKind
  | [] => .either
  | .symbol "," :: ps => scanList inner isOuter .start ps
  | .symbol "." :: .symbol "." :: .symbol "." :: ps =>
    if place = .start then .parameters
    else scanList inner isOuter (if place = .default then .default else .name) ps
  | p :: ps =>
    if place = .default then scanList inner isOuter .default ps
    else match p with
      | .symbol "=" => scanList inner isOuter .default ps
      | .symbol "::" => scanList inner isOuter .other ps
      | .symbol s =>
        if (s = "*" || s = "&") && !(isOuter && place = .start) then scanList inner isOuter .mark ps
        else .arguments
      | .constant _ => .arguments
      | .group .brace _ => .arguments
      | .group .square inside =>
        if place = .start && !holdsAttributes inside then .arguments
        else scanList inner isOuter (if place = .name then .name else .other) ps
      | .group .round inside =>
        if isOuter && place = .start || inner inside = .arguments then .arguments
        else scanList inner isOuter .other ps
      | .word w =>
        if place = .name || declaringWords.contains w then .parameters
        else if place = .mark then scanList inner isOuter .name ps
        else if valueWords.contains w then .arguments
        else if basicTypes.contains w then match ps with
          | .group .brace _ :: _ => .arguments
          | .group .round inside :: _ =>
            if inner inside = .arguments then .arguments else .parameters
          | _ => .parameters
        else scanList inner isOuter .name ps
      | .arguments => scanList inner isOuter .name ps
      | .unclosed => scanList inner isOuter place ps
      | .directive _ => scanList inner isOuter place ps

/-- What the contents of parentheses can be; `fuel` bounds their nesting. -/
def listKind : (fuel : Nat) → (isOuter : Bool) → List Lexeme → ListKind
  | 0, _, _ => .either
  | fuel + 1, isOuter, inside =>
    scanList (listKind fuel false) isOuter .start (fold (pieces inside))

/-- What the contents of parentheses behind a name can be. -/
def listKindOf (inside : List Lexeme) : ListKind := listKind (inside.length + 1) true inside

end Simgen.Source
