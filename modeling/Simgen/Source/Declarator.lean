import Simgen.Source.Parameters
import Simgen.Source.Trailer

/-! The function that the header of a definition declares. A header holds the pieces of
an item in front of braces. -/
namespace Simgen.Source

/-- Words whose parentheses belong to a specifier or a statement and never hold
parameters. -/
def callWords : List String :=
  ["alignas", "_Alignas", "asm", "__asm__", "__asm", "__attribute__", "__attribute",
    "__declspec", "catch", "co_return", "co_yield", "decltype", "explicit", "for", "if",
    "noexcept", "requires", "return", "sizeof", "static_assert", "switch", "throw", "typeof",
    "__typeof__", "typeid", "while", "_Pragma"]

/-- Words that may stand in front of the type in a declaration. -/
def specifierWords : List String :=
  ["static", "inline", "extern", "constexpr", "consteval", "constinit", "virtual", "explicit",
    "friend", "register", "thread_local", "typedef", "const", "volatile", "mutable", "template",
    "typename", "struct", "class", "union", "enum", "__inline", "__inline__", "__forceinline",
    "__extension__", "_Noreturn", "__attribute__", "__attribute", "__declspec", "alignas"]

/-- Words behind which a type is named. -/
def elaboratingWords : List String := ["struct", "class", "union", "enum", "typename"]

/-- Words that give a function its calling convention. -/
def conventionWords : List String :=
  ["__cdecl", "__clrcall", "__stdcall", "__fastcall", "__thiscall", "__vectorcall"]

/-- Words behind which an expression stands. -/
def expressionWords : List String :=
  ["return", "throw", "new", "delete", "goto", "co_return", "co_yield", "co_await", "sizeof",
    "not", "case"]

/-- Whether the contents of parentheses begin like a declarator. -/
def beginsDeclarator (inside : List Lexeme) : Bool :=
  (firstInside? inside).any fun l =>
    l.text = ['*'] || l.text = ['&'] || Bracket.round.opens l ||
      conventionWords.contains (String.ofList l.text)

/-- The pieces before a name, in reverse, without the qualifier of the name. -/
def dropQualifier : List Piece → List Piece
  | .word "template" :: .symbol "::" :: ps => dropQualifier (.symbol "::" :: ps)
  | .symbol "::" :: .arguments :: .word _ :: ps => dropQualifier ps
  | .symbol "::" :: .word w :: ps => if Cpp.isKeyword w then .word w :: ps else dropQualifier ps
  | .symbol "::" :: ps => ps
  | ps => ps
  termination_by ps => ps.length

/-- Whether a name behind these pieces, in reverse, is no plain identifier. -/
def isQualified : List Piece → Bool
  | .symbol "::" :: _ => true
  | .symbol "~" :: _ => true
  | .word "template" :: .symbol "::" :: _ => true
  | _ => false

/-- Whether these pieces, in reverse, end with the mark of a pointer to a member. -/
def hasMemberPointer : List Piece → Bool
  | .symbol "*" :: .symbol "::" :: _ => true
  | .symbol "*" :: ps => hasMemberPointer ps
  | .symbol "&" :: ps => hasMemberPointer ps
  | .word "const" :: ps => hasMemberPointer ps
  | .word "volatile" :: ps => hasMemberPointer ps
  | _ => false

/-- Whether a piece may stand in front of the type in a declaration. -/
def isModifier : Piece → Bool
  | .word w => specifierWords.contains w
  | .arguments => true
  | .constant isText => isText
  | .group .round _ => true
  | .group .square _ => true
  | _ => false

/-- Whether a name behind these pieces, in reverse, is the first of its declaration. -/
def isFirstName (before : List Piece) : Bool := (dropQualifier before).all isModifier

/-- Whether an expression goes on behind these pieces, in reverse. -/
def inExpression (before : List Piece) : Bool :=
  match dropQualifier before with
  | .symbol s :: p :: _ => [".", "->", "?", ":"].contains s && endsOperand p
  | .word w :: _ => expressionWords.contains w
  | _ => false

/-- Keywords that mean something where the name of a function may stand. -/
def declaratorWords : List String :=
  ["alignas", "asm", "auto", "const", "consteval", "constexpr", "constinit", "decltype",
    "explicit", "extern", "friend", "inline", "mutable", "operator", "register", "static",
    "template", "thread_local", "typename", "virtual", "volatile", "wchar_t"]

/-- Whether a keyword behind these pieces, in reverse, is a name: a type is complete, and
the keyword cannot go on with the declaration. In a requirement no name is due. -/
def isKeywordName (w : String) (before : List Piece) : Bool :=
  Cpp.isKeyword w && !basicTypes.contains w && !declaratorWords.contains w &&
    !before.contains (.word "requires") &&
    match before with
    | .word t :: earlier =>
      basicTypes.contains t || t = "auto" || !Cpp.isKeyword t && isFirstName earlier
    | .arguments :: .word t :: earlier => t ≠ "template" && isFirstName earlier
    | .symbol s :: _ => s = "*" || s = "&" || s = "("
    | _ => false

/-- What parentheses in a header are. -/
inductive CallRole where
  /-- They belong to a specifier. -/
  | specifier
  /-- They enclose a declarator. -/
  | enclosing
  /-- They hold the parameters of a function, whose name is given if it is plain. -/
  | parameters (name : Option String)
  /-- They hold the arguments of a call or of an initialization. -/
  | arguments

/-- The role of parentheses behind a word, which is followed by template arguments if
`hasArguments`. `before` is what stands before the word, in reverse. -/
def wordRole (w : String) (hasArguments : Bool) (before : List Piece) (inside : List Lexeme) :
    CallRole :=
  if isKeywordName w before then .parameters (some w)
  else if callWords.contains w then .specifier
  else if w = "operator" || before.contains (.word "operator") then .parameters none
  else if Cpp.isKeyword w && w ≠ "wchar_t" || basicTypes.contains w then .enclosing
  else if elaboratingWords.any fun e => (dropQualifier before).head? = some (.word e) then
    .enclosing
  else if isFirstName before && beginsDeclarator inside then .enclosing
  else if inExpression before || listKindOf inside = .arguments then .arguments
  else if hasArguments || isQualified before || hasMemberPointer before then .parameters none
  else .parameters (some w)

/-- The role of parentheses behind the pieces `before`, in reverse. -/
def callRole (before : List Piece) (inside : List Lexeme) : CallRole :=
  match before with
  | [] => .parameters none
  | .word w :: before => wordRole w false before inside
  | .arguments :: .word w :: before => wordRole w true before inside
  | .group .square captures :: _ =>
    if holdsAttributes captures then .enclosing else .arguments
  | _ => .enclosing

/-- Whether a piece makes a declarator go on: a second parameter list or an array bound. -/
def isSuffix : Piece → Bool
  | .group .round _ => true
  | .group .square inside => !holdsAttributes inside
  | _ => false

/-- Whether a template is declared by these pieces, in reverse. -/
def declaresTemplate : List Piece → Bool
  | .word "template" :: .symbol "::" :: ps => declaresTemplate ps
  | .word "template" :: _ => true
  | _ :: ps => declaresTemplate ps
  | [] => false

/-- Whether a linkage is declared by these pieces, in reverse: `extern` and a string. -/
def declaresLinkage : List Piece → Bool
  | .constant true :: .word "extern" :: _ => true
  | _ :: ps => declaresLinkage ps
  | [] => false

/-- What a header declares: the name, if it is a plain identifier at file scope, and how
the header ends. -/
structure Declared where
  name : Option String
  trailer : Trailer
  isGuarded : Bool
  deriving DecidableEq

/-- Finds the function that a header declares: the first parentheses that can hold its
parameters, with nothing behind them but what may follow parameters. What stands before
is left out if it makes no sense as a part of the definition. `inner` gives the name that
a declarator in parentheses declares; `isLoose` is for what follows parameters; `isInner`
says that a template or a linkage encloses what follows; `before` is what was passed
already, in reverse. -/
def declaredBy? (inner : List Lexeme → Option String) (isLoose isInner : Bool)
    (before : List Piece) : List Piece → Option Declared
  | [] => none
  | .group .round inside :: after =>
    let rest := after.dropWhile isSuffix
    let isNested := isInner || declaresTemplate before || declaresLinkage before
    let declared (name : Option String) : Option Declared :=
      (Trailer.read? isLoose rest).map fun trailer =>
        { name := if after.head?.any isSuffix || isNested then none else name
          trailer
          isGuarded := rest.contains (.word "try") }
    let role := callRole before inside
    let found : Option Declared := match role with
      | .parameters name => declared name
      | .enclosing => declared (inner inside)
      | _ => none
    match role, found with
    | .specifier, _ => declaredBy? inner isLoose isInner (.group .round inside :: before) after
    | _, some d => some d
    | _, none => declaredBy? inner isLoose (isNested && isFirstName (before.drop 1)) [] rest
  | p :: after => declaredBy? inner isLoose isInner (p :: before) after
  termination_by ps => ps.length
  decreasing_by
  · exact Nat.lt_succ_self _
  · exact Nat.lt_succ_of_le (List.dropWhile_suffix isSuffix).length_le
  · exact Nat.lt_succ_self _

/-- The name that a declarator in parentheses declares; `fuel` bounds their nesting. -/
def enclosedName? : (fuel : Nat) → List Lexeme → Option String
  | 0, _ => none
  | fuel + 1, inside =>
    (declaredBy? (enclosedName? fuel) false false [.symbol "("] (fold (pieces inside))).bind
      (·.name)

/-- The function that a header declares. -/
def declared? (isLoose : Bool) (header : List Piece) : Option Declared :=
  declaredBy? (fun inside => enclosedName? (inside.length + 1) inside) isLoose false [] header

end Simgen.Source
