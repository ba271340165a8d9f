import Simgen.Source.Conditional
import Simgen.Source.Declarator

/-! The items at file scope of a C++ source, as far as it takes to tell the function
definitions among them. Conditional groups are looked into whatever their condition;
namespaces, classes, linkage blocks and function bodies are not. -/
namespace Simgen.Source

/-- Words that begin a declaration and cannot go on with an expression. -/
def declarationWords : List String :=
  ["void", "bool", "char", "short", "int", "long", "float", "double", "signed", "unsigned",
    "wchar_t", "auto", "static", "inline", "extern", "constexpr", "virtual", "typedef", "template",
    "namespace", "using", "struct", "class", "union", "enum", "const", "typename"]

/-- Whether a word right behind an operand begins another item. A string goes on with
the name of another one. -/
def beginsItem (operand : Piece) (w : String) : Bool :=
  declarationWords.contains w || !Cpp.isKeyword w && operand ≠ .constant true

/-- Whether a word behind a piece of a list of declarators, or of an initializer, begins
another item: behind an operand, or where an operand is due and a type stands that is not
called. -/
def beginsNext (last : Piece) (w : String) (next : Option Piece) : Bool :=
  if endsOperand last then beginsItem last w
  else (last = .symbol "=" || last = .symbol ",") && declarationWords.contains w &&
    match next with
    | some (.group _ _) => false
    | _ => true

/-- Drops declarations that lack their semicolon: in a list of declarators or in an
initializer, a word is the end that begins another item. `last` is the piece before;
`hasColon` and `inList` say what was met already. -/
def dropUnfinished (hasColon inList : Bool) (last : Option Piece) (kept : List Piece) :
    List Piece → List Piece
  | [] => kept.reverse
  | p :: ps =>
    let isNew := match p, last with
      | .word w, some l => inList && beginsNext l w ps.head?
      | _, _ => false
    if isNew then dropUnfinished false false (some p) [p] ps
    else
      dropUnfinished (hasColon || p = .symbol ":")
        (inList || p = .symbol "=" || p = .symbol "," && !hasColon) (some p) (p :: kept) ps

/-- Whether a header has several declarators or an initializer. Commas behind a colon
belong to the bases of a class or to the initializers of members. -/
def isList : List Piece → Bool
  | [] => false
  | .symbol ":" :: ps => ps.contains (.symbol "=")
  | p :: ps => p = .symbol "=" || p = .symbol "," || isList ps

/-- Whether these pieces name a namespace. One name does not follow another. -/
def namesNamespace (afterName : Bool) : List Piece → Bool
  | [] => true
  | .group .square _ :: ps => namesNamespace afterName ps
  | .symbol "::" :: ps => namesNamespace false ps
  | .word w :: .group .round _ :: ps => callWords.contains w && namesNamespace afterName ps
  | .word "inline" :: ps => namesNamespace afterName ps
  | .word w :: ps => !afterName && !Cpp.isKeyword w && namesNamespace true ps
  | _ => false

/-- Whether a header opens a namespace. -/
def opensNamespace : List Piece → Bool
  | [] => false
  | .word "namespace" :: ps => namesNamespace false ps
  | .word "using" :: .word "namespace" :: ps => opensNamespace ps
  | _ :: ps => opensNamespace ps

/-- Whether a header ends with a linkage. -/
def opensLinkage (header : List Piece) : Bool :=
  match header.reverse with
  | .constant true :: .word "extern" :: _ => true
  | _ => false

/-- What the braces behind a header are. -/
inductive BraceRole where
  /-- A block that ends the item and whose contents are not at file scope. -/
  | scope
  /-- A part of the item, which goes on: a class body or an initializer. -/
  | part
  /-- The body of a function, whose name is given if it is a plain identifier. -/
  | body (name : Option String)
  /-- The guarded part of a function whose body is a whole `try` statement. -/
  | guarded (name : Option String)
  deriving DecidableEq

/-- Whether a symbol may stand in front of an operand. -/
def isSign (s : String) : Bool := ["*", "&", "!", "~", "+", "-"].contains s

/-- Whether an expression begins with these pieces. -/
def startsExpression : List Piece → Bool
  | .symbol s :: _ => isSign s
  | _ => false

/-- Whether a piece can stand at the beginning of no item. -/
def isStray : Piece → Bool
  | .symbol s => !isSign s && s ≠ "::"
  | _ => false

/-- Whether braces behind a header that declares no function are a block of their own:
they follow a condition or a call. -/
def endsStatement (header : List Piece) : Bool :=
  match header.reverse with
  | .group .round _ :: .word "requires" :: _ => false
  | .group .round _ :: .group .square _ :: _ => false
  | .group .round _ :: _ => true
  | _ => false

/-- Whether braces hold a statement, which an initializer does not. -/
def holdsStatement (inside : List Lexeme) : Bool :=
  inside.any fun l => l.kind = .symbol && l.text = [';']

/-- The role of braces behind a header; `isBlock` says that they hold a statement. -/
def braceRole (isBlock : Bool) (header : List Piece) : BraceRole :=
  let header := dropUnfinished false false none [] ((fold header).dropWhile isStray)
  if header.isEmpty || opensNamespace header || opensLinkage header then .scope
  else if isList header then .part
  else if startsExpression header then .scope
  else match (declared? false header).or (if isBlock then declared? true header else none) with
    | none => if endsStatement header then .scope else .part
    | some d =>
      if !d.trailer.endsHeader then .part
      else if d.isGuarded then .guarded d.name
      else .body d.name

/-- A function definition at file scope. `body` is missing where a `try` statement
stands in its place, or where it has no end. -/
structure Definition where
  name : Option String
  body : Option (List Lexeme)
  deriving DecidableEq

/-- The definition that braces with these contents make behind a header, if any. -/
def definition? (role : BraceRole) (inside : Option (List Lexeme)) : Option Definition :=
  match role with
  | .body name => some { name, body := inside }
  | .guarded name => some { name, body := none }
  | _ => none

/-- The function definitions of a source, in order. `header` holds the pieces of the
item being read. No item goes on across a directive. -/
def definitions (c : Conditions) (header : List Piece) : List Piece → List Definition
  | [] => []
  | .directive name :: ps => definitions (c.after name) [] ps
  | .symbol ";" :: ps => definitions c [] ps
  | .symbol "\x7d" :: ps => definitions c [] ps
  | .unclosed :: ps =>
    (if c.inView then (definition? (braceRole true header) none).toList else []) ++
      definitions c [] ps
  | .group .brace inside :: ps =>
    let role := braceRole (holdsStatement inside) header
    if role = .part then definitions c (header ++ [.group .brace inside]) ps
    else
      (if c.inView then (definition? role (some inside)).toList else []) ++ definitions c [] ps
  | p :: ps => definitions c (header ++ [p]) ps

end Simgen.Source
