import Simgen.Proofs.Cpp.Layout

/-! The pieces of generated files. The layout of a header is laid down here once: what a header
declares, where its comments stand and where it holds the code of a combine is read off its
pieces. -/
namespace Simgen.Cpp

def Declaration.parameters : Declaration → List Parameter
  | field .. => []
  | callback _ ps => ps
  | method _ _ ps .. => ps
  | prototype _ ps => ps

/-- The identifiers that a declaration introduces: its own, and those of its parameters. -/
def Declaration.identifiers (d : Declaration) : List String :=
  d.name :: d.parameters.map Parameter.name

/-- A piece of a generated file. -/
inductive Piece where
  /-- Lines that introduce nothing: directives, braces, statements, and code that is taken over. -/
  | silent (lines : List Line)
  | comment (depth : Nat) (doc : Doc)
  | declaration (depth : Nat) (d : Declaration)
  | struct (name : String) (members : List Declaration)
  /-- The line that opens a class. -/
  | opening (depth : Nat) (name : String)
  /-- The line that opens the constructor. -/
  | constructor (className argument : String)
  /-- The definition of a method. -/
  | definition (className : String) (m : MethodDefinition)

namespace Piece

def lines : Piece → List Line
  | silent lines => lines
  | comment depth doc => doc.lines.map fun text => { depth, text }
  | declaration depth d => [{ depth, text := d.text }]
  | struct name members =>
    [flush "typedef struct \x7b"] ++ (members.map fun d => indented d.text) ++
      [flush ("\x7d " ++ name ++ ";")]
  | opening depth name => [{ depth, text := "class " ++ name ++ " \x7b" }]
  | constructor className argument =>
    [indented (className ++ "(ConstructorArguments & " ++ argument ++ ") \x7b")]
  | definition className m => m.lines className

/-- The identifiers that the piece introduces. -/
def identifiers : Piece → List String
  | silent _ => []
  | comment .. => []
  | declaration _ d => d.identifiers
  | struct name members => name :: members.flatMap Declaration.identifiers
  | opening _ name => [name]
  | constructor className argument => [className, argument]
  | definition _ m => m.name :: m.parameters.map Parameter.name

end Piece

/-- The beginning of a header, up to the body of the class. -/
def openingPieces (style : Style) (c : Combine) : List Piece :=
  [.silent (prologue (commonHeaders ++ combineHeaders ++ style.includes)),
    .comment 0 (.line c.comment), .opening 0 c.name, .silent [flush "public:"]]

/-- The class of what the constructor takes. -/
def argumentPieces (c : Combine) : List Piece :=
  [.opening 1 "ConstructorArguments", .silent [indented "public:"]] ++
    ((injections c).map fun i => .declaration 2 i.argument) ++
    [.declaration 2 (.field "int32" "__dummy" (some "0")), .silent [indented "\x7d;", flush ""]]

/-- The constructor, with the code of the combine. -/
def constructorPieces (c : Combine) : List Piece :=
  [.constructor c.name "arg",
    .silent (((injections c).map fun i => { depth := 2, text := i.statement.text }) ++
      (c.init.map fun text => { depth := 2, text }) ++ [indented "\x7d", flush ""])]

/-- What the class has besides, and its end. -/
def memberPieces (c : Combine) : List Piece :=
  [.silent (destructor c)] ++ (lifecyclePrototypes.map fun d => .declaration 1 d) ++
    [.silent [flush ""]] ++
    ((classMembers c).flatMap fun m => [.comment 1 m.doc, .declaration 1 m.declaration]) ++
    [.silent [flush "\x7d;"]]

/-- The pieces of a header. -/
def headerPieces (style : Style) (c : Combine) : List Piece :=
  openingPieces style c ++ argumentPieces c ++ constructorPieces c ++ memberPieces c

theorem lines_declarations {α : Type} (depth : Nat) (declare : α → Declaration) (items : List α) :
    (items.map fun a => Piece.declaration depth (declare a)).flatMap Piece.lines =
      items.map fun a => { depth, text := (declare a).text } := by
  rw [List.flatMap_map, List.map_eq_flatMap]
  rfl

theorem lines_openingPieces (style : Style) (c : Combine) :
    (openingPieces style c).flatMap Piece.lines =
      prologue (commonHeaders ++ combineHeaders ++ style.includes) ++
        [flush ("/* " ++ c.comment ++ " */"), flush ("class " ++ c.name ++ " \x7b"),
          flush "public:"] := by
  simp [openingPieces, Piece.lines, Doc.lines, flush]

theorem lines_argumentPieces (c : Combine) :
    (argumentPieces c).flatMap Piece.lines = argumentClass c := by
  simp only [argumentPieces, argumentClass, List.flatMap_append, lines_declarations]
  simp [Piece.lines, indented]

theorem lines_constructorPieces (c : Combine) :
    (constructorPieces c).flatMap Piece.lines = constructor c := by
  have hOpening : c.name ++ "(ConstructorArguments & " ++ "arg" ++ ") \x7b" =
      c.name ++ "(ConstructorArguments & arg) \x7b" := by
    rw [String.append_assoc, String.append_assoc]
    rfl
  simp [constructorPieces, constructor, Piece.lines, hOpening]

theorem lines_memberPieces (c : Combine) :
    (memberPieces c).flatMap Piece.lines =
      destructor c ++ (lifecyclePrototypes.map fun d => indented d.text) ++ [flush ""] ++
        ((classMembers c).flatMap fun m => m.lines.map indented) ++ [flush "\x7d;"] := by
  have hMember : ∀ m : Member,
      [Piece.comment 1 m.doc, .declaration 1 m.declaration].flatMap Piece.lines =
        m.lines.map indented := by
    intro m
    simp [Piece.lines, Member.lines, indented]
  have hPhases := lines_declarations 1 (fun d => d) lifecyclePrototypes
  simp only [memberPieces, List.flatMap_append, List.flatMap_assoc, hMember, hPhases]
  simp [Piece.lines, indented]

theorem lines_headerPieces (style : Style) (c : Combine) :
    (headerPieces style c).flatMap Piece.lines = classHeader style c := by
  simp only [headerPieces, classHeader, List.flatMap_append, lines_openingPieces,
    lines_argumentPieces, lines_constructorPieces, lines_memberPieces, List.append_assoc]

end Simgen.Cpp
