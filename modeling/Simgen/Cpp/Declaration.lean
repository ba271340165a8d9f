import Simgen.Combine.Basic
import Simgen.Text.Blank

/-! The declarations and statements that generated code consists of, apart from the
lines that are taken over from descriptors and sources. -/
namespace Simgen.Cpp

/-- A type as it is handed over: primitives by value, composites by reference. -/
def passed : ValueType → String
  | .primitive p => p.name
  | .composite name => name ++ " &"

/-- A parameter as it is written. -/
structure Parameter where
  type : String
  name : String
  deriving DecidableEq

def Parameter.text (p : Parameter) : String := p.type ++ " " ++ p.name

/-- A parameter list without its parentheses. -/
def parameterList (ps : List Parameter) : String := ", ".intercalate (ps.map Parameter.text)

/-- The parameters of a signature; returned values come last, as pointers. -/
def parameters (s : Signature) : List Parameter :=
  (s.params.map fun p => { type := passed p.type, name := p.name }) ++
    s.returns.map fun p => { type := p.type.text ++ " *", name := p.name }

/-- What is called. -/
inductive Callee where
  | plain (name : String)
  | pointed (object method : String)
  | member (object method : String)
  deriving DecidableEq

def Callee.text : Callee → String
  | plain name => name
  | pointed object method => object ++ "->" ++ method
  | member object method => object ++ "." ++ method

inductive Statement where
  | call (callee : Callee) (arguments : List String)
  /-- Returns what a call gives. -/
  | giveBack (callee : Callee) (arguments : List String)
  | assign (target value : String)
  /-- Sets a member from a field of the constructor's argument. -/
  | inject (member field : String)
  deriving DecidableEq

def Statement.text : Statement → String
  | call callee arguments => callee.text ++ "(" ++ ", ".intercalate arguments ++ ");"
  | giveBack callee arguments =>
    "return " ++ callee.text ++ "(" ++ ", ".intercalate arguments ++ ");"
  | assign target value => target ++ " = " ++ value ++ ";"
  | inject member field => "this->" ++ member ++ " = arg." ++ field ++ ";"

/-- A declaration in a class. -/
inductive Declaration where
  | field (type name : String) (initial : Option String)
  /-- A pointer to a function without result. -/
  | callback (name : String) (parameters : List Parameter)
  /-- A method with its body on the same line; `ending` follows the closing brace. -/
  | method (type name : String) (parameters : List Parameter) (body : List Statement)
    (ending : String)
  /-- A method that is defined elsewhere. -/
  | prototype (name : String) (parameters : List Parameter)
  deriving DecidableEq

namespace Declaration

/-- The name that a declaration introduces. -/
def name : Declaration → String
  | field _ name _ => name
  | callback name _ => name
  | method _ name .. => name
  | prototype name _ => name

def text : Declaration → String
  | field type name none => type ++ " " ++ name ++ ";"
  | field type name (some value) => type ++ " " ++ name ++ " = " ++ value ++ ";"
  | callback name ps => "void (*" ++ name ++ ")(" ++ parameterList ps ++ ");"
  | method type name ps body ending =>
    type ++ " " ++ name ++ "(" ++ parameterList ps ++ ") \x7b " ++
      " ".intercalate (body.map Statement.text) ++ " \x7d" ++ ending
  | prototype name ps => "void " ++ name ++ "(" ++ parameterList ps ++ ");"

end Declaration

/-- The comment in front of a declaration. -/
inductive Doc where
  | none
  | line (comment : String)
  /-- A comment on a function and on each of its parameters. -/
  | block (comment : String) (params : List Param)
  deriving DecidableEq

/-- The lines of a comment. -/
def Doc.lines : Doc → List String
  | none => []
  | line comment => ["/* " ++ comment ++ " */"]
  | block comment params =>
    ["/*", " * " ++ comment] ++
      (params.map fun p => Text.trimEnd (" * @param " ++ p.name ++ ": " ++ p.comment)) ++ [" */"]

/-- A declaration with its comment. -/
structure Member where
  doc : Doc
  declaration : Declaration
  deriving DecidableEq

def Member.lines (m : Member) : List String := m.doc.lines ++ [m.declaration.text]

end Simgen.Cpp
