import Simgen.Cpp.Class
import Simgen.Cpp.Keyword
import Simgen.Design.Basic
import Simgen.Journal

/-! The files of generated code: a header for all bundles, and a header and a source for
each combine. -/
namespace Simgen.Cpp

/-- How files are written. -/
structure Style where
  /-- Spaces per level of indentation. -/
  indent : Nat := 4
  /-- Headers that every generated header includes besides the fixed ones. -/
  includes : List String := []
  deriving DecidableEq

structure File where
  name : String
  contents : String
  deriving DecidableEq

/-- A line with its indentation and its line end. -/
def Line.render (indent : Nat) (l : Line) : String :=
  String.ofList (List.replicate (indent * l.depth) ' ') ++ l.text ++ "\n"

def render (indent : Nat) (lines : List Line) : String :=
  String.join (lines.map (Line.render indent))

/-- Headers that every generated header includes. -/
def commonHeaders : List String := ["common.h", "global.h"]

/-- Headers that the header of a combine includes besides. -/
def combineHeaders : List String := ["bundle.h", "vulsimlib.h"]

def includeLine (header : String) : Line := flush ("#include \"" ++ header ++ "\"")

/-- The beginning of a header. -/
def prologue (headers : List String) : List Line :=
  [flush "#pragma once", flush ""] ++ headers.map includeLine ++ [flush ""]

/-- A member of a bundle. -/
def memberDeclaration (m : Bundle.Member) : Declaration :=
  .field m.type.text m.name m.default

/-- The declaration of a bundle. -/
def bundleBlock (b : Bundle) : List Line :=
  [flush "typedef struct \x7b"] ++ (b.members.map fun m => indented (memberDeclaration m).text) ++
    [flush ("\x7d " ++ b.name ++ ";"), flush ""]

def bundlesHeader (style : Style) (d : Design) : List Line :=
  prologue (commonHeaders ++ style.includes) ++ d.bundlesInOrder.flatMap bundleBlock

/-- The class of what the constructor takes. The last field keeps it from being empty. -/
def argumentClass (c : Combine) : List Line :=
  [indented "class ConstructorArguments \x7b", indented "public:"] ++
    ((injections c).map fun i => { depth := 2, text := i.argument.text }) ++
    [{ depth := 2, text := (Declaration.field "int32" "__dummy" (some "0")).text },
      indented "\x7d;", flush ""]

/-- The constructor injects dependencies, then runs the code of the combine. -/
def constructor (c : Combine) : List Line :=
  [indented (c.name ++ "(ConstructorArguments & arg) \x7b")] ++
    ((injections c).map fun i => { depth := 2, text := i.statement.text }) ++
    (c.init.map fun text => { depth := 2, text }) ++
    [indented "\x7d", flush ""]

def destructor (c : Combine) : List Line :=
  [indented ("~" ++ c.name ++ "() \x7b"), indented "\x7d", flush ""]

def lifecyclePrototypes : List Declaration := phaseMethods.map fun name => .prototype name []

def classHeader (style : Style) (c : Combine) : List Line :=
  prologue (commonHeaders ++ combineHeaders ++ style.includes) ++
    [flush ("/* " ++ c.comment ++ " */"), flush ("class " ++ c.name ++ " \x7b"), flush "public:"] ++
    argumentClass c ++ constructor c ++ destructor c ++
    (lifecyclePrototypes.map fun d => indented d.text) ++ [flush ""] ++
    ((classMembers c).flatMap fun m => m.lines.map indented) ++ [flush "\x7d;"]

/-- A method definition of the class `className`. -/
def MethodDefinition.lines (className : String) (m : MethodDefinition) : List Line :=
  [flush ("void " ++ className ++ "::" ++ m.name ++ "(" ++ parameterList m.parameters ++
    ") \x7b")] ++ m.body ++ [flush "\x7d"]

def classSource (c : Combine) : List Line :=
  [includeLine (c.name ++ ".h"), flush ""] ++
    ((operationDefinitions c).flatMap fun m => m.lines c.name ++ [flush ""]) ++
    (lifecycleDefinitions c).flatMap (·.lines c.name)

/-- The files of a combine. -/
def combineFiles (style : Style) (c : Combine) : List File :=
  [{ name := c.name ++ ".h", contents := render style.indent (classHeader style c) },
    { name := c.name ++ ".cpp", contents := render style.indent (classSource c) }]

/-- All files of a design. -/
def files (style : Style) (d : Design) : List File :=
  { name := "bundle.h", contents := render style.indent (bundlesHeader style d) } ::
    d.combines.flatMap (combineFiles style)

/-- A name of a bundle that cannot be used in generated code. -/
def bundleOffender? (b : Bundle) : Option String :=
  (b.name :: b.members.map Bundle.Member.name).find? isKeyword

/-- Whether the header of a combine would take the place of a fixed header. -/
def shadowsHeader (c : Combine) : Bool :=
  (commonHeaders ++ combineHeaders).contains (c.name ++ ".h")

/-- A name of a combine that cannot be used in generated code. -/
def combineOffender? (c : Combine) : Option String :=
  if isKeyword c.name || shadowsHeader c then some c.name
  else (c.ownNames ++ c.signatures.flatMap fun s => s.all.map Param.name).find? isKeyword

/-- Refuses names that generated code cannot use; bundles come first. -/
def checkKeywords (d : Design) : Except Cause Unit :=
  match (d.bundles.findSome? bundleOffender?).or (d.combines.findSome? combineOffender?) with
  | some name => .error (.reservedName name)
  | none => .ok ()

/-- Writes the files of a design. -/
def produce (style : Style) (d : Design) : Traced (List File) := do
  Traced.tell (d.combines.map fun c => .note .info ("Generated `" ++ c.name ++ "`"))
  return files style d

/-- Checks a design and writes its files. -/
def generate (style : Style) (d : Design) : Traced (List File) := do
  Traced.lift (checkKeywords d)
  produce style d

end Simgen.Cpp
