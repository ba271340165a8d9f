/-! What can stop the compiler, or keep one combine out of the result. -/
namespace Simgen

/-- The cause of a failure. -/
inductive Cause where
  /-- The project or the output directory cannot be used as it is. -/
  | layout (text : String)
  /-- A descriptor has the wrong root element. -/
  | rootTag (expected found : String)
  /-- A descriptor does not follow its schema. -/
  | malformed (text : String)
  | alreadyBound (name boundBy : String)
  | reservedName (name : String)
  /-- Bundles that lie on a cycle of embeddings or embed one that does. -/
  | cycle (names : List String)
  /-- A code block refers to a function that its source file does not define. -/
  | bodyNotFound (combine owner func path : String)
  | invalidFile (text : String)
  | notWritten (text : String)
  | other (text : String)
  deriving DecidableEq

namespace Cause

/-- The text of a cause. -/
def message : Cause → String
  | layout text => "Project structure error: " ++ text
  | rootTag expected found =>
    "Wrong format: expected root tag `" ++ expected ++ "`, found `" ++ found ++ "`"
  | malformed text => "Malformed descriptor: " ++ text
  | alreadyBound name boundBy => "Name `" ++ name ++ "` already bound by " ++ boundBy
  | reservedName name => "Use of reserved keyword `" ++ name ++ "` as a name"
  | cycle names => "Bundle check failed: loop dependency in " ++ ", ".intercalate names
  | bodyNotFound combine owner func path =>
    "Body of function `" ++ func ++ "` not found in `" ++ path ++ "` (combine `" ++ combine ++
      "`, " ++ owner ++ ")"
  | invalidFile text => "Invalid file: " ++ text
  | notWritten text => "Failed to write output: " ++ text
  | other text => text

/-- A failed operation of the operating system, where no path is at hand. -/
def ioFailure (text : String) : Cause := notWritten ("IO Error: " ++ text)

/-- A failure to put generated text together. -/
def formatFailure : Cause :=
  notWritten "Formatting Error: an error occurred when formatting an argument"

/-- Only a missing function body is confined to the combine that refers to it. -/
def isConfined : Cause → Bool
  | bodyNotFound .. => true
  | _ => false

end Cause

/-- A failure: its cause and, where one is to blame, the descriptor file. -/
structure Error where
  cause : Cause
  file : Option String := none
  deriving DecidableEq

namespace Error

def message (e : Error) : String := e.cause.message

/-- The message, with the file in brackets behind it. -/
def display (e : Error) : String :=
  match e.file with
  | some file => e.message ++ " [" ++ file ++ "]"
  | none => e.message

def isConfined (e : Error) : Bool := e.cause.isConfined

/-- Blames `file`, whatever was blamed before. -/
def blaming (e : Error) (file : String) : Error := { e with file := some file }

end Error

end Simgen
