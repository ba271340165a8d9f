import Simgen.Source.Item
import Simgen.Source.Splice

/-! The body of a function in a hand-written source. -/
namespace Simgen.Source

/-- The function definitions at file scope of a source, in order. -/
def definitionsOf (source : String) : List Definition :=
  definitions [] [] (pieces (balance 0 [] (scan (splice source.toList))))

/-- The text between the braces of the first file-scope definition of exactly this
name, without blanks at its ends. -/
def body? (source name : String) : Option String :=
  ((definitionsOf source).find? fun d => d.name = some name).bind fun d =>
    d.body.map fun inside => String.ofList (Text.trimChars (inside.flatMap Lexeme.text))

end Simgen.Source
