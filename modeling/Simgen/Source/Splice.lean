import Simgen.Text.Blank
import Simgen.Text.Lines

/-! Line continuations. A backslash continues a line only right before the line end;
blanks that were left between the two are taken out. -/
namespace Simgen.Source

def isLineEnd (c : Char) : Bool := c == '\n' || c == '\r'

def isGap (c : Char) : Bool := c == ' ' || c == '\t'

/-- Whether blanks stand between a final backslash of a line and the line end, which the
line may hold. -/
def isLoose (line : List Char) : Bool :=
  let content := Text.dropEndWhile isLineEnd line
  let kept := Text.dropEndWhile isGap content
  decide (kept.length < content.length) && kept.getLast? == some '\\'

/-- A line without the blanks between a final backslash and the line end. Other lines stay
as they are. -/
def spliceLine (line : List Char) : List Char :=
  if isLoose line then
    let content := Text.dropEndWhile isLineEnd line
    Text.dropEndWhile isGap content ++ line.drop content.length
  else line

/-- Splices a text line by line. -/
def spliceLines (cs : List Char) : List Char := (Text.chunks cs).flatMap spliceLine

/-- Splices every line of a text. A text without loose lines is handed back as it is. -/
def splice (cs : List Char) : List Char :=
  if (Text.chunks cs).any isLoose then spliceLines cs else cs

end Simgen.Source
