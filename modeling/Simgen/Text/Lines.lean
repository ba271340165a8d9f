/-! Lines of a text. A line ends at a line feed; one carriage return before the
line feed belongs to the line end. -/
namespace Simgen.Text

/-- Cuts a text behind every line feed. The chunks keep their line ends, so that
they concatenate to the text; no chunk is empty. -/
def chunks : List Char → List (List Char)
  | [] => []
  | c :: cs =>
    if c = '\n' then [c] :: chunks cs
    else match chunks cs with
      | [] => [[c]]
      | chunk :: rest => (c :: chunk) :: rest

/-- A chunk without its line end. A chunk that does not end in a line feed has
none, even if it ends in a carriage return. -/
def chunkLine (chunk : List Char) : List Char :=
  match chunk.reverse with
  | '\n' :: '\r' :: rest => rest.reverse
  | '\n' :: rest => rest.reverse
  | _ => chunk

/-- The lines of a text. A line end at the very end starts no further line. -/
def lines (s : String) : List String :=
  (chunks s.toList).map fun chunk => String.ofList (chunkLine chunk)

end Simgen.Text
