import Simgen.Files.Path
import Simgen.Files.Program
import Simgen.Ident

/-! The files of a directory, in an order of their own. -/
namespace Simgen.Files.Job

/-- Those of some names in a directory that are files. -/
def keepFiles (dir : String) : List String → Job (List String)
  | [] => pure []
  | name :: names => do
    let isFile ← isFile (Path.join dir name)
    let kept ← keepFiles dir names
    return if isFile then name :: kept else kept

/-- The files of a directory whose extension is accepted, in the order of their names.
The order in which the directory is listed does not matter. -/
def filesIn (dir : String) (accepts : String → Bool) : Job (List String) := do
  let names ← check (← ask (.list dir)) fun e =>
    .invalidFile ("Failed to list " ++ dir ++ ": " ++ e.message)
  keepFiles dir (Ident.sort (names.filter fun name => (Path.extension? name).any accepts))

end Simgen.Files.Job
