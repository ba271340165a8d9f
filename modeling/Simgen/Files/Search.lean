import Simgen.Files.Path
import Simgen.Files.Program

/-! Looking for a file in the working directory and in those above it. -/
namespace Simgen.Files.Job

/-- The paths at which a file is looked for. A relative path is meant from the working
directory, or else from one of the directories above it. -/
def candidates (path : String) : Job (List String) := do
  if Path.isAbsolute path then return [path]
  match ← ask .workingDirectory with
  | .error _ => return []
  | .ok dir => return (Path.upwards dir).map fun outer => Path.join outer path

/-- The first of some paths at which a file stands. -/
def firstFile? : List String → Job (Option String)
  | [] => pure none
  | path :: paths => do if ← isFile path then return some path else firstFile? paths

/-- Where a file is found, if it is. -/
def search? (path : String) : Job (Option String) := do firstFile? (← candidates path)

end Simgen.Files.Job
