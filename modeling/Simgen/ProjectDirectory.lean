import Simgen.Descriptor.Reader
import Simgen.Design.Elaborate
import Simgen.Files.Listing

/-! A project directory: `bundle/` and `combine/` hold descriptors, `cpp/` hand-written
sources. Descriptors are read in the order of their file names. -/
namespace Simgen.ProjectDirectory

open Files

/-- The directories of a project. -/
def subdirectories : List String := ["bundle", "combine", "cpp"]

/-- Checks that a directory of a project is there. -/
def checkSubdirectory (root sub : String) : Job Unit := do
  Job.require (← Job.isDirectory (Path.join root sub))
    (.layout ("Project directory `" ++ root ++ "` has no `" ++ sub ++ "` subdirectory"))

/-- Checks that a project directory has its directories. -/
def check (root : String) : Job Unit := do
  Job.require (← Job.isDirectory root) (.layout ("`" ++ root ++ "` is not a directory"))
  subdirectories.forM (checkSubdirectory root)

/-- Reads a descriptor file. -/
def descriptor {α : Type} (parse : (document source : String) → Traced α) (path : String) :
    Job α := do
  let document ← Job.check (← Job.readText path) fun e =>
    .invalidFile ("Failed to read " ++ path ++ ": " ++ e.message)
  Job.ofTraced (parse document path)

/-- Reads all descriptors of a directory. -/
def descriptors {α : Type} (parse : (document source : String) → Traced α) (dir : String) :
    Job (List α) := do
  let names ← Job.filesIn dir (· = "xml")
  names.mapM fun name => descriptor parse (Path.join dir name)

/-- Reads a project. The first descriptor that cannot be read ends the reading. -/
def load (root : String) : Job Project := do
  check root
  let bundles ← descriptors Descriptor.Bundle.parse (Path.join root "bundle")
  let combines ← descriptors Descriptor.Combine.parse (Path.join root "combine")
  return { cppDir := Path.join root "cpp", bundles, combines }

/-- Reads the source files at some paths. -/
def sources (paths : List String) : Job Sources := do
  let texts ← paths.mapM fun path => return (path, ← Job.readText path)
  return fun path => (texts.lookup path).getD (.error .notFound)

/-- Finds a function body in a source file. -/
def body? (path func : String) : Job (Option String) := do
  Job.ofTraced ((← sources [path]).body? path func)

end Simgen.ProjectDirectory
