import Simgen.CommandLine

/-! The program itself: it answers the queries of a run from the file system and prints
how the run ends. -/
namespace Simgen.Files

/-- A failed operation as the compiler knows it. -/
def OsError.ofFailure (e : IO.Error) : OsError :=
  match e with
  | .noFileOrDirectory .. => .notFound
  | .alreadyExists .. => .alreadyThere
  | .inappropriateType _ 20 _ => .notDirectory
  | .inappropriateType _ 21 _ => .isDirectory
  | e => .other (toString e)

def attempt {α : Type} (action : IO α) : IO (Except OsError α) := do
  try return .ok (← action) catch e => return .error (.ofFailure e)

/-- What stands at a path. -/
def kindAt (path : String) : IO (Option Kind) := do
  match ← attempt (do return (← (← IO.FS.realPath path).metadata).type) with
  | .error _ => return none
  | .ok .dir => return some .directory
  | .ok _ => return some .file

/-- Answers a query from the file system. -/
def answerFromDisk : (q : Query) → IO q.Answer
  | .workingDirectory => attempt do return (← IO.currentDir).toString
  | .kind path => kindAt path
  | .list path => attempt do
    let entries ← (← IO.FS.realPath path).readDir
    return entries.toList.map fun e => e.fileName
  | .read path => attempt (IO.FS.readBinFile path)
  | .write path contents => attempt (IO.FS.writeBinFile path contents)
  | .createDirectories path => attempt (if path = "" then pure () else IO.FS.createDirAll path)
  | .copy source target => attempt do
    let _ ← IO.FS.readBinFile source
    IO.FS.writeBinFile target .empty
    IO.FS.writeBinFile target (← IO.FS.readBinFile source)

end Simgen.Files

def main (arguments : List String) : IO UInt32 := do
  let exit ← (Simgen.CommandLine.run arguments).runWith Simgen.Files.answerFromDisk
  IO.print exit.stdout
  IO.eprint exit.stderr
  return exit.code.toUInt32
