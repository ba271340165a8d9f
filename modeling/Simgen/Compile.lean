import Simgen.Cpp.File
import Simgen.ProjectDirectory
import Simgen.Settings

/-! Compiling a project directory into an output directory. All files are generated
before the first one is written. -/
namespace Simgen.Compile

open Files

/-- Makes the output directory, or checks that it is empty. -/
def openOutput (output : String) : Job Unit := do
  if (← Job.ask (.kind output)).isSome then
    let names ← Job.check (← Job.ask (.list output)) fun e =>
      .layout ("Cannot use `" ++ output ++ "` as output directory: " ++ e.message)
    Job.require names.isEmpty
      (.layout ("Output directory `" ++ output ++ "` is not empty, please clear it"))
  else
    Job.check (← Job.ask (.createDirectories output)) fun e =>
      .layout ("Cannot create output directory `" ++ output ++ "`: " ++ e.message)

/-- Writes a generated file into a directory. -/
def writeFile (dir : String) (f : Cpp.File) : Job Unit := do
  let path := Path.join dir f.name
  Job.check (← Job.ask (.write path f.contents.toUTF8)) fun e =>
    .notWritten (path ++ ": " ++ e.message)
  Job.note .info ("Wrote " ++ path)

/-- Copies the file `name` from one directory to another. -/
def copyFile (source target name : String) : Job Unit := do
  let path := Path.join source name
  Job.check (← Job.ask (.copy path (Path.join target name))) fun e =>
    .notWritten ("Failed to copy " ++ path ++ ": " ++ e.message)
  Job.note .info ("copy " ++ path)

/-- Copies a file if it is there, and warns if not. -/
def copyOrWarn (source target name : String) : Job Unit := do
  let path := Path.join source name
  if ← Job.isFile path then copyFile source target name
  else Job.warn (.missingSupportFile path)

/-- Copies the headers of the runtime library. -/
def copyLibrary (runtime output : String) : Job Unit := do
  let lib := Path.join runtime "lib"
  if ← Job.isDirectory lib then
    let target := Path.join output "lib"
    Job.check (← Job.ask (.createDirectories target)) fun e => .ioFailure e.message
    let names ← Job.filesIn lib fun extension => extension = "h" || extension = "hpp"
    names.forM (copyFile lib target)
  else Job.warn (.missingSupportFile lib)

/-- Copies the headers that generated code includes: the project's own and, where a
runtime directory is set, those of the runtime. -/
def copyHeaders (cppDir : String) (runtime : Option String) (output : String) : Job Unit := do
  copyOrWarn cppDir output "global.h"
  match runtime with
  | none =>
    Job.note .info ("No runtime directory configured, common.h, vulsimlib.h and lib/ have to " ++
      "be provided separately")
  | some runtime =>
    copyOrWarn runtime output "common.h"
    copyOrWarn runtime output "vulsimlib.h"
    copyLibrary runtime output

/-- Compiles a project. Combines that were dropped are in the journal. -/
def compile (root output : String) (settings : Settings) : Job Unit := do
  ProjectDirectory.check root
  openOutput output
  let project ← ProjectDirectory.load root
  let sources ← ProjectDirectory.sources project.sourcePaths
  let design ← Job.ofTraced (Design.elaborate sources project)
  Job.note .info "Running the cpp backend"
  let style : Cpp.Style := { indent := settings.indent, includes := settings.includes }
  let files ← Job.ofTraced (Cpp.generate style design)
  files.forM (writeFile output)
  copyHeaders project.cppDir settings.runtimeDir output

end Simgen.Compile
