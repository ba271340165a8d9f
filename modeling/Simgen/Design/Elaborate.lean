import Simgen.Bundle.Order
import Simgen.Combine.Namespace
import Simgen.Design.Basic
import Simgen.Design.Project
import Simgen.Files.OsError
import Simgen.Journal
import Simgen.Source.Body

/-! From descriptors to a design: types are told apart, defaults and comments filled in,
code blocks assembled, and names checked. A missing function body drops the combine
that refers to it; every other fault stops the compiler. -/
namespace Simgen

/-- The texts of hand-written source files by their paths. -/
abbrev Sources := String → Except Files.OsError String

/-- Finds a function body in a source file. -/
def Sources.body? (sources : Sources) (path func : String) : Traced (Option String) := do
  match sources path with
  | .error e =>
    Traced.fail (.invalidFile ("Failed to read C++ source " ++ path ++ ": " ++ e.message))
  | .ok text =>
    let body := Source.body? text func
    Traced.note .debug ("extracting `" ++ func ++ "` from " ++ path ++ ": " ++
      if body.isSome then "found" else "not found")
    return body

namespace Bundle

/-- The default of a member: primitives have one, `0` if nothing is given. -/
def memberOf (m : Descriptor.Member) : Bundle.Member :=
  let type := ValueType.ofName m.type
  { name := m.name, type, default := if type.isPrimitive then some (m.value.getD "0") else none }

def ofDescriptor (d : Descriptor.Bundle) : Except Cause Bundle :=
  match firstRepeat [] (d.members.map Descriptor.Member.name) with
  | some name => .error (.alreadyBound name ("another member of bundle `" ++ d.name ++ "`"))
  | none => .ok { name := d.name, members := d.members.map memberOf }

end Bundle

namespace Combine

def pipeOf (direction : Direction) (label : String) (d : Descriptor.Pipe) : Pipe :=
  { name := d.name, direction, type := .ofName d.type
    comment := d.comment.getD (label ++ " " ++ d.name) }

def paramOf (d : Descriptor.Param) : Param :=
  { name := d.name, type := .ofName d.type, comment := d.comment.getD "" }

/-- A signature, in which no name may stand twice. -/
def signatureOf (d : Descriptor.Operation) : Except Cause Signature :=
  let signature : Signature := { params := d.params.map paramOf, returns := d.returns.map paramOf }
  match firstRepeat [] (signature.all.map Param.name) with
  | some name => .error (.alreadyBound name ("another parameter of `" ++ d.name ++ "`"))
  | none => .ok signature

def requestOf (d : Descriptor.Operation) : Except Cause Request := do
  let signature ← signatureOf d
  return { name := d.name, signature, comment := d.comment.getD ("Request " ++ d.name) }

/-- The surroundings of a code block: where sources are found, and the combine. -/
structure Scope where
  sources : Sources
  cppDir : String
  combine : String

/-- The lines of a block: the referenced body first, then the fragments. -/
def codeOf (s : Scope) (owner : String) (d : Descriptor.Code) : Traced Code := do
  let referenced ← match d.reference with
    | none => pure []
    | some r =>
      let path := Files.Path.join s.cppDir r.file
      match ← s.sources.body? path r.func with
      | some body => pure [body]
      | none => Traced.fail (.bodyNotFound s.combine owner r.func path)
  return Code.ofTexts (referenced ++ d.fragments)

/-- A service or helper. Its code is looked up before its signature is checked. -/
def operationOf (s : Scope) (role : Role) (d : Descriptor.Operation) : Traced Operation := do
  let (owner, label) := match role with
    | .service => ("service", "Service")
    | .helper => ("function", "Function")
  let body ← match d.body with
    | none => pure []
    | some code => codeOf s (owner ++ " `" ++ d.name ++ "`") code
  let signature ← Traced.lift (signatureOf d)
  let comment := d.comment.getD (label ++ " " ++ d.name)
  return { role, name := d.name, signature, comment, body }

def constantOf (d : Descriptor.Constant) : Constant :=
  { name := d.name, value := d.value, comment := d.comment.getD ("Config " ++ d.name) }

/-- The code of a phase: its first block. More than one is worth a warning. -/
def phaseOf (s : Scope) (phase : String) (blocks : List Descriptor.Code) : Traced Code := do
  if 1 < blocks.length then Traced.warn (.duplicateLifecycle s.combine phase)
  match blocks with
  | [] => pure []
  | first :: _ => codeOf s phase first

def storageComment (d : Descriptor.Storage) : String := d.comment.getD ("Storage " ++ d.name)

def plainOf (d : Descriptor.Storage) : Storage :=
  let type := ValueType.ofName d.type
  .plain d.name type (d.value.or (if type.isPrimitive then some "0" else none)) (storageComment d)

def nextOf (d : Descriptor.Storage) : Storage :=
  .next d.name (.ofName d.type) d.value (storageComment d)

/-- A field that resets needs a literal default and so a primitive type. -/
def tickOf (d : Descriptor.Storage) : Except Cause Storage :=
  match ValueType.ofName d.type with
  | .primitive type => .ok (.tick d.name type (d.value.getD "0") (storageComment d))
  | .composite type =>
    .error (.malformed ("storagetick `" ++ d.name ++ "` must have a primitive type, found `" ++
      type ++ "`"))

def storageOf (d : Descriptor.Combine) : Except Cause (List Storage) := do
  let tick ← d.storageTick.mapM tickOf
  return d.storage.map plainOf ++ d.storageNext.map nextOf ++ tick

/-- Elaborates one combine. -/
def ofDescriptor (sources : Sources) (cppDir : String) (d : Descriptor.Combine) :
    Traced Combine := do
  let s : Scope := { sources, cppDir, combine := d.name }
  let requests ← Traced.lift (d.requests.mapM requestOf)
  let services ← d.services.mapM (operationOf s .service)
  let helpers ← d.functions.mapM (operationOf s .helper)
  let init ← d.init.mapM (codeOf s "init")
  let tick ← phaseOf s "tick" d.tick
  let applyTick ← phaseOf s "applytick" d.applyTick
  let storage ← Traced.lift (storageOf d)
  let combine : Combine :=
    { name := d.name
      comment := d.comment.getD ("Combine " ++ d.name)
      pipes := d.pipeIn.map (pipeOf .input "Pipe input") ++
        d.pipeOut.map (pipeOf .output "Pipe output")
      requests
      operations := services ++ helpers
      storage
      configs := d.configs.map constantOf
      init := init.flatten
      tick
      applyTick
      stallable := d.stallable }
  Traced.lift combine.checkNames
  return combine

/-- The size of a combine, for the journal. -/
def sizeNote (c : Combine) : String :=
  "Combine `" ++ c.name ++ "`: " ++ toString c.pipes.length ++ " ports, " ++
    toString c.operations.length ++ " functions, " ++ toString c.storage.length ++
    " storage fields"

/-- Elaborates one combine, blaming its descriptor. A confined failure is recorded
and leaves no combine. -/
def attempt (sources : Sources) (cppDir : String) (d : Descriptor.Combine) :
    Traced (Option Combine) :=
  let run := (ofDescriptor sources cppDir d).blaming d.source
  match run.outcome with
  | .ok c => ⟨run.journal ++ [.note .debug c.sizeNote], .ok (some c)⟩
  | .error e =>
    if e.isConfined then ⟨run.journal ++ [.failure e], .ok none⟩
    else ⟨run.journal, .error e⟩

end Combine

namespace Design

/-- Elaborates bundles in order; `seen` are the names taken already. -/
def bundlesOf (seen : List String) : List Descriptor.Bundle → Except Error (List Bundle)
  | [] => .ok []
  | d :: ds => do
    if seen.contains d.name then
      throw { cause := .alreadyBound d.name "another bundle", file := some d.source }
    let bundle ← (Bundle.ofDescriptor d).mapError fun cause =>
      { cause, file := some d.source : Error }
    let rest ← bundlesOf (d.name :: seen) ds
    return bundle :: rest

/-- Elaborates combines in order; `seen` are the names taken already, also by combines
that were dropped. -/
def combinesOf (sources : Sources) (cppDir : String) (seen : List String) :
    List Descriptor.Combine → Traced (List Combine)
  | [] => pure []
  | d :: ds => do
    if seen.contains d.name then
      Traced.blaming d.source (Traced.fail (.alreadyBound d.name "another combine"))
    let combine ← Combine.attempt sources cppDir d
    let rest ← combinesOf sources cppDir (d.name :: seen) ds
    return combine.toList ++ rest

/-- Elaborates a project. -/
def elaborate (sources : Sources) (p : Project) : Traced Design := do
  let bundles ← .ofExcept (bundlesOf [] p.bundles)
  let order ← Bundle.arrange bundles
  let combines ← combinesOf sources p.cppDir [] p.combines
  return { bundles, order, combines }

end Design

end Simgen
