import Simgen.Combine.Commit
import Simgen.Combine.Namespace
import Simgen.Cpp.Declaration

/-! The class of a combine: what each of its parts declares, what is injected at
construction, and how its methods are defined. -/
namespace Simgen.Cpp

/-- What a combine depends on: a pipe or a function, both bound at construction. -/
inductive Handle where
  | pointer (type : String)
  | callback (parameters : List Parameter)
  deriving DecidableEq

/-- The declaration of a handle under a name. -/
def Handle.declare (h : Handle) (name : String) : Declaration :=
  match h with
  | pointer type => .field (type ++ " *") name none
  | callback ps => .callback name ps

/-- A dependency. The constructor's argument has a field of this name, and the class a
member of the same name with an underscore in front. -/
structure Injected where
  handle : Handle
  field : String
  deriving DecidableEq

namespace Injected

def member (i : Injected) : String := "_" ++ i.field

/-- The handle as a member of the class. -/
def declaration (i : Injected) : Declaration := i.handle.declare i.member

/-- The handle as a field of the constructor's argument. -/
def argument (i : Injected) : Declaration := i.handle.declare i.field

def statement (i : Injected) : Statement := .inject i.member i.field

end Injected

/-- What one part of a combine contributes to its class. -/
structure Part where
  injected : Option Injected
  members : List Member
  deriving DecidableEq

def bare (d : Declaration) : Member := { doc := .none, declaration := d }

def documented (comment : String) (d : Declaration) : Member :=
  { doc := .line comment, declaration := d }

/-- An accessor whose body is one statement. -/
def accessor (type name : String) (ps : List Parameter) (s : Statement) : Declaration :=
  .method type name ps [s] ";"

def inputPart (p : Pipe) : Part :=
  let i : Injected :=
    { handle := .pointer ("PipeInputPort<" ++ p.type.text ++ ">"), field := "pipein_" ++ p.name }
  { injected := some i
    members :=
      [bare i.declaration,
        documented p.comment
          (accessor "bool" (p.name ++ "_can_pop") [] (.giveBack (.pointed i.member "can_pop") [])),
        documented p.comment
          (accessor (passed p.type) (p.name ++ "_top") []
            (.giveBack (.pointed i.member "top") [])),
        documented p.comment
          (accessor "void" (p.name ++ "_pop") [] (.call (.pointed i.member "pop") []))] }

def outputPart (p : Pipe) : Part :=
  let i : Injected :=
    { handle := .pointer ("PipeOutputPort<" ++ p.type.text ++ ">"), field := "pipeout_" ++ p.name }
  { injected := some i
    members :=
      [bare i.declaration,
        documented p.comment
          (accessor "bool" (p.name ++ "_can_push") []
            (.giveBack (.pointed i.member "can_push") [])),
        documented p.comment
          (accessor "void" (p.name ++ "_push") [{ type := passed p.type, name := "value" }]
            (.call (.pointed i.member "push") ["value"]))] }

/-- A request is forwarded to its handle with all its parameters. -/
def requestPart (r : Request) : Part :=
  let ps := parameters r.signature
  let i : Injected := { handle := .callback ps, field := "request_" ++ r.name }
  { injected := some i
    members :=
      [bare i.declaration,
        { doc := .block r.comment r.signature.all
          declaration :=
            accessor "void" r.name ps (.call (.plain i.member) (ps.map Parameter.name)) }] }

def operationPart (f : Operation) : Part :=
  { injected := none
    members :=
      [{ doc := .block f.comment f.signature.all
         declaration := .prototype f.name (parameters f.signature) }] }

/-- The register of a storage field with proposals. -/
def registerName (name : String) : String := "_storagenext_" ++ name

def storageMembers : Storage → List Member
  | .plain name type default comment => [documented comment (.field type.text name default)]
  | .next name type default comment =>
    let register := "StorageNext<" ++ type.text ++ ">"
    [bare (.field register (registerName name)
        (default.map fun value => register ++ "(" ++ value ++ ")")),
      documented comment
        (accessor (passed type) (name ++ "_get") []
          (.giveBack (.member (registerName name) "get") [])),
      documented comment
        (.method "void" (name ++ "_setnext")
          [{ type := passed type, name := "value" }, { type := "uint8", name := "priority" }]
          [.call (.member (registerName name) "setnext") ["value", "priority"]] " ;")]
  | .tick name type default comment =>
    [documented comment (.field type.name name (some default))]

def storagePart (s : Storage) : Part := { injected := none, members := storageMembers s }

def configPart (c : Constant) : Part :=
  { injected := none
    members := [documented c.comment (.field "const int64" c.name (some c.value))] }

def stallPart : Part :=
  let i : Injected := { handle := .callback [], field := "external_stall" }
  { injected := some i
    members :=
      [bare (.field "bool" "stalled" (some "false")),
        bare i.declaration,
        bare (.method "void" "stall" []
          [.assign "stalled" "true", .call (.plain i.member) []] "")] }

/-- The parts of a combine's class in the order of its declarations. -/
def parts (c : Combine) : List Part :=
  c.inputs.map inputPart ++ c.outputs.map outputPart ++ c.requests.map requestPart ++
    c.operations.map operationPart ++ c.storage.map storagePart ++ c.configs.map configPart ++
    if c.stallable then [stallPart] else []

/-- The members of the class, the lifecycle methods apart. -/
def classMembers (c : Combine) : List Member := (parts c).flatMap Part.members

/-- What the constructor injects. -/
def injections (c : Combine) : List Injected := (parts c).filterMap Part.injected

/-- The statement of a commit action. -/
def commitStatement : CommitStep → Statement
  | .applyNext name => .call (.member (registerName name) "apply_tick") []
  | .resetTick name default => .assign name default
  | .clearStall => .assign "stalled" "false"

/-- A line of code and how deep it is indented. -/
structure Line where
  depth : Nat
  text : String
  deriving DecidableEq

def flush (text : String) : Line := { depth := 0, text }

def indented (text : String) : Line := { depth := 1, text }

/-- A method of a class, defined outside of it. -/
structure MethodDefinition where
  name : String
  parameters : List Parameter
  body : List Line
  deriving DecidableEq

/-- Services and helpers; their code is not indented. -/
def operationDefinitions (c : Combine) : List MethodDefinition :=
  c.operations.map fun f =>
    { name := f.name, parameters := parameters f.signature, body := f.body.map flush }

/-- The lifecycle methods. The commit phase does its bookkeeping before it calls the
combine's own code. -/
def lifecycleDefinitions (c : Combine) : List MethodDefinition :=
  [{ name := "all_current_tick", parameters := []
     body := [indented (Statement.call (.plain "user_current_tick") []).text] },
    { name := "all_current_applytick", parameters := []
      body := (c.commitPlan.map fun a => indented (commitStatement a).text) ++
        [indented (Statement.call (.plain "user_current_applytick") []).text] },
    { name := "user_current_tick", parameters := [], body := c.tick.map indented },
    { name := "user_current_applytick", parameters := [], body := c.applyTick.map indented }]

end Simgen.Cpp
