import Simgen.Combine.Basic
import Simgen.Error

/-! The names of a combine's class: those its descriptor declares, those generated for
its members, and those that every class has. No two of them may meet. -/
namespace Simgen

/-- The lifecycle methods of every class. -/
def phaseMethods : List String :=
  ["all_current_tick", "all_current_applytick", "user_current_tick", "user_current_applytick"]

/-- What a stallable combine declares besides. -/
def stallMembers : List String := ["stall", "stalled", "_external_stall"]

/-- The first name that stands earlier in the list too, or in `seen`. -/
def firstRepeat (seen : List String) : List String → Option String
  | [] => none
  | name :: names =>
    if seen.contains name then some name else firstRepeat (name :: seen) names

namespace Combine

/-- The names that members must not take. -/
def fixedNames (c : Combine) : List String :=
  phaseMethods ++ ["ConstructorArguments", c.name] ++ if c.stallable then stallMembers else []

/-- The names that the descriptor declares, in order. -/
def ownNames (c : Combine) : List String :=
  c.pipes.map Pipe.name ++ c.requests.map Request.name ++ c.operations.map Operation.name ++
    c.storage.map Storage.name ++ c.configs.map Constant.name

/-- The handle and the accessors of a pipe. -/
def pipeNames (p : Pipe) : List String :=
  match p.direction with
  | .input => ["_pipein_" ++ p.name, p.name ++ "_can_pop", p.name ++ "_top", p.name ++ "_pop"]
  | .output => ["_pipeout_" ++ p.name, p.name ++ "_can_push", p.name ++ "_push"]

/-- The register and the accessors of a storage field with proposals. -/
def storageNames : Storage → List String
  | .next name .. => ["_storagenext_" ++ name, name ++ "_get", name ++ "_setnext"]
  | _ => []

/-- The generated names, each with the member that it is generated for. -/
def derivedNames (c : Combine) : List (String × String) :=
  (c.pipes.flatMap fun p => (pipeNames p).map fun name => (name, p.name)) ++
    (c.requests.map fun r => ("_request_" ++ r.name, r.name)) ++
    c.storage.flatMap fun s => (storageNames s).map fun name => (name, s.name)

/-- The first declared name that is reserved or declared before. -/
def checkOwn (c : Combine) (seen : List String) : List String → Except Cause Unit
  | [] => .ok ()
  | name :: names =>
    if c.fixedNames.contains name then .error (.reservedName name)
    else if seen.contains name then
      .error (.alreadyBound name ("another member of combine `" ++ c.name ++ "`"))
    else checkOwn c (name :: seen) names

/-- The first generated name that is taken by a declared, a reserved or an earlier
generated name, all of which are in `taken`. -/
def checkDerived (c : Combine) (taken : List String) :
    List (String × String) → Except Cause Unit
  | [] => .ok ()
  | (name, owner) :: names =>
    if taken.contains name then
      .error (.alreadyBound name
        ("the accessors of `" ++ owner ++ "` in combine `" ++ c.name ++ "`"))
    else checkDerived c (name :: taken) names

/-- Checks declared names first, then generated ones. -/
def checkNames (c : Combine) : Except Cause Unit := do
  c.checkOwn [] c.ownNames
  c.checkDerived (c.ownNames ++ c.fixedNames) c.derivedNames

end Combine

end Simgen
