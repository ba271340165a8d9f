import Simgen.Descriptor.Basic
import Simgen.Markup.Writer

/-! Writing descriptors. An optional text becomes a child if and only if it is there, so
that reading gives the descriptor back. -/
namespace Simgen.Descriptor

open Markup (Element)

/-- A child for an optional text. -/
def optionalChild (tag : String) (text : Option String) : List Element :=
  (text.map (Element.ofText tag)).toList

def Member.toElement (m : Member) : Element :=
  .ofChildren "member"
    ([.ofText "name" m.name, .ofText "type" m.type] ++ optionalChild "value" m.value)

def Pipe.toElement (tag : String) (p : Pipe) : Element :=
  .ofChildren tag
    ([.ofText "name" p.name, .ofText "type" p.type] ++ optionalChild "comment" p.comment)

def Param.toElement (tag : String) (p : Param) : Element :=
  .ofChildren tag
    ([.ofText "type" p.type, .ofText "name" p.name] ++ optionalChild "comment" p.comment)

def FunctionRef.toElements (r : FunctionRef) : List Element :=
  [.ofText "file" r.file, .ofText "name" r.func]

def Code.toElement (c : Code) : Element :=
  .ofChildren "cppfunc"
    ((c.reference.map FunctionRef.toElements).getD [] ++ c.fragments.map (Element.ofText "code"))

def Operation.toElement (tag : String) (f : Operation) : Element :=
  .ofChildren tag
    (.ofText "name" f.name :: optionalChild "comment" f.comment ++
      f.params.map (Param.toElement "arg") ++ f.returns.map (Param.toElement "return") ++
      (f.body.map Code.toElement).toList)

def Storage.toElement (tag : String) (s : Storage) : Element :=
  .ofChildren tag
    ([.ofText "name" s.name, .ofText "type" s.type] ++ optionalChild "value" s.value ++
      optionalChild "comment" s.comment)

def Constant.toElement (c : Constant) : Element :=
  .ofChildren "config"
    ([.ofText "name" c.name, .ofText "value" c.value] ++ optionalChild "comment" c.comment)

/-- A lifecycle element around a block of code. -/
def phaseElement (tag : String) (c : Code) : Element := .ofChildren tag [c.toElement]

namespace Bundle

def toElement (b : Bundle) : Element :=
  .ofChildren "bundle" (.ofText "name" b.name :: b.members.map Member.toElement)

/-- The document of a bundle. -/
def write (b : Bundle) : String := String.ofList b.toElement.render

end Bundle

namespace Combine

/-- A combine with one child for each of its entries. -/
def toElement (c : Combine) : Element :=
  .ofChildren "combine"
    (.ofText "name" c.name :: optionalChild "comment" c.comment ++
      c.pipeIn.map (Pipe.toElement "pipein") ++ c.pipeOut.map (Pipe.toElement "pipeout") ++
      c.requests.map (Operation.toElement "request") ++
      c.services.map (Operation.toElement "service") ++
      c.functions.map (Operation.toElement "function") ++
      c.storage.map (Storage.toElement "storage") ++
      c.storageNext.map (Storage.toElement "storagenext") ++
      c.storageTick.map (Storage.toElement "storagetick") ++
      c.configs.map Constant.toElement ++
      c.init.map (phaseElement "init") ++ c.tick.map (phaseElement "tick") ++
      c.applyTick.map (phaseElement "applytick") ++
      if c.stallable then [.ofChildren "stallable" []] else [])

/-- The document of a combine. -/
def write (c : Combine) : String := String.ofList c.toElement.render

end Combine

end Simgen.Descriptor
