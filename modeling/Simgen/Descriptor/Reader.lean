import Simgen.Descriptor.Basic
import Simgen.Ident
import Simgen.Journal
import Simgen.Markup.Element

/-! Reading descriptors. Each child of the root is read by itself into an entry; the
descriptor collects the entries of a kind in document order. Children with unknown
tags are reported and passed over. -/
namespace Simgen.Descriptor

open Markup (Element)

/-- Where an element does not follow its schema. -/
inductive SchemaFault where
  | missing (parent tag : String)
  | empty (parent tag : String)
  | badName (name parent tag : String)
  /-- A service or function without code. -/
  | noBody (tag name : String)
  /-- A lifecycle element without code. -/
  | noCode (tag : String)
  /-- Only one of file and function is given. -/
  | halfReference
  deriving DecidableEq

namespace SchemaFault

def message : SchemaFault → String
  | missing parent tag => "`" ++ parent ++ "` is missing required `" ++ tag ++ "`"
  | empty parent tag => "`" ++ parent ++ "` has an empty `" ++ tag ++ "`"
  | badName name parent tag =>
    "`" ++ name ++ "` is not a valid identifier for a `" ++ parent ++ "` " ++ tag
  | noBody tag name => tag ++ " `" ++ name ++ "` has no `cppfunc`"
  | noCode tag => "`" ++ tag ++ "` has no `cppfunc`"
  | halfReference => "`cppfunc` must name both a `file` and a function `name`"

/-- The fault as a failure of the descriptor. -/
def cause (fault : SchemaFault) : Cause := .malformed fault.message

end SchemaFault

/-- The text of a child that may be missing: of the first one, and empty if that is
empty. -/
def optional (e : Element) (tag : String) : Option String :=
  (e.child? tag).map Element.content

/-- The text of a child that must be there and hold text. -/
def required (e : Element) (parent tag : String) : Except SchemaFault String :=
  match optional e tag with
  | none => .error (.missing parent tag)
  | some text => if text = "" then .error (.empty parent tag) else .ok text

/-- The name of an element. -/
def nameOf (e : Element) (parent : String) : Except SchemaFault String := do
  let name ← required e parent "name"
  if Ident.isValid name then .ok name else .error (.badName name parent "name")

/-- A default value. It may be left out, but not left empty. -/
def valueOf (e : Element) (parent : String) : Except SchemaFault (Option String) :=
  match e.child? "value" with
  | none => .ok none
  | some _ => some <$> required e parent "value"

def Member.ofElement (e : Element) : Except SchemaFault Member := do
  let name ← nameOf e "member"
  let type ← required e "member" "type"
  let value ← valueOf e "member"
  return { name, type, value }

def Pipe.ofElement (e : Element) : Except SchemaFault Pipe := do
  let name ← nameOf e e.tag
  let type ← required e e.tag "type"
  return { name, type, comment := optional e "comment" }

def Param.ofElement (e : Element) : Except SchemaFault Param := do
  let type ← required e e.tag "type"
  let name ← nameOf e e.tag
  return { name, type, comment := optional e "comment" }

/-- A file and a function are named both or not at all. -/
def FunctionRef.ofElement (e : Element) : Except SchemaFault (Option FunctionRef) :=
  match optional e "file", optional e "name" with
  | none, none => .ok none
  | some file, some func =>
    if file = "" ∨ func = "" then .error .halfReference else .ok (some { file, func })
  | _, _ => .error .halfReference

def Code.ofElement (e : Element) : Except SchemaFault Code := do
  let reference ← FunctionRef.ofElement e
  return { reference, fragments := (e.childrenWith "code").map Element.content }

/-- The block of code in an element; `fault` is raised where there is none. -/
def codeOf (e : Element) (fault : SchemaFault) : Except SchemaFault Code :=
  match e.child? "cppfunc" with
  | none => .error fault
  | some inner => Code.ofElement inner

/-- An operation; `hasBody` says whether it must bring its code. -/
def Operation.ofElement (e : Element) (hasBody : Bool) : Except SchemaFault Operation := do
  let name ← nameOf e e.tag
  let body ← if hasBody then some <$> codeOf e (.noBody e.tag name) else .ok none
  let params ← (e.childrenWith "arg").mapM Param.ofElement
  let returns ← (e.childrenWith "return").mapM Param.ofElement
  return { name, comment := optional e "comment", params, returns, body }

def Storage.ofElement (e : Element) : Except SchemaFault Storage := do
  let name ← nameOf e e.tag
  let type ← required e e.tag "type"
  let value ← valueOf e e.tag
  return { name, type, value, comment := optional e "comment" }

def Constant.ofElement (e : Element) : Except SchemaFault Constant := do
  let name ← nameOf e "config"
  let value ← required e "config" "value"
  return { name, value, comment := optional e "comment" }

/-- The block of code of a lifecycle element. -/
def phaseOf (e : Element) : Except SchemaFault Code := codeOf e (.noCode e.tag)

/-- One child of a combine descriptor. -/
inductive Entry where
  /-- A name or a comment, which are read from the root. -/
  | heading
  | pipeIn (pipe : Pipe)
  | pipeOut (pipe : Pipe)
  | request (operation : Operation)
  | service (operation : Operation)
  | function (operation : Operation)
  | storage (field : Storage)
  | storageNext (field : Storage)
  | storageTick (field : Storage)
  | config (constant : Constant)
  | init (code : Code)
  | tick (code : Code)
  | applyTick (code : Code)
  | stallable
  | unknown (tag : String)
  deriving DecidableEq

/-- Reads a child by the schema of its tag. -/
def Entry.ofElement (e : Element) : Except SchemaFault Entry :=
  match e.tag with
  | "name" => .ok .heading
  | "comment" => .ok .heading
  | "pipein" => .pipeIn <$> Pipe.ofElement e
  | "pipeout" => .pipeOut <$> Pipe.ofElement e
  | "request" => .request <$> Operation.ofElement e false
  | "service" => .service <$> Operation.ofElement e true
  | "function" => .function <$> Operation.ofElement e true
  | "storage" => .storage <$> Storage.ofElement e
  | "storagenext" => .storageNext <$> Storage.ofElement e
  | "storagetick" => .storageTick <$> Storage.ofElement e
  | "config" => .config <$> Constant.ofElement e
  | "init" => .init <$> phaseOf e
  | "tick" => .tick <$> phaseOf e
  | "applytick" => .applyTick <$> phaseOf e
  | "stallable" => .ok .stallable
  | other => .ok (.unknown other)

/-- A reading step as a run. -/
def lift {α : Type} (result : Except SchemaFault α) : Traced α :=
  Traced.lift (result.mapError SchemaFault.cause)

/-- The root element of a descriptor, which must have the expected tag. -/
def root (expected document : String) : Except Cause Element :=
  match Element.parse document with
  | .error fault => .error (.malformed fault.message)
  | .ok e => if e.tag = expected then .ok e else .error (.rootTag expected e.tag)

namespace Bundle

/-- Reads a bundle from its root element. -/
def ofElement (e : Element) (source : String) : Traced Bundle := do
  let name ← lift (nameOf e "bundle")
  Traced.note .info ("Loading bundle " ++ name ++ " from " ++ source)
  let members ← lift ((e.childrenWith "member").mapM Member.ofElement)
  return { name, members, source }

/-- Reads a bundle descriptor; `source` is blamed for what is wrong with it. -/
def parse (document source : String) : Traced Bundle :=
  Traced.blaming source do
    let e ← Traced.lift (root "bundle" document)
    ofElement e source

end Bundle

namespace Combine

/-- Collects the entries of a combine by kind. -/
def ofEntries (name source : String) (comment : Option String) (entries : List Entry) :
    Combine where
  name := name
  comment := comment
  source := source
  pipeIn := entries.filterMap fun | .pipeIn p => some p | _ => none
  pipeOut := entries.filterMap fun | .pipeOut p => some p | _ => none
  requests := entries.filterMap fun | .request f => some f | _ => none
  services := entries.filterMap fun | .service f => some f | _ => none
  functions := entries.filterMap fun | .function f => some f | _ => none
  storage := entries.filterMap fun | .storage s => some s | _ => none
  storageNext := entries.filterMap fun | .storageNext s => some s | _ => none
  storageTick := entries.filterMap fun | .storageTick s => some s | _ => none
  configs := entries.filterMap fun | .config c => some c | _ => none
  init := entries.filterMap fun | .init c => some c | _ => none
  tick := entries.filterMap fun | .tick c => some c | _ => none
  applyTick := entries.filterMap fun | .applyTick c => some c | _ => none
  stallable := entries.contains .stallable

/-- Reads one child and says so in the journal. -/
def entry (combine : String) (e : Element) : Traced Entry := do
  Traced.note .debug ("parsing " ++ e.tag ++ " in combine " ++ combine)
  let entry ← lift (Entry.ofElement e)
  match entry with
  | .unknown tag =>
    Traced.note .warn ("Ignoring unknown tag `" ++ tag ++ "` in combine " ++ combine)
  | _ => pure ()
  return entry

/-- Reads a combine from its root element. -/
def ofElement (e : Element) (source : String) : Traced Combine := do
  let name ← lift (nameOf e "combine")
  Traced.note .info ("Loading combine " ++ name ++ " from " ++ source)
  let entries ← e.children.mapM (entry name)
  return ofEntries name source (optional e "comment") entries

/-- Reads a combine descriptor; `source` is blamed for what is wrong with it. -/
def parse (document source : String) : Traced Combine :=
  Traced.blaming source do
    let e ← Traced.lift (root "combine" document)
    ofElement e source

end Combine

end Simgen.Descriptor
