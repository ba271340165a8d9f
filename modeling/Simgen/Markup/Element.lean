import Simgen.Markup.Escape
import Simgen.Markup.Reader

/-! The element tree of a document. Text and character data of an element are
concatenated in document order; everything else but elements is ignored. -/
namespace Simgen.Markup

/-- An element. `text` is `none` when the element has no text at all. -/
inductive Element where
  | mk (tag : String) (text : Option String) (children : List Element)

namespace Element

def tag : Element → String
  | mk tag _ _ => tag

def text : Element → Option String
  | mk _ text _ => text

def children : Element → List Element
  | mk _ _ children => children

/-- The first child with the given tag. -/
def child? (e : Element) (tag : String) : Option Element :=
  e.children.find? fun c => c.tag = tag

/-- All children with the given tag, in document order. -/
def childrenWith (e : Element) (tag : String) : List Element :=
  e.children.filter fun c => c.tag = tag

/-- The text without blanks at its ends; empty if there is none. -/
def content (e : Element) : String :=
  match e.text with
  | some text => Text.trim text
  | none => ""

end Element

/-- Why a text is no document. -/
inductive DocumentFault where
  | unreadable (offset : Nat) (fault : ReadFault)
  | badEscape (fault : EscapeFault)
  | unbalanced
  | manyRoots
  | unfinished
  | empty
  deriving DecidableEq

def DocumentFault.message : DocumentFault → String
  | unreadable offset fault =>
    "XML error at byte " ++ toString offset ++ ": " ++ fault.message
  | badEscape fault => "XML escape error: " ++ fault.message
  | unbalanced => "unbalanced closing tag"
  | manyRoots => "document has more than one root element"
  | unfinished => "unexpected end of document"
  | empty => "empty document"

/-- A tree under construction: the open elements, the innermost first, each with
the children it has so far, and the root once it is closed. -/
structure Builder where
  opened : List Element
  root : Option Element

namespace Builder

def start : Builder := { opened := [], root := none }

/-- Hangs a finished element into the innermost open one, or makes it the root. -/
def hang (b : Builder) (e : Element) : Except DocumentFault Builder :=
  match b.opened with
  | .mk tag text children :: outer =>
    .ok { b with opened := .mk tag text (children ++ [e]) :: outer }
  | [] => match b.root with
    | none => .ok { b with root := some e }
    | some _ => .error .manyRoots

/-- Adds text to the innermost open element. Text outside the root is ignored. -/
def addText (b : Builder) (added : List Char) : Builder :=
  match b.opened with
  | .mk tag text children :: outer =>
    { b with opened := .mk tag (some (text.getD "" ++ String.ofList added)) children :: outer }
  | [] => b

/-- Takes in one token. -/
def add (b : Builder) : Token → Except DocumentFault Builder
  | .opening name => .ok { b with opened := .mk name none [] :: b.opened }
  | .empty name => b.hang (.mk name none [])
  | .closing => match b.opened with
    | e :: outer => { b with opened := outer }.hang e
    | [] => .error .unbalanced
  | .text raw => match unescape raw with
    | .ok text => .ok (b.addText text)
    | .error fault => .error (.badEscape fault)
  | .characterData raw => .ok (b.addText raw)
  | .skipped => .ok b

/-- The root of a finished tree. -/
def finish (b : Builder) : Except DocumentFault Element :=
  match b.opened, b.root with
  | _ :: _, _ => .error .unfinished
  | [], none => .error .empty
  | [], some root => .ok root

end Builder

/-- Reads the rest of a document into a tree under construction. -/
def build (r : Reader) (b : Builder) : Except DocumentFault Element :=
  match _hStep : r.step with
  | .ended => b.finish
  | .failed offset fault => .error (.unreadable offset fault)
  | .token t next => match b.add t with
    | .error fault => .error fault
    | .ok b => build next b
  termination_by r.rest.length
  decreasing_by exact Reader.step_rest_length (by assumption)

/-- Reads a document and gives its root element. -/
def Element.parse (document : String) : Except DocumentFault Element :=
  build (Reader.ofText document) Builder.start

end Simgen.Markup
