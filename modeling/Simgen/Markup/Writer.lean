import Simgen.Markup.Element

/-! Writing element trees as text. -/
namespace Simgen.Markup

namespace Element

/-- An element that holds only text. If that is empty, the element holds no text at all. -/
def ofText (tag text : String) : Element := .mk tag (if text = "" then none else some text) []

/-- An element that holds only children. -/
def ofChildren (tag : String) (children : List Element) : Element := .mk tag none children

end Element

mutual

/-- The text of an element: its own text, escaped, then its children. -/
def Element.render : Element → List Char
  | .mk tag text children =>
    '<' :: tag.toList ++ '>' :: escape (text.getD "").toList ++ renderAll children ++
      '<' :: '/' :: tag.toList ++ ['>']

def renderAll : List Element → List Char
  | [] => []
  | e :: es => e.render ++ renderAll es

end

end Simgen.Markup
