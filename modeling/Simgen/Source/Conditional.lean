import Simgen.Source.Piece

/-! Conditional groups of a source. Every branch of a group is read, whatever its
condition, and is balanced for itself: braces that are open where it ends are closed
there, and braces that close nothing in it are left out. -/
namespace Simgen.Source

/-- What a directive does to conditional groups. -/
inductive Boundary where
  | opening
  | dividing
  | closing
  deriving DecidableEq

def boundary? (directive : String) : Option Boundary :=
  if ["if", "ifdef", "ifndef"].contains directive then some .opening
  else if ["elif", "else", "elifdef", "elifndef"].contains directive then some .dividing
  else if directive = "endif" then some .closing
  else none

/-- What a lexeme does to conditional groups. -/
def boundaryOf? (l : Lexeme) : Option Boundary :=
  if l.kind = .directive then boundary? (directiveName l.text) else none

/-- Closing braces that are missing. -/
def missingBraces (n : Nat) : List Lexeme := List.replicate n { kind := .missing, text := [] }

/-- Balances the branches of a source. `opened` counts the open braces of the branch being
read, `outer` those of the branches around it, the innermost first. -/
def balance (opened : Nat) (outer : List Nat) : List Lexeme → List Lexeme
  | [] => []
  | l :: ls =>
    if Bracket.brace.opens l then l :: balance (opened + 1) outer ls
    else if Bracket.brace.closes l then
      if opened = 0 && outer ≠ [] then { l with kind := .blank } :: balance opened outer ls
      else l :: balance (opened - 1) outer ls
    else match boundaryOf? l, outer with
      | some .opening, _ => l :: balance 0 (opened :: outer) ls
      | some .dividing, _ :: _ => missingBraces opened ++ l :: balance 0 outer ls
      | some .closing, n :: outer => missingBraces opened ++ l :: balance n outer ls
      | _, _ => l :: balance opened outer ls

/-- The conditional groups around a place, the innermost first: whether each is out of
view. -/
abbrev Conditions := List Bool

namespace Conditions

/-- Whether a place is in view. -/
def inView (c : Conditions) : Bool := !c.headD false

/-- The groups behind a directive. A branch on whether a name is defined, other than the
first of its group, is out of view with all branches after it. -/
def after (c : Conditions) (directive : String) : Conditions :=
  if boundary? directive = some .opening then (!c.inView) :: c
  else if boundary? directive = some .closing then c.tail
  else if directive = "elifdef" || directive = "elifndef" then true :: c.tail
  else c

end Conditions

end Simgen.Source
