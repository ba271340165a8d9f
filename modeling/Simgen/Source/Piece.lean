import Simgen.Cpp.Keyword
import Simgen.Source.Lexeme

/-! The text of a C++ source as pieces: words, symbols, and brackets with their contents. -/
namespace Simgen.Source

inductive Bracket where
  | round | square | brace
  deriving DecidableEq

namespace Bracket

def opening : Bracket → List Char
  | round => ['('] | square => ['['] | brace => ['\x7b']

def closing : Bracket → List Char
  | round => [')'] | square => [']'] | brace => ['\x7d']

/-- The bracket that a lexeme opens. -/
def opened? (l : Lexeme) : Option Bracket :=
  if l.kind = .symbol then [round, square, brace].find? fun b => b.opening = l.text else none

/-- Whether a lexeme opens this bracket. -/
def opens (b : Bracket) (l : Lexeme) : Bool := l.kind = .symbol && l.text = b.opening

/-- Whether a lexeme closes this bracket. -/
def closes (b : Bracket) (l : Lexeme) : Bool :=
  l.kind = .symbol && l.text = b.closing || b = .brace && l.kind = .missing

/-- How deep the brackets of this kind are open behind a lexeme. -/
def depthAfter (b : Bracket) (depth : Nat) (l : Lexeme) : Nat :=
  if b.opens l then depth + 1 else if b.closes l then depth - 1 else depth

end Bracket

inductive Piece where
  | word (text : String)
  | symbol (text : String)
  /-- A string, character or number. -/
  | constant (isText : Bool)
  /-- Brackets, which hold their contents unread. -/
  | group (bracket : Bracket) (inside : List Lexeme)
  /-- Braces that lack their end. -/
  | unclosed
  /-- Template arguments. -/
  | arguments
  /-- A directive, by its name. -/
  | directive (name : String)
  deriving DecidableEq

/-- A single lexeme as a piece; blanks and comments are none. -/
def leaf? (l : Lexeme) : Option Piece :=
  match l.kind with
  | .blank => none
  | .comment => none
  | .directive => some (.directive (directiveName l.text))
  | .literal => some (.constant true)
  | .number => some (.constant false)
  | .word => some (.word (String.ofList l.text))
  | .symbol => some (.symbol (String.ofList l.text))
  | .missing => none

/-- The bracket as a piece, whose contents were read in reverse so far, and what follows
it. `depth` and `braces` count the brackets of its kind and the braces that are open in
it. A bracket is not closed across the end of braces around it. -/
def enclosed? (b : Bracket) (depth braces : Nat) (inside : List Lexeme) :
    List Lexeme → Option (Piece × List Lexeme)
  | [] => none
  | l :: ls =>
    if b = .brace then
      if depth = 0 && b.closes l then
        some (if l.kind = .missing then .unclosed else .group b inside.reverse, ls)
      else enclosed? b (b.depthAfter depth l) 0 (l :: inside) ls
    else if depth = 0 && b.closes l then
      if braces = 0 then some (.group b inside.reverse, ls) else none
    else if braces = 0 && Bracket.brace.closes l then none
    else enclosed? b (b.depthAfter depth l) (Bracket.brace.depthAfter braces l) (l :: inside) ls

theorem length_of_enclosed? {b : Bracket} {depth braces : Nat} {inside ls rest : List Lexeme}
    {p : Piece} (h : enclosed? b depth braces inside ls = some (p, rest)) :
    rest.length < ls.length := by
  induction ls generalizing depth braces inside with
  | nil => simp [enclosed?] at h
  | cons l ls ih =>
    rw [enclosed?] at h
    split at h
    · split at h
      · simp_all
      · exact Nat.lt_succ_of_lt (ih h)
    · split at h
      · split at h <;> simp_all
      · split at h
        · simp at h
        · exact Nat.lt_succ_of_lt (ih h)

/-- Whether parentheses that are never closed end before this lexeme. -/
def endsUnclosed (l : Lexeme) : Bool :=
  l.kind = .directive || Bracket.brace.opens l || Bracket.brace.closes l ||
    l.kind = .symbol && l.text = [';']

/-- The pieces of a text. Braces that are never closed take all that follows with them,
and parentheses what stands before the next braces or the end of the statement. -/
def pieces : List Lexeme → List Piece
  | [] => []
  | l :: ls => match Bracket.opened? l with
    | none => (leaf? l).toList ++ pieces ls
    | some b => match _h : enclosed? b 0 0 [] ls with
      | some (p, rest) => p :: pieces rest
      | none => match b with
        | .brace => [.unclosed]
        | .square => pieces ls
        | .round =>
          .group .round (ls.takeWhile (!endsUnclosed ·)) :: pieces (ls.dropWhile (!endsUnclosed ·))
  termination_by ls => ls.length
  decreasing_by
  · exact Nat.lt_succ_self _
  · exact Nat.lt_succ_of_lt (length_of_enclosed? _h)
  · exact Nat.lt_succ_self _
  · exact Nat.lt_succ_of_le (List.dropWhile_suffix _).length_le

/-- The first lexeme of a bracket's contents that is neither blank nor comment. -/
def firstInside? (inside : List Lexeme) : Option Lexeme :=
  inside.find? fun l => l.kind ≠ .blank && l.kind ≠ .comment

/-- Whether square brackets hold attributes. -/
def holdsAttributes (inside : List Lexeme) : Bool :=
  (firstInside? inside).any (Bracket.square.opens ·)

/-- Keywords that can end an expression, or stand for the body of a function. -/
def operandWords : List String := ["this", "true", "false", "nullptr", "default", "delete"]

/-- Whether a piece can end an expression. -/
def endsOperand : Piece → Bool
  | .word w => !Cpp.isKeyword w || operandWords.contains w
  | .constant _ => true
  | .group _ _ => true
  | .arguments => true
  | _ => false

/-- Leaves out the symbols of the operator that is named by `operator` right before. -/
def dropOperator : List Piece → List Piece
  | .group .round inside :: .group .round parameters :: ps =>
    if (firstInside? inside).isNone then .group .round parameters :: ps
    else .group .round inside :: .group .round parameters :: ps
  | .symbol _ :: ps => dropOperator ps
  | .group .square _ :: ps => dropOperator ps
  | .constant true :: .word _ :: ps => ps
  | .constant true :: ps => ps
  | .word "new" :: ps => dropOperator ps
  | .word "delete" :: ps => dropOperator ps
  | .word "co_await" :: ps => dropOperator ps
  | ps => ps

theorem length_dropOperator_le (ps : List Piece) : (dropOperator ps).length ≤ ps.length := by
  fun_induction dropOperator ps <;> simp_all <;> omega

/-- Leaves out the symbols in the names of operators. -/
def foldOperators : List Piece → List Piece
  | [] => []
  | .word "operator" :: ps => .word "operator" :: foldOperators (dropOperator ps)
  | p :: ps => p :: foldOperators ps
  termination_by ps => ps.length
  decreasing_by
  · exact Nat.lt_succ_of_le (length_dropOperator_le ps)
  · exact Nat.lt_succ_self _

/-- What stands right before an angle bracket. -/
inductive AngleContext where
  | name
  | closed
  | other
  deriving DecidableEq

/-- What follows the angle bracket that closes template arguments, `depth` of which are
open around it. An angle bracket behind a name opens further ones if the rest then makes
sense: another name does not follow arguments, except where parameters are declared or
the name is a qualifier. -/
def afterArguments? (areParameters : Bool) (depth : Nat) (context : AngleContext) :
    List Piece → Option (List Piece)
  | [] => none
  | .symbol ">" :: ps => match depth with
    | 0 => some ps
    | depth + 1 => afterArguments? areParameters depth .closed ps
  | .symbol "<" :: ps =>
    if context = .name && depth + 1 < ps.count (.symbol ">") then
      (afterArguments? areParameters (depth + 1) .other ps).or
        (afterArguments? areParameters depth .other ps)
    else afterArguments? areParameters depth .other ps
  | .word w :: ps =>
    if context = .closed && !areParameters && !Cpp.isKeyword w &&
        ps.head? ≠ some (.symbol "::") then
      none
    else afterArguments? areParameters depth .name ps
  | _ :: ps => afterArguments? areParameters depth .other ps

theorem length_of_afterArguments? {areParameters : Bool} {depth : Nat} {context : AngleContext}
    {ps rest : List Piece} (h : afterArguments? areParameters depth context ps = some rest) :
    rest.length < ps.length := by
  fun_induction afterArguments? areParameters depth context ps <;> simp_all <;> grind

/-- Puts template arguments into one piece each: an angle bracket behind a name, through
its partner. -/
def foldArguments (last : Option String) : List Piece → List Piece
  | [] => []
  | p :: ps =>
    match p, last with
    | .symbol "<", some w =>
      match _h : afterArguments? (w = "template") 0 .other ps with
      | some rest => .arguments :: foldArguments none rest
      | none => p :: foldArguments none ps
    | .word w, _ => p :: foldArguments (some w) ps
    | _, _ => p :: foldArguments none ps
  termination_by ps => ps.length
  decreasing_by
  · exact Nat.lt_succ_of_lt (length_of_afterArguments? _h)
  all_goals exact Nat.lt_succ_self _

/-- The pieces of a text with names and template arguments put together. -/
def fold (ps : List Piece) : List Piece := foldArguments none (foldOperators ps)

end Simgen.Source
