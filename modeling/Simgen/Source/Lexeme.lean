import Simgen.Source.Extent

/-! The lexemes of a C++ source text. Comments, literals and directives are single
lexemes, so that nothing inside them is taken for a brace. Lexemes keep their text:
in order they make up the source again. -/
namespace Simgen.Source

inductive LexemeKind where
  | blank
  | comment
  /-- A preprocessor directive with its continuation lines. -/
  | directive
  /-- A string, character or raw string literal with its encoding. -/
  | literal
  | number
  | word
  | symbol
  /-- A closing brace that the source lacks. It has no text. -/
  | missing
  deriving DecidableEq

structure Lexeme where
  kind : LexemeKind
  text : List Char
  deriving DecidableEq

/-- Words that give a string or character literal its encoding. -/
def isEncoding (word : List Char) : Bool :=
  ["L", "u", "U", "u8"].any fun p => p.toList = word

/-- Words that open a raw string. -/
def isRawEncoding (word : List Char) : Bool :=
  ["R", "LR", "uR", "UR", "u8R"].any fun p => p.toList = word

/-- Characters of symbols. -/
def isMark (c : Char) : Bool := "()\x7b\x7d[];:,.<>=+-*/%&|^!~?".toList.contains c

/-- Symbols of two characters; all others have one. -/
def isPair (c d : Char) : Bool :=
  [(':', ':'), ('-', '>'), ('=', '='), ('!', '='), ('<', '='), ('>', '='), ('<', '<')].contains
    (c, d)

/-- What begins with a word of `n + 1` characters: the word itself, or a literal that it
is the encoding of. -/
def wordOrLiteral (c : Char) (n : Nat) (cs : List Char) : LexemeKind × Nat :=
  let word := c :: cs.take n
  match cs.drop n with
  | '"' :: rest =>
    if isRawEncoding word then (.literal, n + 1 + rawLength rest)
    else if isEncoding word then (.literal, n + 1 + quotedLength '"' rest)
    else (.word, n)
  | '\'' :: rest =>
    if isEncoding word then (.literal, n + 1 + quotedLength '\'' rest) else (.word, n)
  | _ => (.word, n)

/-- The lexeme that begins with `c`: its kind, and how many of the following
characters belong to it. What can begin no lexeme counts as a blank. -/
def classify (c : Char) (cs : List Char) : LexemeKind × Nat :=
  if isSeparator c then (.blank, (cs.takeWhile isSeparator).length)
  else if c.isDigit then (.number, numberLength c cs)
  else if Text.startsWord c then wordOrLiteral c (wordLength cs) cs
  else match c, cs with
    | '\\', rest => match wordLength ('\\' :: rest) with
      | 0 => (.blank, 0)
      | n + 1 => wordOrLiteral c n cs
    | '/', '/' :: rest => (.comment, 1 + lineLength rest)
    | '/', '*' :: rest => match blockLength? rest with
      | some n => (.comment, 1 + n)
      | none => (.blank, 1)
    | '#', rest => match directiveLength? rest with
      | some n => (.directive, n)
      | none => (.blank, 0)
    | '"', rest => (.literal, quotedLength '"' rest)
    | '\'', rest => (.literal, quotedLength '\'' rest)
    | '.', d :: _ => if d.isDigit then (.number, numberLength c cs) else (.symbol, 0)
    | _, d :: _ =>
      if isPair c d then (.symbol, 1) else if isMark c then (.symbol, 0) else (.blank, 0)
    | _, [] => if isMark c then (.symbol, 0) else (.blank, 0)

/-- The lexemes of a text. -/
def scan : List Char → List Lexeme
  | [] => []
  | c :: cs =>
    let (kind, n) := classify c cs
    { kind, text := c :: cs.take n } :: scan (cs.drop n)
  termination_by cs => cs.length
  decreasing_by rw [List.length_drop, List.length_cons]; omega

end Simgen.Source
