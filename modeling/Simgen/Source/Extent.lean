import Simgen.Source.Splice
import Simgen.Text.Digit
import Simgen.Text.WordChar

/-! How far the words, numbers, literals, comments and directives of a C++ source
reach. -/
namespace Simgen.Source

def isHexDigit (c : Char) : Bool := (Text.hexValue? c).isSome

/-- Blanks between lexemes; the byte order mark is one. -/
def isSeparator (c : Char) : Bool := Text.isBlank c || c == '\uFEFF'

/-- The length of a line up to a line feed that no backslash precedes. -/
def lineLength : List Char → Nat
  | [] => 0
  | '\\' :: '\r' :: '\n' :: cs => 3 + lineLength cs
  | '\\' :: '\n' :: cs => 2 + lineLength cs
  | '\n' :: _ => 0
  | _ :: cs => 1 + lineLength cs

/-- The length of a block comment behind its opening, if it has an end. -/
def blockLength? : List Char → Option Nat
  | [] => none
  | '*' :: '/' :: _ => some 2
  | _ :: cs => (blockLength? cs).map (· + 1)

/-- The length of a literal behind its opening quote. A line feed ends it, unless a
backslash precedes. -/
def quotedLength (quote : Char) : List Char → Nat
  | [] => 0
  | '\\' :: '\r' :: '\n' :: cs => 3 + quotedLength quote cs
  | '\\' :: _ :: cs => 2 + quotedLength quote cs
  | c :: cs => if c = quote then 1 else if c = '\n' then 0 else 1 + quotedLength quote cs

/-- The length of a text through the first occurrence of `close`. -/
def lengthThrough (close : List Char) : List Char → Nat
  | [] => 0
  | c :: cs => if close.isPrefixOf (c :: cs) then close.length else 1 + lengthThrough close cs

/-- The length of a raw string literal behind its opening quote. What cannot open a
raw string is read as a plain one. -/
def rawLength (cs : List Char) : Nat :=
  let delimiter := cs.takeWhile fun c => c != '(' && c != '"' && c != '\\' && !isSeparator c
  match cs.drop delimiter.length with
  | '(' :: rest =>
    if delimiter.length ≤ 16 then
      delimiter.length + 1 + lengthThrough (')' :: delimiter ++ ['"']) rest
    else quotedLength '"' cs
  | _ => quotedLength '"' cs

/-- The length of a number behind its first characters, of which `last` is the last.
A sign belongs to it behind an exponent mark, a quote between two digits. -/
def numberLength (last : Char) : List Char → Nat
  | [] => 0
  | c :: cs =>
    if Text.continuesWord c || c == '.' then 1 + numberLength c cs
    else if (c == '+' || c == '-') && (last.toLower == 'e' || last.toLower == 'p') then
      1 + numberLength c cs
    else if c == '\'' && (cs.head?.map Char.isAlphanum).getD false then 1 + numberLength c cs
    else 0

/-- The length of a word, of which a part may have been read. A character may be given
by its code in hexadecimal digits. -/
def wordLength : List Char → Nat
  | [] => 0
  | '\\' :: 'u' :: a :: b :: c :: d :: cs =>
    if [a, b, c, d].all isHexDigit then 6 + wordLength cs else 0
  | '\\' :: 'U' :: a :: b :: c :: d :: e :: f :: g :: h :: cs =>
    if [a, b, c, d, e, f, g, h].all isHexDigit then 10 + wordLength cs else 0
  | c :: cs => if Text.continuesWord c then 1 + wordLength cs else 0

/-- Where the reading of a line of a directive stands. -/
inductive LineMode where
  | plain
  | block
  | comment
  | quoted (quote : Char)

/-- The length of a line of a directive, with its continuation lines. Quotes hide the
marks of comments, and a block comment hides line ends. -/
def plainLength : LineMode → List Char → Nat
  | _, [] => 0
  | .block, '*' :: '/' :: cs => 2 + plainLength .plain cs
  | .block, _ :: cs => 1 + plainLength .block cs
  | mode, '\\' :: '\r' :: '\n' :: cs => 3 + plainLength mode cs
  | mode, '\\' :: '\n' :: cs => 2 + plainLength mode cs
  | _, '\n' :: _ => 0
  | .comment, _ :: cs => 1 + plainLength .comment cs
  | .quoted quote, '\\' :: _ :: cs => 2 + plainLength (.quoted quote) cs
  | .quoted quote, c :: cs => 1 + plainLength (if c = quote then .plain else .quoted quote) cs
  | .plain, '/' :: '*' :: cs =>
    2 + plainLength (if (blockLength? cs).isSome then .block else .plain) cs
  | .plain, '/' :: '/' :: cs => 2 + plainLength .comment cs
  | .plain, c :: cs => 1 + plainLength (if c = '"' || c = '\'' then .quoted c else .plain) cs

/-- The length of the text that a name is defined as, or that a directive passes on.
Quotes mean nothing in it, and a slash holds the character behind it; only a block
comment is told apart. -/
def replacementLength : List Char → Nat
  | [] => 0
  | '\\' :: '\r' :: '\n' :: cs => 3 + replacementLength cs
  | '\\' :: '\n' :: cs => 2 + replacementLength cs
  | '\n' :: _ => 0
  | '/' :: '*' :: cs => plainLength .plain ('/' :: '*' :: cs)
  | '/' :: _ :: cs => 2 + replacementLength cs
  | _ :: cs => 1 + replacementLength cs

/-- The length of a replacement with the blanks in front of it. A comment may stand in
its place. -/
def textLength (cs : List Char) : Nat :=
  let gap := (cs.takeWhile isGap).length
  match cs.drop gap with
  | '/' :: '/' :: rest => gap + 2 + lineLength rest
  | rest => gap + replacementLength rest

/-- The length of a name with the blanks in front of it; none if no name follows. -/
def nameLength (cs : List Char) : Nat :=
  let gap := (cs.takeWhile isGap).length
  match wordLength (cs.drop gap) with
  | 0 => 0
  | n => gap + n

/-- The length of the parameters of a macro, if they follow at once. -/
def macroParametersLength : List Char → Nat
  | '(' :: cs => 1 + lengthThrough [')'] (cs.takeWhile (· != '\n'))
  | _ => 0

/-- The name of a directive, given behind its `#`. -/
def directiveWord (cs : List Char) : List Char :=
  (cs.dropWhile isGap).takeWhile Text.continuesWord

/-- The length of a directive behind its `#`, if it is one. Most reach to the end of
their line; those that bound a branch of a conditional group end with their last word. -/
def directiveLength? (cs : List Char) : Option Nat :=
  let n := nameLength cs
  let rest := cs.drop n
  match String.ofList (directiveWord cs) with
  | "" => none
  | "else" | "endif" => some n
  | "ifdef" | "ifndef" | "elifdef" | "elifndef" => some (n + nameLength rest)
  | "if" | "elif" | "include" => some (n + plainLength .plain rest)
  | "define" =>
    let name := nameLength rest
    let parameters := macroParametersLength (rest.drop name)
    some (n + name + parameters + textLength (rest.drop (name + parameters)))
  | _ => some (n + textLength rest)

/-- The name of a directive, given with its `#`. -/
def directiveName (text : List Char) : String := String.ofList (directiveWord (text.drop 1))

end Simgen.Source
