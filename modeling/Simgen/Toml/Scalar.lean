import Simgen.Text.Digit
import Simgen.Toml.Value

/-! Strings, numbers and dates of TOML. A reader takes characters from the front and
gives its value and the rest, or nothing if the text is not of its form. -/
namespace Simgen.Toml

/-- Characters of strings and comments: no controls but the tab. -/
def isPlain (c : Char) : Bool := c == '\t' || (0x20 ≤ c.toNat && c.toNat ≠ 0x7F)

/-- Blanks within a line. -/
def isGap (c : Char) : Bool := c == ' ' || c == '\t'

def skipGap (cs : List Char) : List Char := cs.dropWhile isGap

/-- A line end. -/
def newline? : List Char → Option (List Char)
  | '\n' :: cs => some cs
  | '\r' :: '\n' :: cs => some cs
  | _ => none

def isHex (c : Char) : Bool := (Text.hexValue? c).isSome

/-- The character of exactly `n` hexadecimal digits. -/
def hexChar? (n : Nat) (cs : List Char) : Option (Char × List Char) := do
  let digits := cs.take n
  if digits.length ≠ n then none
  if !digits.all isHex then none
  let c ← Text.charOfCode? (Text.natOfDigits 16 digits)
  return (c, cs.drop n)

/-- The escape behind a backslash. -/
def escape? : List Char → Option (Char × List Char)
  | 'b' :: cs => some ('\x08', cs)
  | 't' :: cs => some ('\t', cs)
  | 'n' :: cs => some ('\n', cs)
  | 'f' :: cs => some ('\x0c', cs)
  | 'r' :: cs => some ('\r', cs)
  | '"' :: cs => some ('"', cs)
  | '\\' :: cs => some ('\\', cs)
  | 'u' :: cs => hexChar? 4 cs
  | 'U' :: cs => hexChar? 8 cs
  | _ => none

/-- The rest of a basic string behind its quote. `fuel` bounds its length. -/
def basicString? : Nat → List Char → Option (List Char × List Char)
  | 0, _ => none
  | _, [] => none
  | fuel + 1, c :: cs =>
    if c = '"' then some ([], cs)
    else if c = '\\' then do
      let (decoded, cs) ← escape? cs
      let (text, rest) ← basicString? fuel cs
      return (decoded :: text, rest)
    else if isPlain c then do
      let (text, rest) ← basicString? fuel cs
      return (c :: text, rest)
    else none

/-- The rest of a literal string behind its quote. -/
def literalString? : List Char → Option (List Char × List Char)
  | [] => none
  | c :: cs =>
    if c = '\'' then some ([], cs)
    else if isPlain c then (literalString? cs).map fun (text, rest) => (c :: text, rest)
    else none

/-- Skips blanks and line ends. A carriage return alone is neither. -/
def skipFolded : List Char → List Char
  | ' ' :: cs => skipFolded cs
  | '\t' :: cs => skipFolded cs
  | '\n' :: cs => skipFolded cs
  | '\r' :: '\n' :: cs => skipFolded cs
  | cs => cs

/-- The text behind a backslash that ends its line: blanks and line ends are left out. -/
def folded? (cs : List Char) : Option (List Char) := (newline? (skipGap cs)).map skipFolded

/-- The end of a string in three quotes. Up to two quotes more belong to the text. -/
def tripleEnd? (quote : Char) (cs : List Char) : Option (List Char × List Char) :=
  let quotes := cs.takeWhile (· = quote)
  if 3 ≤ quotes.length then
    let n := min quotes.length 5
    some (List.replicate (n - 3) quote, cs.drop n)
  else none

/-- The rest of a string in three quotes behind its opening; line ends count as line
feeds. A literal string has no escapes. -/
def tripleString? (quote : Char) (hasEscapes : Bool) :
    Nat → List Char → Option (List Char × List Char)
  | 0, _ => none
  | _, [] => none
  | fuel + 1, c :: cs =>
    match tripleEnd? quote (c :: cs) with
    | some found => some found
    | none =>
      if hasEscapes && c = '\\' then
        match folded? cs with
        | some cs => tripleString? quote hasEscapes fuel cs
        | none => do
          let (decoded, cs) ← escape? cs
          let (text, rest) ← tripleString? quote hasEscapes fuel cs
          return (decoded :: text, rest)
      else match newline? (c :: cs) with
        | some cs => do
          let (text, rest) ← tripleString? quote hasEscapes fuel cs
          return ('\n' :: text, rest)
        | none =>
          if isPlain c then do
            let (text, rest) ← tripleString? quote hasEscapes fuel cs
            return (c :: text, rest)
          else none

/-- A line end right behind the opening quotes is not part of the text. -/
def afterOpening (cs : List Char) : List Char := (newline? cs).getD cs

/-- A string of any form. -/
def string? : List Char → Option (String × List Char)
  | '"' :: '"' :: '"' :: cs =>
    (tripleString? '"' true (cs.length + 1) (afterOpening cs)).map fun (t, r) => (.ofList t, r)
  | '\'' :: '\'' :: '\'' :: cs =>
    (tripleString? '\'' false (cs.length + 1) (afterOpening cs)).map fun (t, r) => (.ofList t, r)
  | '"' :: cs => (basicString? (cs.length + 1) cs).map fun (t, r) => (.ofList t, r)
  | '\'' :: cs => (literalString? cs).map fun (t, r) => (.ofList t, r)
  | _ => none

/-- Digits with single underscores between them: the digits alone. -/
def digits? (isDigit : Char → Bool) : List Char → Option (List Char)
  | [] => none
  | [c] => if isDigit c then some [c] else none
  | c :: '_' :: cs => if isDigit c then (digits? isDigit cs).map (c :: ·) else none
  | c :: cs => if isDigit c then (digits? isDigit cs).map (c :: ·) else none

/-- The digits of a decimal number, which has no leading zero. -/
def decimal? (cs : List Char) : Option (List Char) := do
  let digits ← digits? Char.isDigit cs
  match digits with
  | '0' :: _ :: _ => none
  | _ => some digits

/-- A number with its sign. -/
def signed : List Char → Bool × List Char
  | '-' :: cs => (true, cs)
  | '+' :: cs => (false, cs)
  | cs => (false, cs)

/-- An integer of 64 bits. -/
def inRange? (n : Int) : Option Int :=
  if -9223372036854775808 ≤ n ∧ n ≤ 9223372036854775807 then some n else none

def isOctal (c : Char) : Bool := '0' ≤ c && c ≤ '7'

def isBinary (c : Char) : Bool := c == '0' || c == '1'

def integer? : List Char → Option Int
  | '0' :: 'x' :: cs => do inRange? (Text.natOfDigits 16 (← digits? isHex cs))
  | '0' :: 'o' :: cs => do inRange? (Text.natOfDigits 8 (← digits? isOctal cs))
  | '0' :: 'b' :: cs => do inRange? (Text.natOfDigits 2 (← digits? isBinary cs))
  | cs => do
    let (negative, cs) := signed cs
    let n := Text.natOfDigits 10 (← decimal? cs)
    inRange? (if negative then -n else n)

/-- Whether `mantissa * 10 ^ exponent` rounds to a finite double. -/
def isFinite (mantissa : Nat) (exponent : Int) : Bool :=
  let limit := Nat.pow 2 1024 - Nat.pow 2 970
  if mantissa = 0 then true
  else if exponent ≥ 400 then false
  else if exponent ≥ 0 then mantissa * Nat.pow 10 exponent.toNat < limit
  else if (toString mantissa).length + exponent < 300 then true
  else mantissa < limit * Nat.pow 10 (-exponent).toNat

/-- The parts of a float: sign, digits before and behind the point, exponent. -/
def floatParts? (cs : List Char) : Option (Bool × List Char × List Char × Int) := do
  let (negative, cs) := signed cs
  let whole := cs.takeWhile fun c => c != '.' && c != 'e' && c != 'E'
  let tail := cs.drop whole.length
  let (fraction, power) := match tail with
    | '.' :: rest =>
      let f := rest.takeWhile fun c => c != 'e' && c != 'E'
      (some f, rest.drop f.length)
    | _ => (none, tail)
  let whole ← decimal? whole
  let fraction ← match fraction with
    | none => some []
    | some f => digits? Char.isDigit f
  let exponent ← match power with
    | [] => if fraction = [] then none else some 0
    | _ :: e =>
      let (negative, e) := signed e
      (digits? Char.isDigit e).map fun d =>
        if negative then -(Text.natOfDigits 10 d : Int) else (Text.natOfDigits 10 d : Int)
  return (negative, whole, fraction, exponent)

/-- Whether a text is a float. A positive one must be finite. -/
def isFloat (cs : List Char) : Bool :=
  let (_, special) := signed cs
  if special = "inf".toList || special = "nan".toList then true
  else match floatParts? cs with
    | none => false
    | some (negative, whole, fraction, exponent) =>
      negative || isFinite (Text.natOfDigits 10 (whole ++ fraction)) (exponent - fraction.length)

/-- A number of exactly `n` digits, within bounds. -/
def field? (n low high : Nat) (cs : List Char) : Option (Nat × List Char) := do
  let digits := cs.take n
  if digits.length = n ∧ digits.all Char.isDigit then
    let value := Text.natOfDigits 10 digits
    if low ≤ value ∧ value ≤ high then some (value, cs.drop n) else none
  else none

/-- A fixed character. -/
def mark? (c : Char) : List Char → Option (List Char)
  | d :: cs => if c = d then some cs else none
  | [] => none

def isLeapYear (year : Nat) : Bool := year % 4 = 0 && (year % 100 ≠ 0 || year % 400 = 0)

def daysIn (year month : Nat) : Nat :=
  if month = 2 then (if isLeapYear year then 29 else 28)
  else if [4, 6, 9, 11].contains month then 30 else 31

/-- A calendar date; gives the rest. -/
def day? (cs : List Char) : Option (List Char) := do
  let (year, cs) ← field? 4 0 9999 cs
  let cs ← mark? '-' cs
  let (month, cs) ← field? 2 1 12 cs
  let cs ← mark? '-' cs
  let (_, cs) ← field? 2 1 (daysIn year month) cs
  return cs

/-- A time of day; gives the rest. -/
def time? (cs : List Char) : Option (List Char) := do
  let (_, cs) ← field? 2 0 23 cs
  let cs ← mark? ':' cs
  let (_, cs) ← field? 2 0 59 cs
  let cs ← mark? ':' cs
  let (_, cs) ← field? 2 0 60 cs
  match cs with
  | '.' :: cs =>
    let rest := cs.dropWhile Char.isDigit
    if rest.length < cs.length then some rest else none
  | _ => some cs

/-- Whether a text is the offset of a time, or nothing. -/
def isOffset (cs : List Char) : Bool :=
  match cs with
  | [] => true
  | ['Z'] => true
  | ['z'] => true
  | sign :: cs => (sign = '+' || sign = '-') && ((do
    let (_, cs) ← field? 2 0 23 cs
    let cs ← mark? ':' cs
    let (_, cs) ← field? 2 0 59 cs
    return cs) : Option (List Char)) == some []

/-- Whether a text is a date, a time or both. -/
def isDate (cs : List Char) : Bool :=
  match day? cs with
  | some [] => true
  | some (delimiter :: rest) =>
    (delimiter = 'T' || delimiter = 't' || delimiter = ' ') && (time? rest).any isOffset
  | none => time? cs == some []

/-- Characters of numbers, dates and names of values. -/
def isBare (c : Char) : Bool :=
  c.isAlphanum || c == '_' || c == '+' || c == '-' || c == '.' || c == ':'

/-- A bare value. A single space may divide a date from a time. -/
def bareValue? (cs : List Char) : Option (Value × List Char) := do
  let first := cs.takeWhile isBare
  let rest := cs.drop first.length
  let (token, rest) := match rest with
    | ' ' :: c :: more =>
      if (day? first == some []) && c.isDigit then
        let second := (c :: more).takeWhile isBare
        (first ++ ' ' :: second, (c :: more).drop second.length)
      else (first, rest)
    | _ => (first, rest)
  if token = "true".toList then return (.boolean true, rest)
  if token = "false".toList then return (.boolean false, rest)
  if isDate token then return (.date (.ofList token), rest)
  match integer? token with
  | some n => return (.integer n, rest)
  | none => if isFloat token then return (.float (.ofList token), rest) else none

end Simgen.Toml
