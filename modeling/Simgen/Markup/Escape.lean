import Simgen.Text.Blank
import Simgen.Text.Digit
import Simgen.Text.Hidden

/-! Character references in the text of a document. -/
namespace Simgen.Markup

/-- What can be wrong with a character reference. Ranges are byte offsets in the
text piece, the end excluded. -/
inductive EscapeFault where
  | unclosed (start stop : Nat)
  | unknownName (start stop : Nat) (name : String)
  | hexTooLong
  | hexDigit (c : Char)
  | decimalTooLong
  | decimalDigit (c : Char)
  | null (start stop : Nat)
  | noCharacter (code : Nat)
  deriving DecidableEq

namespace EscapeFault

/-- The lower-case hexadecimal digits of a code point. -/
def hexDigits (n : Nat) : String := String.ofList (Nat.toDigits 16 n)

/-- One character of a quoted name. -/
def quotedChar (c : Char) : String :=
  if c = '\t' then "\\t" else if c = '\n' then "\\n" else if c = '\r' then "\\r"
  else if c = '"' then "\\\"" else if c = '\\' then "\\\\" else if c.toNat = 0 then "\\0"
  else if Text.isHidden c then "\\u\x7b" ++ hexDigits c.toNat ++ "\x7d"
  else String.singleton c

/-- A name in double quotes, with escapes for what would not show. -/
def quoted (name : String) : String :=
  "\"" ++ String.join (name.toList.map quotedChar) ++ "\""

/-- A range as it stands in a message. -/
def atRange (start stop : Nat) : String :=
  "Error while escaping character at range " ++ toString start ++ ".." ++ toString stop ++ ": "

def message : EscapeFault → String
  | unclosed start stop => atRange start stop ++ "Cannot find ';' after '&'"
  | unknownName start stop name =>
    atRange start stop ++ "Unrecognized escape symbol: " ++ quoted name
  | hexTooLong => "Cannot convert hexadecimal to utf8"
  | hexDigit c => "'" ++ String.singleton c ++ "' is not a valid hexadecimal character"
  | decimalTooLong => "Cannot convert decimal to utf8"
  | decimalDigit c => "'" ++ String.singleton c ++ "' is not a valid decimal character"
  | null start stop => atRange start stop ++ "Null character entity not allowed"
  | noCharacter code => "'" ++ toString code ++ "' is not a valid codepoint"

end EscapeFault

/-- Reads digits of a base, the most significant first. No digits count as zero. -/
def readDigits (base : Nat) (value? : Char → Option Nat) (fault : Char → EscapeFault)
    (code : Nat) : List Char → Except EscapeFault Nat
  | [] => .ok code
  | c :: cs => match value? c with
    | some v => readDigits base value? fault (code * base + v) cs
    | none => .error (fault (Text.leadByte c))

/-- The number of a numeric reference: hexadecimal behind an `x`, else decimal. -/
def readNumber : List Char → Except EscapeFault Nat
  | 'x' :: digits =>
    if Text.byteLength digits > 6 then .error .hexTooLong
    else readDigits 16 Text.hexValue? .hexDigit 0 digits
  | digits =>
    if Text.byteLength digits > 7 then .error .decimalTooLong
    else readDigits 10 Text.decimalValue? .decimalDigit 0 digits

/-- The character that the reference `&name;` at bytes `start` to `stop` stands for;
`stop` is the place of the semicolon. -/
def referent (start stop : Nat) (name : List Char) : Except EscapeFault Char :=
  match name with
  | '#' :: number => do
    let code ← readNumber number
    if code = 0 then .error (.null start stop)
    else match Text.charOfCode? code with
      | some c => .ok c
      | none => .error (.noCharacter code)
  | _ => match String.ofList name with
    | "lt" => .ok '<'
    | "gt" => .ok '>'
    | "amp" => .ok '&'
    | "apos" => .ok '\''
    | "quot" => .ok '"'
    | other => .error (.unknownName (start + 1) stop other)

/-- Replaces the references in the rest of a piece of `size` bytes. The second
argument is the reference being read, with its start and its name so far in
reverse; the third is the byte offset of the rest. -/
def expand (size : Nat) :
    Option (Nat × List Char) → Nat → List Char → Except EscapeFault (List Char)
  | none, _, [] => .ok []
  | some (start, _), _, [] => .error (.unclosed start size)
  | none, i, c :: cs =>
    if c = '&' then expand size (some (i, [])) (i + 1) cs
    else (c :: ·) <$> expand size none (i + c.utf8Size) cs
  | some (start, name), i, c :: cs =>
    if c = '&' then .error (.unclosed start size)
    else if c = ';' then do
      let decoded ← referent start i name.reverse
      (decoded :: ·) <$> expand size none (i + 1) cs
    else expand size (some (start, c :: name)) (i + c.utf8Size) cs

/-- Replaces every reference in a text piece by the character it stands for. -/
def unescape (piece : List Char) : Except EscapeFault (List Char) :=
  expand (Text.byteLength piece) none 0 piece

/-- Writes a text so that `unescape` gives it back: ampersands and opening angle
brackets become references. -/
def escape (text : List Char) : List Char :=
  text.flatMap fun c =>
    if c = '&' then "&amp;".toList else if c = '<' then "&lt;".toList else [c]

end Simgen.Markup
