import Simgen.Text.Blank

/-! Reading a document token by token. Positions are counted in bytes behind an
optional byte order mark. Attributes are skipped over, and names are not checked. -/
namespace Simgen.Markup

/-- What the reader refuses. -/
inductive ReadFault where
  /-- A `<!` that opens no comment, character data or document type. -/
  | bang (symbol : Char)
  /-- The document ends, or a construct does not begin as it must. -/
  | cutOff (construct : String)
  | emptyDoctype
  /-- A closing tag that does not close the innermost open element. -/
  | mismatch (expected found : String)
  deriving DecidableEq

def ReadFault.message : ReadFault → String
  | bang symbol =>
    "Only Comment (`--`), CDATA (`[CDATA[`) and DOCTYPE (`DOCTYPE`) nodes can start with a '!', " ++
      "but symbol `" ++ String.singleton symbol ++ "` found"
  | cutOff construct => "Unexpected EOF during reading " ++ construct
  | emptyDoctype => "DOCTYPE declaration must not be empty"
  | mismatch expected found => "Expecting </" ++ expected ++ "> found </" ++ found ++ ">"

/-- What stands between two positions of a document. -/
inductive Token where
  | opening (name : String)
  | closing
  | empty (name : String)
  /-- Text up to the next markup, without white space at its ends. -/
  | text (raw : List Char)
  | characterData (raw : List Char)
  /-- Comments, document types and processing instructions. -/
  | skipped
  deriving DecidableEq

/-- The reader: what is left to read, the bytes read so far, and the names of the
open elements, the innermost first. -/
structure Reader where
  rest : List Char
  offset : Nat
  opened : List String

/-- One step of the reader. -/
inductive Step where
  | ended
  | failed (offset : Nat) (fault : ReadFault)
  | token (t : Token) (next : Reader)

/-- White space of the document grammar. -/
def isSpace (c : Char) : Bool := c == ' ' || c == '\r' || c == '\n' || c == '\t'

/-- White space that may follow the name in a closing tag. -/
def isClosingSpace (c : Char) : Bool := isSpace c || c == '\x0c'

/-- Cuts at the first `>` that `ends` accepts. `ends` sees what stands before that
`>`, the nearest character first; `before` is what was passed already. -/
def cutAt (ends : List Char → Bool) (before : List Char) :
    List Char → Option (List Char × List Char)
  | [] => none
  | c :: cs =>
    if c = '>' && ends before then some (before.reverse, cs) else cutAt ends (c :: before) cs

/-- Cuts at the first `>` outside single and double quotes. -/
def cutTag (quote : Option Char) (before : List Char) :
    List Char → Option (List Char × List Char)
  | [] => none
  | c :: cs => match quote with
    | some q => cutTag (if c = q then none else quote) (c :: before) cs
    | none =>
      if c = '>' then some (before.reverse, cs)
      else cutTag (if c = '\'' || c = '"' then some c else none) (c :: before) cs

theorem cutAt_length {ends : List Char → Bool} {before cs content rest : List Char}
    (h : cutAt ends before cs = some (content, rest)) : rest.length < cs.length := by
  induction cs generalizing before with
  | nil => simp [cutAt] at h
  | cons c cs ih =>
    simp only [cutAt] at h
    split at h
    · cases h; simp
    · have := ih h; simp; omega

theorem cutTag_length {quote : Option Char} {before cs content rest : List Char}
    (h : cutTag quote before cs = some (content, rest)) : rest.length < cs.length := by
  induction cs generalizing quote before with
  | nil => simp [cutTag] at h
  | cons c cs ih =>
    cases quote with
    | some q =>
      simp only [cutTag] at h
      have := ih h; simp; omega
    | none =>
      simp only [cutTag] at h
      split at h
      · cases h; simp
      · have := ih h; simp; omega

/-- Whether `text` begins with `start`, letters compared without case. -/
def startsWithUncased (text start : List Char) : Bool :=
  (text.take start.length).map Char.toLower == start.map Char.toLower

def endsComment (before : List Char) : Bool :=
  Text.byteLength before > 4 && ['-', '-'].isPrefixOf before

def endsCharacterData (before : List Char) : Bool := [']', ']'].isPrefixOf before

def endsDoctype (before : List Char) : Bool := before.count '<' == before.count '>'

namespace Reader

/-- A reader at the start of a document. -/
def ofText (s : String) : Reader :=
  match s.toList with
  | '\uFEFF' :: cs => { rest := cs, offset := 0, opened := [] }
  | cs => { rest := cs, offset := 0, opened := [] }

/-- The reader behind `taken`, with `rest` left. -/
def past (r : Reader) (taken rest : List Char) : Reader :=
  { r with rest := rest, offset := r.offset + Text.byteLength taken }

/-- Reads a construct that begins with `!`: `content` is cut where `ends` says, and
`accept` makes a token of it. -/
def bang (r : Reader) (construct : String) (ends : List Char → Bool)
    (accept : List Char → Except ReadFault Token) : Step :=
  match cutAt ends [] r.rest with
  | none => .failed r.offset (.cutOff construct)
  | some (content, rest) =>
    let next := r.past (content ++ ['>']) rest
    match accept content with
    | .ok t => .token t next
    | .error fault => .failed next.offset fault

def acceptComment (content : List Char) : Except ReadFault Token :=
  if ['!', '-', '-'].isPrefixOf content then .ok .skipped else .error (.cutOff "Comment")

def acceptCharacterData (content : List Char) : Except ReadFault Token :=
  if startsWithUncased content "![CDATA[".toList then
    .ok (.characterData ((content.drop 8).take (content.length - 10)))
  else .error (.cutOff "CData")

def acceptDoctype (content : List Char) : Except ReadFault Token :=
  if startsWithUncased content "!DOCTYPE".toList then
    if (content.drop 8).all isSpace then .error .emptyDoctype else .ok .skipped
  else .error (.cutOff "DOCTYPE")

/-- Reads behind `<!`; the reader stands at the `!`, whose next character decides. -/
def declaration (r : Reader) : Step :=
  match r.rest with
  | _ :: '[' :: _ => r.bang "CData" endsCharacterData acceptCharacterData
  | _ :: '-' :: _ => r.bang "Comment" endsComment acceptComment
  | _ :: 'D' :: _ => r.bang "DOCTYPE" endsDoctype acceptDoctype
  | _ :: 'd' :: _ => r.bang "DOCTYPE" endsDoctype acceptDoctype
  | _ :: c :: _ => .failed r.offset (.bang (Text.leadByte c))
  | _ => .failed r.offset (.cutOff "Bang")

/-- Cuts a piece that ends at the next `>` or at the end of the document, and gives
the reader behind it. -/
def piece (r : Reader) : List Char × Reader :=
  match cutAt (fun _ => true) [] r.rest with
  | some (content, rest) => (content, r.past (content ++ ['>']) rest)
  | none => (r.rest, r.past r.rest [])

/-- The name in a closing tag: blanks behind it do not count, unless there is
nothing else. -/
def closingName (content : List Char) : List Char :=
  match Text.dropEndWhile isClosingSpace content with
  | [] => content
  | name => name

/-- Reads behind `</`; the reader stands at the slash. -/
def closingTag (r : Reader) : Step :=
  let (content, next) := r.piece
  let name := content.drop 1
  let start := next.offset - Text.byteLength content
  match r.opened with
  | [] => .failed start (.mismatch "" (String.ofList name))
  | expected :: outer =>
    let found := String.ofList (closingName name)
    if found = expected then .token .closing { next with opened := outer }
    else .failed start (.mismatch expected found)

/-- Reads behind `<?`; the reader stands at the question mark. -/
def instruction (r : Reader) : Step :=
  let (content, next) := r.piece
  if Text.byteLength content > 2 && content.getLast? == some '?' then .token .skipped next
  else .failed (next.offset - Text.byteLength content) (.cutOff "XmlDecl")

/-- Reads the tag of an element; the reader stands behind the `<`. -/
def tag (r : Reader) : Step :=
  match cutTag none [] r.rest with
  | none => .failed r.offset (.cutOff "Element")
  | some (content, rest) =>
    let next := r.past (content ++ ['>']) rest
    let name := content.takeWhile fun c => !isSpace c
    if content.getLast? = some '/' then
      .token (.empty (String.ofList (if name.length < content.length then name else name.dropLast)))
        next
    else
      let name := String.ofList name
      .token (.opening name) { next with opened := name :: r.opened }

/-- Reads text up to the next markup; the reader stands at a character that is no
white space. -/
def textPiece (r : Reader) : Step :=
  let content := r.rest.takeWhile (· ≠ '<')
  .token (.text (Text.dropEndWhile isSpace content))
    (r.past content (r.rest.dropWhile (· ≠ '<')))

/-- Reads behind a `<`. A `<` at the very end of a document is passed over. -/
def markup (r : Reader) : Step :=
  match r.rest with
  | [] => .ended
  | '!' :: _ => r.declaration
  | '/' :: _ => r.closingTag
  | '?' :: _ => r.instruction
  | _ => r.tag

/-- The reader behind the white space it stands at. -/
def skipSpace (r : Reader) : Reader :=
  r.past (r.rest.takeWhile isSpace) (r.rest.dropWhile isSpace)

/-- Reads the next token. -/
def step (r : Reader) : Step :=
  let r := r.skipSpace
  match r.rest with
  | [] => .ended
  | '<' :: rest => (r.past ['<'] rest).markup
  | _ => r.textPiece

theorem piece_rest_length (r : Reader) : r.piece.2.rest.length ≤ r.rest.length := by
  unfold piece
  split
  · next h => exact Nat.le_of_lt (cutAt_length h)
  · simp [past]

theorem bang_rest_length {r next : Reader} {construct : String} {ends : List Char → Bool}
    {accept : List Char → Except ReadFault Token} {t : Token}
    (h : r.bang construct ends accept = .token t next) : next.rest.length ≤ r.rest.length := by
  unfold bang at h
  split at h
  · cases h
  · next hCut =>
    dsimp only at h
    split at h
    · cases h; exact Nat.le_of_lt (cutAt_length hCut)
    · cases h

theorem declaration_rest_length {r next : Reader} {t : Token}
    (h : r.declaration = .token t next) : next.rest.length ≤ r.rest.length := by
  unfold declaration at h
  split at h <;> first | exact bang_rest_length h | cases h

theorem closingTag_rest_length {r next : Reader} {t : Token}
    (h : r.closingTag = .token t next) : next.rest.length ≤ r.rest.length := by
  have hPiece := r.piece_rest_length
  unfold closingTag at h
  generalize r.piece = p at h hPiece
  obtain ⟨content, behind⟩ := p
  dsimp only at h hPiece
  split at h
  · cases h
  · split at h
    · cases h; exact hPiece
    · cases h

theorem instruction_rest_length {r next : Reader} {t : Token}
    (h : r.instruction = .token t next) : next.rest.length ≤ r.rest.length := by
  have hPiece := r.piece_rest_length
  unfold instruction at h
  generalize r.piece = p at h hPiece
  obtain ⟨content, behind⟩ := p
  dsimp only at h hPiece
  split at h
  · cases h; exact hPiece
  · cases h

theorem tag_rest_length {r next : Reader} {t : Token}
    (h : r.tag = .token t next) : next.rest.length ≤ r.rest.length := by
  unfold tag at h
  split at h
  · cases h
  · next hCut =>
    have := cutTag_length hCut
    dsimp only at h
    split at h <;> (cases h; exact Nat.le_of_lt this)

theorem markup_rest_length {r next : Reader} {t : Token}
    (h : r.markup = .token t next) : next.rest.length ≤ r.rest.length := by
  unfold markup at h
  split at h
  · cases h
  · exact declaration_rest_length h
  · exact closingTag_rest_length h
  · exact instruction_rest_length h
  · exact tag_rest_length h

/-- Every token takes at least one character. -/
theorem step_rest_length {r next : Reader} {t : Token}
    (h : r.step = .token t next) : next.rest.length < r.rest.length := by
  have hSkip : r.skipSpace.rest.length ≤ r.rest.length := by
    exact (List.dropWhile_suffix (l := r.rest) isSpace).length_le
  unfold step at h
  dsimp only at h
  split at h
  · cases h
  · next hRest =>
    have hNext := markup_rest_length h
    rw [hRest] at hSkip
    simp only [past, List.length_cons] at hNext hSkip
    omega
  · next hNil hOpen =>
    cases hRest : r.skipSpace.rest with
    | nil => exact absurd hRest hNil
    | cons c cs =>
      have hc : c ≠ '<' := by
        intro hEq; subst hEq; exact hOpen cs hRest
      simp only [textPiece, Step.token.injEq] at h
      obtain ⟨-, rfl⟩ := h
      rw [hRest] at hSkip ⊢
      have := (List.dropWhile_suffix (l := cs) (fun x => decide (x ≠ '<'))).length_le
      simp [past, hc] at hSkip this ⊢
      omega

end Reader

end Simgen.Markup
