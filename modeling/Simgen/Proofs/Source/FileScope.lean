import Simgen.Source.Body
import Simgen.Proofs.Source.BraceRole
import Simgen.Proofs.Source.Lexing

/-! The items at file scope of a source. The functions that it defines there are found
with their bodies, and no others. -/
namespace Simgen.Source

/-- Whether an item goes on with a piece, and not with braces. -/
def goesOn : Piece → Bool
  | .directive _ => false
  | .unclosed => false
  | .group .brace _ => false
  | .symbol s => s ∉ [";", "\x7d"]
  | _ => true

/-- Pieces with which an item goes on behind what was read of it already. Braces in it are
those of classes and initializers. -/
inductive GoesOn : (header : List Piece) → List Piece → Prop where
  | nil {header} : GoesOn header []
  | piece {header p ps} : goesOn p = true → GoesOn (header ++ [p]) ps → GoesOn header (p :: ps)
  | braces {header inside ps} : PartHeader header →
      GoesOn (header ++ [.group .brace inside]) ps → GoesOn header (.group .brace inside :: ps)

/-- The pieces of a source, as items at file scope, and the functions with unqualified
names that it defines there, in order, with the contents of their braces. Items stand
between directives. -/
inductive FileScope : List Piece → List (String × List Lexeme) → Prop where
  | nil : FileScope [] []
  | directive {directive ps ds} : directive ∉ ["elifdef", "elifndef"] → FileScope ps ds →
      FileScope (.directive directive :: ps) ds
  | declaration {item ps ds} : GoesOn [] item → FileScope ps ds →
      FileScope (item ++ .symbol ";" :: ps) ds
  | scope {header inside ps ds} : ScopeHeader header → FileScope ps ds →
      FileScope (header ++ .group .brace inside :: ps) ds
  | member {header qs inside ps ds} : GoesOn [] header → Folds header qs →
      MemberHeader false qs → FileScope ps ds →
      FileScope (header ++ .group .brace inside :: ps) ds
  | hidden {header qs inside ps ds} : GoesOn [] header → Folds header qs → HiddenHeader qs →
      FileScope ps ds → FileScope (header ++ .group .brace inside :: ps) ds
  | function {name header qs inside ps ds} : GoesOn [] header → Folds header qs →
      FunctionHeader name qs → FileScope ps ds →
      FileScope (header ++ .group .brace inside :: ps) ((name, inside) :: ds)

section definitions

variable {c : Conditions} {header ps : List Piece} {inside : List Lexeme}

theorem definitions_piece {p : Piece} (h : goesOn p = true) (rest : List Piece) :
    definitions c header (p :: rest) = definitions c (header ++ [p]) rest := by
  rw [definitions.eq_def]
  split <;> simp_all [goesOn]

/-- An item goes on up to its end, past the braces that are parts of it. -/
theorem definitions_goesOn (h : GoesOn header ps) (rest : List Piece) :
    definitions c header (ps ++ rest) = definitions c (header ++ ps) rest := by
  induction h with
  | nil => simp
  | piece hp _ ih =>
      rw [List.cons_append, definitions_piece hp, ih]
      simp
  | braces hPart _ ih =>
      rw [List.cons_append, definitions, braceRole_of_part hPart, if_pos rfl, ih]
      simp

theorem goesOn_of_forall (h : ∀ p ∈ ps, goesOn p = true) : GoesOn header ps := by
  induction ps generalizing header with
  | nil => exact .nil
  | cons p ps ih =>
      obtain ⟨hp, hMore⟩ := List.forall_mem_cons.mp h
      exact .piece hp (ih hMore)

theorem definitions_body {name : Option String} (hView : c.inView = true)
    (h : ∀ isBlock, braceRole isBlock header = .body name) (rest : List Piece) :
    definitions c header (.group .brace inside :: rest) =
      { name, body := some inside } :: definitions c [] rest := by
  rw [definitions]
  simp [h, hView, definition?]

theorem definitions_scope (h : ∀ isBlock, braceRole isBlock header = .scope) (rest : List Piece) :
    definitions c header (.group .brace inside :: rest) = definitions c [] rest := by
  rw [definitions]
  simp [h, definition?]

theorem ScopeHeader.goesOn (h : ScopeHeader header) : GoesOn [] header := by
  have hType : ∀ {p}, IsTypePiece p → Source.goesOn p = true := by
    intro p hp
    cases hp <;> simp [Source.goesOn]
  apply goesOn_of_forall
  cases h with
  | unnamed => decide
  | named hName =>
      exact List.forall_mem_cons.mpr ⟨rfl, fun p hp => hType (hName.isTypePiece p hp)⟩
  | inlined hName =>
      simp only [List.forall_mem_cons]
      exact ⟨rfl, rfl, fun p hp => hType (hName.isTypePiece p hp)⟩
  | linkage => decide

end definitions

/-- All conditional groups around a place are in view. -/
def Conditions.AllInView (c : Conditions) : Prop := ∀ isHidden ∈ c, isHidden = false

theorem Conditions.AllInView.inView {c : Conditions} (h : c.AllInView) : c.inView = true := by
  cases c with
  | nil => rfl
  | cons isHidden c => simp [Conditions.inView, h isHidden (List.mem_cons_self ..)]

/-- Only branches on whether a name is defined are out of view. -/
theorem Conditions.AllInView.after {c : Conditions} (h : c.AllInView) {directive : String}
    (hDirective : directive ∉ ["elifdef", "elifndef"]) : (c.after directive).AllInView := by
  simp only [List.mem_cons, List.not_mem_nil, or_false, not_or] at hDirective
  unfold Conditions.after
  split
  next => exact List.forall_mem_cons.mpr ⟨by simp [h.inView], h⟩
  next =>
    split
    next => exact fun isHidden hMem => h isHidden (List.mem_of_mem_tail hMem)
    next => simpa [hDirective] using h

/-- The first definition of a name is found with its contents. -/
theorem find?_definitions {ps : List Piece} {ds : List (String × List Lexeme)}
    (h : FileScope ps ds) {c : Conditions} (hc : c.AllInView) (name : String) :
    (definitions c [] ps).find? (fun d => d.name = some name) =
      (ds.find? fun d => d.1 = name).map fun d => { name := some d.1, body := some d.2 } := by
  induction h generalizing c with
  | nil => rfl
  | directive hDirective _ ih =>
      rw [definitions]
      exact ih (hc.after hDirective)
  | declaration hItem _ ih => rw [definitions_goesOn hItem, definitions, ih hc]
  | scope hHeader _ ih =>
      rw [definitions_goesOn hHeader.goesOn, List.nil_append,
        definitions_scope (braceRole_of_scope hHeader), ih hc]
  | member hGoesOn hFolds hMember _ ih =>
      rw [definitions_goesOn hGoesOn, List.nil_append,
        definitions_body hc.inView (braceRole_of_member hFolds hMember), List.find?_cons, ih hc]
      simp
  | hidden hGoesOn hFolds hHidden _ ih =>
      rw [definitions_goesOn hGoesOn, List.nil_append,
        definitions_body hc.inView (braceRole_of_hidden hFolds hHidden), List.find?_cons, ih hc]
      simp
  | @function other _ _ _ _ _ hGoesOn hFolds hFunction _ ih =>
      rw [definitions_goesOn hGoesOn, List.nil_append,
        definitions_body hc.inView (braceRole_of_function hFolds hFunction), List.find?_cons,
        List.find?_cons, ih hc]
      by_cases hName : other = name
      · simp [hName]
      · simp [hName]

/-- The body of a function is the text between the braces of its first definition at file
scope, without blanks at its ends; other items, comments, literals and directives do not
matter. -/
theorem body?_of_fileScope {source : String} {ls : List Lexeme} {ps : List Piece}
    {ds : List (String × List Lexeme)} (hText : Lexes (splice source.toList) ls)
    (hNests : Nests false ls ps) (hItems : FileScope ps ds) (name : String) :
    body? source name = (ds.find? fun d => d.1 = name).map fun d =>
      String.ofList (Text.trimChars (d.2.flatMap Lexeme.text)) := by
  have hBalance : balance 0 [] ls = ls := by
    have hGroup : false = true → (0 : Nat) = 0 ∧ ([] : List Nat) ≠ [] := by simp
    simpa [balance] using balance_of_nests hNests hGroup []
  have hPieces : pieces ls = ps := by simpa [pieces] using pieces_of_nests hNests []
  rw [body?, definitionsOf, scan_of_lexes hText, hBalance, hPieces,
    find?_definitions hItems (by simp [Conditions.AllInView]) name]
  cases ds.find? fun d => d.1 = name <;> rfl

/-- Parentheses around the name alone hide it. -/
theorem body?_parenthesized_name : body? "int (f)() \x7b return 1; \x7d" "f" = none := by
  decide +kernel

/-! ### A small source -/

/-- A source with a definition in a conditional group. Its comment and its literal hold
braces. -/
def guardedSource : String := "//f()\x7b\n#ifdef A\nint*f()\x7b'\x7d';\x7d\n#endif"

/-- The lexemes between the braces of the definition. -/
def guardedBody : List Lexeme := [⟨.literal, ['\'', '\x7d', '\'']⟩, ⟨.symbol, [';']⟩]

def guardedComment : Lexeme := ⟨.comment, ['/', '/', 'f', '(', ')', '\x7b']⟩

def guardedStart : Lexeme := ⟨.directive, ['#', 'i', 'f', 'd', 'e', 'f', ' ', 'A']⟩

def guardedEnd : Lexeme := ⟨.directive, ['#', 'e', 'n', 'd', 'i', 'f']⟩

def lineEnd : Lexeme := ⟨.blank, ['\n']⟩

/-- The lexemes of the conditional group. -/
def guardedGroup : List Lexeme :=
  lineEnd :: ⟨.word, ['i', 'n', 't']⟩ :: ⟨.symbol, ['*']⟩ :: ⟨.word, ['f']⟩ ::
    (Bracket.round.opener :: [] ++ Bracket.round.closer ::
      (Bracket.brace.opener :: guardedBody ++ Bracket.brace.closer :: [lineEnd]))

def guardedLexemes : List Lexeme :=
  guardedComment :: lineEnd :: (guardedStart :: guardedGroup ++ guardedEnd :: [])

theorem lexes_cons {l : Lexeme} {ls : List Lexeme} (hHeads : l.Heads (ls.flatMap Lexeme.text))
    (h : Lexes (ls.flatMap Lexeme.text) ls) : Lexes ((l :: ls).flatMap Lexeme.text) (l :: ls) :=
  .cons hHeads h

section heads

variable {c d : Char} {text rest : List Char}

/-- A word ends before any other character than a backslash or a quote. -/
theorem heads_word (hStart : Text.startsWord c = true) (hText : text.all Text.continuesWord = true)
    (hNext : Text.continuesWord d = false ∧ d ∉ ['\\', '"', '\'']) :
    Lexeme.Heads ⟨.word, c :: text⟩ (d :: rest) := by
  obtain ⟨hWord, hMarks⟩ := hNext
  simp only [List.mem_cons, List.not_mem_nil, or_false, not_or] at hMarks
  have hPrefix : ∀ e, ¬ ['\\', e] <+: d :: rest := by
    simp [List.cons_prefix_cons, Ne.symm hMarks.1]
  exact .word hStart (List.all_eq_true.mp hText) ⟨by simpa using hWord, hPrefix _, hPrefix _⟩
    (by simp [EncodesLiteral, hMarks])

theorem heads_mark (hMark : isMark c = true) (hNext : isPair c d = false)
    (hSlash : c ≠ '/') (hDot : c ≠ '.') : Lexeme.Heads ⟨.symbol, [c]⟩ (d :: rest) :=
  .mark hMark (by simp [hNext, hSlash, hDot])

theorem heads_lineEnd (hNext : isSeparator d = false) : lineEnd.Heads (d :: rest) :=
  .blank (by decide) (by simp; decide) (by simpa using hNext)

end heads

theorem guardedSource_lexes : Lexes (splice guardedSource.toList) guardedLexemes := by
  have hText : splice guardedSource.toList = guardedLexemes.flatMap Lexeme.text := by decide
  have hChar : ∀ {c : Char} {cs rest : List Char}, c ≠ '\n' → c ≠ '\\' → LineTail cs rest →
      LineTail (c :: cs) rest :=
    fun hEnd hJoin hTail => .char hEnd (not_joins_of_ne hJoin) hTail
  have hComment : ∀ rest, LineTail ['f', '(', ')', '\x7b'] ('\n' :: rest) := fun rest =>
    hChar (by decide) (by decide) <| hChar (by decide) (by decide) <|
      hChar (by decide) (by decide) <| hChar (by decide) (by decide) <| .done rfl
  have hLine : ∀ rest, WordEnds ('\n' :: rest) := fun rest => ⟨by simp; decide, by simp, by simp⟩
  have hName : IsWord ['A'] := ⟨by decide, by simp; decide⟩
  have hStart : ∀ rest, DirectiveText ([] ++ "ifdef".toList ++ [' '] ++ ['A']) ('\n' :: rest) :=
    fun rest => .naming (by simp [IsGaps]) (by decide) (by simp [IsGaps, isGap]) (by decide) hName
      (hLine rest)
  have hEnd : DirectiveText ([] ++ "endif".toList) [] :=
    .bare (by simp [IsGaps]) (by decide) ⟨by simp, by simp, by simp⟩
  have hLiteral : ∀ rest, Lexeme.Heads ⟨.literal, [] ++ '\'' :: ['\x7d'] ++ ['\'']⟩ rest :=
    fun rest => .quoted (.inl rfl) (by decide) (.char (by decide) (by decide) (by decide) .nil)
  rw [hText]
  apply lexes_cons (.lineComment (hComment _))
  apply lexes_cons (heads_lineEnd (by decide))
  apply lexes_cons (.directive (hStart _))
  apply lexes_cons (heads_lineEnd (by decide))
  apply lexes_cons (heads_word (by decide) (by decide) (by decide))
  apply lexes_cons (heads_mark (by decide) (by decide) (by decide) (by decide))
  apply lexes_cons (heads_word (by decide) (by decide) (by decide))
  apply lexes_cons (heads_mark (by decide) (by decide) (by decide) (by decide))
  apply lexes_cons (heads_mark (by decide) (by decide) (by decide) (by decide))
  apply lexes_cons (heads_mark (by decide) (by decide) (by decide) (by decide))
  apply lexes_cons (hLiteral _)
  apply lexes_cons (heads_mark (by decide) (by decide) (by decide) (by decide))
  apply lexes_cons (heads_mark (by decide) (by decide) (by decide) (by decide))
  apply lexes_cons (heads_lineEnd (by decide))
  apply lexes_cons (.directive hEnd)
  exact .nil

theorem nests_piece {inGroup : Bool} {l : Lexeme} {ls : List Lexeme} {p : Piece} {ps : List Piece}
    (hLeaf : leaf? l = some p) (hPlain : l.IsPlain) (hBoundary : boundaryOf? l = none)
    (h : Nests inGroup ls ps) : Nests inGroup (l :: ls) (p :: ps) := by
  have hCons := Nests.leaf hPlain hBoundary h
  rwa [hLeaf] at hCons

theorem isPlain_of_kind {l : Lexeme} (hMissing : l.kind ≠ .missing) (hSymbol : l.kind ≠ .symbol) :
    l.IsPlain :=
  ⟨hMissing, fun hKind => absurd hKind hSymbol⟩

theorem nests_blank {inGroup : Bool} {l : Lexeme} {ls : List Lexeme} {ps : List Piece}
    (hKind : l.kind = .blank ∨ l.kind = .comment) (h : Nests inGroup ls ps) :
    Nests inGroup (l :: ls) ps := by
  have hLeaf : leaf? l = none := by rcases hKind with hKind | hKind <;> simp [leaf?, hKind]
  have hBoundary : boundaryOf? l = none := by
    rcases hKind with hKind | hKind <;> simp [boundaryOf?, hKind]
  have hPlain : l.IsPlain := by
    rcases hKind with hKind | hKind <;> exact isPlain_of_kind (by simp [hKind]) (by simp [hKind])
  have hCons := Nests.leaf hPlain hBoundary h
  rwa [hLeaf] at hCons

def guardedPieces : List Piece :=
  directivePiece guardedStart ::
    ([.word "int", .symbol "*", .word "f", .group .round [], .group .brace guardedBody] ++
      directivePiece guardedEnd :: [])

theorem guardedSource_nests : Nests false guardedLexemes guardedPieces := by
  have hBody : Nests false guardedBody [.constant true, .symbol ";"] := by
    apply nests_piece rfl (isPlain_of_kind (by decide) (by decide)) rfl
    apply nests_piece rfl ⟨by decide, fun _ b => by cases b <;> decide⟩ rfl
    exact .nil
  have hGroup : Nests true guardedGroup
      [.word "int", .symbol "*", .word "f", .group .round [], .group .brace guardedBody] := by
    apply nests_blank (.inl rfl)
    apply nests_piece rfl (isPlain_of_kind (by decide) (by decide)) rfl
    apply nests_piece rfl ⟨by decide, fun _ b => by cases b <;> decide⟩ rfl
    apply nests_piece rfl (isPlain_of_kind (by decide) (by decide)) rfl
    apply Nests.bracket .round .nil
    apply Nests.bracket .brace hBody
    exact nests_blank (.inl rfl) .nil
  apply nests_blank (.inr rfl)
  apply nests_blank (.inl rfl)
  exact .conditional (by decide) (by decide) hGroup .nil

theorem guardedSource_items : FileScope guardedPieces [("f", guardedBody)] := by
  have hName : IsName "f" := by
    unfold IsName
    decide
  have hHeader : FunctionHeader "f" ([] ++ (["int"].map Piece.word ++
      [.symbol "*", .word "f", .group .round []])) :=
    .intro hName (by simp) (.basic (by decide) (by decide))
      (.mark (by decide) (.function ⟨[], .nil, .nil⟩ .nil .nil))
  have hEnd : FileScope [directivePiece guardedEnd] [] := .directive (by decide) .nil
  have hGroup : FileScope ([.word "int", .symbol "*", .word "f", .group .round []] ++
      .group .brace guardedBody :: [directivePiece guardedEnd]) [("f", guardedBody)] :=
    .function (goesOn_of_forall (by decide)) (folds_self (by decide)) hHeader hEnd
  exact .directive (by decide) hGroup

/-- The braces in the comment and in the literal do not matter. -/
theorem guardedSource_body :
    Lexes (splice guardedSource.toList) guardedLexemes ∧ Nests false guardedLexemes guardedPieces ∧
      FileScope guardedPieces [("f", guardedBody)] ∧
      body? guardedSource "f" = some "'\x7d';" ∧ body? guardedSource "A" = none := by
  refine ⟨guardedSource_lexes, guardedSource_nests, guardedSource_items, ?_, ?_⟩
  · rw [body?_of_fileScope guardedSource_lexes guardedSource_nests guardedSource_items]
    decide
  · rw [body?_of_fileScope guardedSource_lexes guardedSource_nests guardedSource_items]
    decide

end Simgen.Source
