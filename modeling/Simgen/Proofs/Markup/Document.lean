import Simgen.Proofs.Markup.Declaration
import Simgen.Proofs.Markup.Reference
import Simgen.Proofs.Journal
import Simgen.Proofs.Markup.Writer

/-! Documents and their trees. The grammar says which tree a document has without saying how it
is read; reading finds that tree. -/
namespace Simgen.Markup

/-- The text of an element with these pieces of text; none if it has no piece. -/
def joined (pieces : List (List Char)) : Option String :=
  if pieces = [] then none else some (String.ofList pieces.flatten)

/-- The content of an element as it is written, with its pieces of text and its elements, both
in document order. Text may come first only if `textFirst`, so that no piece of text follows
another at once. White space around a piece does not belong to it. -/
inductive Content : (textFirst : Bool) → List Char → List (List Char) → List Element → Prop where
  | done {textFirst : Bool} : Content textFirst [] [] []
  | space {textFirst : Bool} {c : Char} {rest : List Char} {pieces : List (List Char)}
      {es : List Element} (hSpace : isSpace c = true) (hRest : Content textFirst rest pieces es) :
      Content textFirst (c :: rest) pieces es
  | text {raws : List (List Char)} {text rest : List Char} {pieces : List (List Char)}
      {es : List Element} (hText : List.Forall₂ Spells raws text) (hPiece : IsPiece raws.flatten)
      (hRest : Content false rest pieces es) :
      Content true (raws.flatten ++ rest) (text :: pieces) es
  | characterData {textFirst : Bool} {text rest : List Char} {pieces : List (List Char)}
      {es : List Element} (hText : ¬ "]]>".toList <:+: text) (hRest : Content true rest pieces es) :
      Content textFirst ("<![CDATA[".toList ++ text ++ "]]>".toList ++ rest) (text :: pieces) es
  | comment {textFirst : Bool} {text rest : List Char} {pieces : List (List Char)}
      {es : List Element} (hText : ¬ "-->".toList <:+: text) (hRest : Content true rest pieces es) :
      Content textFirst ("<!--".toList ++ text ++ "-->".toList ++ rest) pieces es
  | instruction {textFirst : Bool} {text rest : List Char} {pieces : List (List Char)}
      {es : List Element} (hNil : text ≠ []) (hText : '>' ∉ text)
      (hRest : Content true rest pieces es) :
      Content textFirst ("<?".toList ++ text ++ "?>".toList ++ rest) pieces es
  | empty {textFirst : Bool} {tag : String} {rest : List Char} {pieces : List (List Char)}
      {es : List Element} (hTag : IsTag tag) (hRest : Content true rest pieces es) :
      Content textFirst ('<' :: tag.toList ++ '/' :: '>' :: rest) pieces (.mk tag none [] :: es)
  | element {textFirst : Bool} {tag : String} {inner rest : List Char}
      {innerPieces pieces : List (List Char)} {children es : List Element} (hTag : IsTag tag)
      (hInner : Content true inner innerPieces children) (hRest : Content true rest pieces es) :
      Content textFirst
        ('<' :: tag.toList ++ '>' :: inner ++ '<' :: '/' :: tag.toList ++ '>' :: rest) pieces
        (.mk tag (joined innerPieces) children :: es)

/-- A document holds one element, and otherwise only white space, comments and processing
instructions. -/
def IsDocument (document : String) (root : Element) : Prop :=
  Content true document.toList [] [root]

namespace Builder

/-- What content adds to a tree under construction. -/
def absorb (b : Builder) (pieces : List (List Char)) (es : List Element) :
    Except DocumentFault Builder :=
  es.foldlM hang (pieces.foldl addText b)

/-- Text and elements are kept apart, so it does not matter which of them is added first. -/
theorem hang_addText (b : Builder) (text : List Char) (e : Element) :
    (b.addText text).hang e = b.hang e >>= fun next => .ok (next.addText text) := by
  obtain ⟨opened, root⟩ := b
  cases opened with
  | nil => cases root <;> rfl
  | cons top outer =>
      cases top
      rfl

theorem absorb_cons (b : Builder) (pieces : List (List Char)) (e : Element) (es : List Element) :
    b.absorb pieces (e :: es) = b.hang e >>= fun next => next.absorb pieces es := by
  induction pieces generalizing b with
  | nil => rfl
  | cons piece pieces ih =>
      have hFirst : b.absorb (piece :: pieces) (e :: es) =
          (b.addText piece).absorb pieces (e :: es) := rfl
      rw [hFirst, ih, hang_addText, bind_assoc]
      rfl

theorem addText_opened (tag : String) (text : Option String) (children outer : List Element)
    (root : Option Element) (added : List Char) :
    addText ⟨.mk tag text children :: outer, root⟩ added =
      ⟨.mk tag (some (text.getD "" ++ String.ofList added)) children :: outer, root⟩ := rfl

theorem foldl_addText (tag text : String) (children outer : List Element) (root : Option Element)
    (pieces : List (List Char)) :
    pieces.foldl addText ⟨.mk tag (some text) children :: outer, root⟩ =
      ⟨.mk tag (some (text ++ String.ofList pieces.flatten)) children :: outer, root⟩ := by
  induction pieces generalizing text with
  | nil => simp
  | cons piece pieces ih =>
      rw [List.foldl_cons, addText_opened, Option.getD_some, ih, List.flatten_cons,
        String.ofList_append, String.append_assoc]

theorem foldlM_hang (tag : String) (text : Option String) (done outer : List Element)
    (root : Option Element) (es : List Element) :
    es.foldlM hang ⟨.mk tag text done :: outer, root⟩ =
      .ok ⟨.mk tag text (done ++ es) :: outer, root⟩ := by
  induction es generalizing done with
  | nil =>
      rw [List.append_nil]
      rfl
  | cons e es ih =>
      have hHang : hang ⟨.mk tag text done :: outer, root⟩ e =
          .ok ⟨.mk tag text (done ++ [e]) :: outer, root⟩ := rfl
      rw [List.foldlM_cons, hHang]
      exact (ih (done ++ [e])).trans (by rw [List.append_assoc, List.singleton_append])

/-- An element that was just opened takes in exactly its content. -/
theorem absorb_opened (tag : String) (outer : List Element) (root : Option Element)
    (pieces : List (List Char)) (es : List Element) :
    absorb ⟨.mk tag none [] :: outer, root⟩ pieces es =
      .ok ⟨.mk tag (joined pieces) es :: outer, root⟩ := by
  have hText : pieces.foldl addText ⟨.mk tag none [] :: outer, root⟩ =
      ⟨.mk tag (joined pieces) [] :: outer, root⟩ := by
    cases pieces with
    | nil => rfl
    | cons piece pieces =>
        rw [List.foldl_cons, addText_opened, Option.getD_none, foldl_addText]
        simp [joined, String.ofList_append]
  rw [absorb, hText, foldlM_hang, List.nil_append]

end Builder

/-- Where text may not come first, the content goes on with markup, perhaps behind white
space. -/
theorem Content.exists_gap {textFirst : Bool} {raw : List Char} {pieces : List (List Char)}
    {es : List Element} (h : Content textFirst raw pieces es) (hFirst : textFirst = false) :
    ∃ gap tail, raw = gap ++ tail ∧ (∀ c ∈ gap, isSpace c = true) ∧ ∀ c ∈ tail.head?, c = '<' := by
  induction h with
  | done => exact ⟨[], [], rfl, by simp, by simp⟩
  | @space _ c _ _ _ hSpace _ ih =>
      obtain ⟨gap, tail, rfl, hGap, hTail⟩ := ih hFirst
      exact ⟨c :: gap, tail, rfl, List.forall_mem_cons.mpr ⟨hSpace, hGap⟩, hTail⟩
  | text => cases hFirst
  | characterData | comment | instruction | empty | element =>
      refine ⟨[], _, rfl, by simp, ?_⟩
      rintro c ⟨⟩
      rfl

section build

variable {b b' : Builder} {opened : List String}

theorem build_congr {r r' : Reader} (h : r.step = r'.step) : build r b = build r' b := by
  rw [build, build, h]

theorem build_space {gap : List Char} (hGap : ∀ c ∈ gap, isSpace c = true) (rest : List Char)
    (offset : Nat) :
    build ⟨gap ++ rest, offset, opened⟩ b = build ⟨rest, offset + gap.length, opened⟩ b := by
  induction gap generalizing offset with
  | nil => rfl
  | cons c gap ih =>
      obtain ⟨hc, hRest⟩ := List.forall_mem_cons.mp hGap
      have hStep : Reader.step ⟨c :: gap ++ rest, offset, opened⟩ =
          Reader.step ⟨gap ++ rest, offset + 1, opened⟩ := Reader.step_space hc
      rw [build_congr hStep, ih hRest, List.length_cons, Nat.add_assoc, Nat.add_comm 1]

/-- Content is taken in completely, and reading goes on behind it. -/
theorem build_content {textFirst : Bool} {raw : List Char} {pieces : List (List Char)}
    {es : List Element} (h : Content textFirst raw pieces es) {rest : List Char}
    (hRest : ∀ c ∈ rest.head?, c = '<') (offset : Nat) (hAbsorb : b.absorb pieces es = .ok b') :
    ∃ behind, build ⟨raw ++ rest, offset, opened⟩ b = build ⟨rest, behind, opened⟩ b' := by
  induction h generalizing rest offset opened b b' with
  | done =>
      cases hAbsorb
      exact ⟨offset, rfl⟩
  | @space _ c more _ _ hSpace _ ih =>
      obtain ⟨behind, hRead⟩ := ih hRest (offset + 1) hAbsorb
      refine ⟨behind, ?_⟩
      rw [← hRead]
      exact build_congr (Reader.step_space hSpace)
  | @text raws text more pieces es hText hPiece hMore ih =>
      -- The reader takes the white space behind the piece along with it.
      obtain ⟨gap, tail, rfl, hGap, hTail⟩ := hMore.exists_gap rfl
      have hNext : ∀ c ∈ (tail ++ rest).head?, c = '<' := by
        cases tail with
        | nil => exact hRest
        | cons c tail => exact hTail
      obtain ⟨between, hStep⟩ := Reader.step_piece hPiece hGap hNext offset opened
      have hAdd : b.add (.text raws.flatten) = .ok (b.addText text) := by
        rw [Builder.add, unescape_of_spells hText]
      obtain ⟨behind, hRead⟩ := ih hRest between hAbsorb
      refine ⟨behind, ?_⟩
      rw [← hRead, List.append_assoc gap, build_space hGap, ← build_of_step hStep hAdd]
      simp only [List.append_assoc]
  | @characterData _ text more _ _ hText _ ih =>
      obtain ⟨between, hStep⟩ := Reader.step_characterData hText
      obtain ⟨behind, hRead⟩ := ih hRest between hAbsorb
      exact ⟨behind, by rw [List.append_assoc, build_of_step hStep rfl, hRead]⟩
  | comment hText _ ih =>
      obtain ⟨between, hStep⟩ := Reader.step_comment hText
      obtain ⟨behind, hRead⟩ := ih hRest between hAbsorb
      exact ⟨behind, by rw [List.append_assoc, build_of_step hStep rfl, hRead]⟩
  | instruction hNil hText _ ih =>
      obtain ⟨between, hStep⟩ := Reader.step_instruction hNil hText
      obtain ⟨behind, hRead⟩ := ih hRest between hAbsorb
      exact ⟨behind, by rw [List.append_assoc, build_of_step hStep rfl, hRead]⟩
  | @empty _ tag more _ _ hTag _ ih =>
      rw [Builder.absorb_cons] at hAbsorb
      obtain ⟨next, hHang, hAbsorb⟩ := bind_eq_ok_iff.mp hAbsorb
      obtain ⟨between, hStep⟩ := Reader.step_empty hTag
      obtain ⟨behind, hRead⟩ := ih hRest between hAbsorb
      have hText : '<' :: tag.toList ++ '/' :: '>' :: more ++ rest =
          '<' :: tag.toList ++ '/' :: '>' :: (more ++ rest) := by simp
      exact ⟨behind, by rw [hText, build_of_step hStep hHang, hRead]⟩
  | @element _ tag inner more innerPieces _ children _ hTag _ _ ihInner ihRest =>
      rw [Builder.absorb_cons] at hAbsorb
      obtain ⟨next, hHang, hAbsorb⟩ := bind_eq_ok_iff.mp hAbsorb
      obtain ⟨afterTag, hOpening⟩ := build_opening hTag
        (inner ++ ('<' :: '/' :: tag.toList ++ '>' :: (more ++ rest))) offset opened b
      have hMarkup : ∀ c ∈ ('<' :: '/' :: tag.toList ++ '>' :: (more ++ rest)).head?, c = '<' := by
        simp
      obtain ⟨afterInner, hContent⟩ := ihInner hMarkup afterTag
        (Builder.absorb_opened tag b.opened b.root innerPieces children)
      obtain ⟨afterElement, hClosing⟩ := build_closing hTag (more ++ rest) afterInner opened hHang
      obtain ⟨behind, hRead⟩ := ihRest hRest afterElement hAbsorb
      have hText :
          '<' :: tag.toList ++ '>' :: inner ++ '<' :: '/' :: tag.toList ++ '>' :: more ++ rest =
            '<' :: tag.toList ++
              '>' :: (inner ++ ('<' :: '/' :: tag.toList ++ '>' :: (more ++ rest))) := by simp
      exact ⟨behind, by rw [hText, hOpening, hContent, hClosing, hRead]⟩

end build

/-- A document does not begin with a byte order mark: only text could. -/
theorem Content.head?_ne {textFirst : Bool} {raw : List Char} {es : List Element}
    (h : Content textFirst raw [] es) : ∀ c ∈ raw.head?, c ≠ '\uFEFF' := by
  cases h with
  | done => simp
  | space hSpace =>
      rintro c ⟨⟩ rfl
      cases hSpace
  | comment | instruction | empty | element =>
      rintro c ⟨⟩
      decide

/-- Reading a document gives its tree: every element of the document is a node, where the
document has it and with its name, and the text of a node is what the pieces of text and
character data that stand directly in the element spell, one after another. -/
theorem parse_eq_root {document : String} {root : Element} (h : IsDocument document root) :
    Element.parse document = .ok root := by
  have hStart : Reader.ofText document = ⟨document.toList ++ [], 0, []⟩ := by
    rw [Reader.ofText, List.append_nil]
    split
    next rest hMark => exact absurd rfl (h.head?_ne '\uFEFF' (by simp [hMark]))
    next => rfl
  have hAbsorb : Builder.start.absorb [] [root] = .ok ⟨[], some root⟩ := rfl
  have hEnd : ∀ c ∈ ([] : List Char).head?, c = '<' := by simp
  obtain ⟨behind, hRead⟩ := build_content h hEnd 0 hAbsorb
  rw [Element.parse, hStart, hRead, build_of_ended rfl]
  rfl

theorem isPiece_of_ends {raw : List Char} {first last : Char} (hFirst : raw.head? = some first)
    (hLast : raw.getLast? = some last) (hLt : '<' ∉ raw) (hFirstSpace : isSpace first = false)
    (hLastSpace : isSpace last = false) : IsPiece raw where
  ne_nil := by
    rintro rfl
    cases hFirst
  no_lt := hLt
  head := by simpa [hFirst] using hFirstSpace
  last := by simpa [hLast] using hLastSpace

/-- Text before and behind children, references of each kind, and end marks that end nothing. -/
def mixedDocument : String :=
  "<?xml version='1.0'?>\n" ++
    "<a> x&lt;&#65; <!--->--><b/>\t<c><![CDATA[ ]] > ]]>&#x7a;<d></d> y</c></a> "

def mixedTree : Element :=
  .mk "a" (some "x<A") [.mk "b" none [], .mk "c" (some " ]] > zy") [.mk "d" none []]]

theorem mixedDocument_read :
    IsDocument mixedDocument mixedTree ∧ Element.parse mixedDocument = .ok mixedTree := by
  have hLt : Spells ('&' :: "lt".toList ++ [';']) '<' := .named (by decide)
  have hDecimal : Spells ('&' :: '#' :: "65".toList ++ [';']) 'A' :=
    .decimal (show "65".toList.mapM Text.decimalValue? = some [6, 5] by decide)
      (by decide) (by decide) (by decide)
  have hHex : Spells ('&' :: '#' :: 'x' :: "7a".toList ++ [';']) 'z' :=
    .hexadecimal (show "7a".toList.mapM Text.hexValue? = some [7, 10] by decide)
      (by decide) (by decide) (by decide)
  have hTail : Content false
      ('<' :: "d".toList ++ '>' :: [] ++ '<' :: '/' :: "d".toList ++ '>' ::
        (' ' :: ([['y']].flatten ++ []))) ["y".toList] [.mk "d" none []] :=
    .element (by decide) .done (.space (by decide)
      (.text (.cons (.plain (by decide) (by decide)) .nil)
        (isPiece_of_ends rfl rfl (by decide) (by decide) (by decide)) .done))
  have hInner : Content true
      ("<![CDATA[".toList ++ " ]] > ".toList ++ "]]>".toList ++
        (['&' :: '#' :: 'x' :: "7a".toList ++ [';']].flatten ++ _))
      [" ]] > ".toList, "z".toList, "y".toList] [.mk "d" none []] :=
    .characterData (by decide +kernel) (.text (.cons hHex .nil)
      (isPiece_of_ends rfl rfl (by decide) (by decide) (by decide)) hTail)
  have hChildren : Content false
      ("<!--".toList ++ "->".toList ++ "-->".toList ++
        ('<' :: "b".toList ++ '/' :: '>' ::
          ('\t' :: ('<' :: "c".toList ++ '>' :: _ ++ '<' :: '/' :: "c".toList ++ '>' :: []))))
      [] [.mk "b" none [], .mk "c" (joined [" ]] > ".toList, "z".toList, "y".toList])
        [.mk "d" none []]] :=
    .comment (by decide)
      (.empty (by decide) (.space (by decide) (.element (by decide) hInner .done)))
  have hContent : Content true
      (' ' :: ([['x'], '&' :: "lt".toList ++ [';'], '&' :: '#' :: "65".toList ++ [';']].flatten ++
        (' ' :: _))) ["x<A".toList]
      [.mk "b" none [], .mk "c" (joined [" ]] > ".toList, "z".toList, "y".toList])
        [.mk "d" none []]] :=
    .space (by decide) (.text
      (.cons (.plain (by decide) (by decide)) (.cons hLt (.cons hDecimal .nil)))
      (isPiece_of_ends rfl rfl (by decide) (by decide) (by decide)) (.space (by decide) hChildren))
  have hDocument : Content true
      ("<?".toList ++ "xml version='1.0'".toList ++ "?>".toList ++
        ('\n' :: ('<' :: "a".toList ++ '>' :: _ ++ '<' :: '/' :: "a".toList ++ '>' :: (' ' :: []))))
      [] [.mk "a" (joined ["x<A".toList]) [.mk "b" none [],
        .mk "c" (joined [" ]] > ".toList, "z".toList, "y".toList]) [.mk "d" none []]]] :=
    .instruction (by decide) (by decide) (.space (by decide)
      (.element (by decide) hContent (.space (by decide) .done)))
  have hOuter : joined ["x<A".toList] = some "x<A" := by decide
  have hText : joined [" ]] > ".toList, "z".toList, "y".toList] = some " ]] > zy" := by decide
  have hRead : IsDocument mixedDocument mixedTree := by
    rw [hOuter, hText] at hDocument
    refine Eq.mpr (congrArg (Content true · [] [mixedTree]) ?_) hDocument
    decide +kernel
  exact ⟨hRead, parse_eq_root hRead⟩

end Simgen.Markup
