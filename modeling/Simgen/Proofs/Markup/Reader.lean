import Simgen.Markup.Reader
import Simgen.Proofs.Markup.Escape
import Simgen.Proofs.Text.Blank

/-! What the reader makes of a tag and of a piece of text. What comes behind them does not
matter, except that a piece of text must be followed by markup. -/
namespace Simgen.Markup

/-- Quotes, and the characters that tags begin or end with. -/
def delimiters : List Char := ['\'', '"', '<', '>', '/', '!', '?']

/-- Characters that may stand in a tag name. -/
def isTagChar (c : Char) : Bool := !isClosingSpace c && !delimiters.contains c

structure IsTag (tag : String) : Prop where
  ne_empty : tag ≠ ""
  plain : ∀ c ∈ tag.toList, isTagChar c = true

instance (tag : String) : Decidable (IsTag tag) :=
  decidable_of_iff (tag ≠ "" ∧ tag.toList.all isTagChar = true)
    ⟨fun h => ⟨h.1, List.all_eq_true.mp h.2⟩, fun h => ⟨h.ne_empty, List.all_eq_true.mpr h.plain⟩⟩

theorem not_isTagChar {c : Char} (h : c ∈ delimiters) :
    isTagChar c = false := by
  simp [isTagChar, List.contains_eq_mem, h]

namespace IsTag

variable {tag : String} (h : IsTag tag)

include h

theorem not_mem {c : Char} (hc : c ∈ delimiters) : c ∉ tag.toList := by
  intro hIn
  have hPlain := h.plain c hIn
  rw [not_isTagChar hc] at hPlain
  cases hPlain

theorem not_isClosingSpace {c : Char} (hc : c ∈ tag.toList) : isClosingSpace c = false := by
  have hPlain := h.plain c hc
  rw [isTagChar, Bool.and_eq_true] at hPlain
  simpa using hPlain.1

theorem not_isSpace {c : Char} (hc : c ∈ tag.toList) : isSpace c = false := by
  have hClosing := h.not_isClosingSpace hc
  rw [isClosingSpace, Bool.or_eq_false_iff] at hClosing
  exact hClosing.1

theorem toList_ne_nil : tag.toList ≠ [] := fun hNil =>
  h.ne_empty (String.toList_injective (by simpa using hNil))

end IsTag

theorem cutTag_of_plain {content rest : List Char} (before : List Char)
    (hPlain : ∀ c ∈ content, c ≠ '\'' ∧ c ≠ '"' ∧ c ≠ '>') :
    cutTag none before (content ++ '>' :: rest) = some (before.reverse ++ content, rest) := by
  induction content generalizing before with
  | nil => simp [cutTag]
  | cons c content ih =>
      obtain ⟨⟨hSingle, hDouble, hEnd⟩, hRest⟩ := List.forall_mem_cons.mp hPlain
      rw [List.cons_append, cutTag]
      simp only [hSingle, hDouble, hEnd, if_false, decide_false, Bool.or_self, Bool.false_eq_true]
      rw [ih (c :: before) hRest]
      simp

/-- The cut is made at the first `>` that ends the construct. -/
theorem cutAt_of_ends {ends : List Char → Bool} {content rest : List Char} (before : List Char)
    (hEnds : ends (content.reverse ++ before) = true)
    (hInner : ∀ first second, content = first ++ '>' :: second →
      ends (first.reverse ++ before) = false) :
    cutAt ends before (content ++ '>' :: rest) = some (before.reverse ++ content, rest) := by
  induction content generalizing before with
  | nil =>
      have hHere : ends before = true := hEnds
      simp [cutAt, hHere]
  | cons c content ih =>
      have hGoOn : ¬ (decide (c = '>') && ends before) = true := by
        intro hStop
        rw [Bool.and_eq_true, decide_eq_true_eq] at hStop
        obtain ⟨rfl, hHere⟩ := hStop
        have hNot : ends before = false := hInner [] content rfl
        rw [hHere] at hNot
        cases hNot
      have hBehind : ∀ cs : List Char, (c :: cs).reverse ++ before = cs.reverse ++ c :: before := by
        simp
      rw [List.cons_append, cutAt, if_neg hGoOn, ih (c :: before)]
      · simp
      · rwa [← hBehind]
      · intro first second hSplit
        rw [← hBehind]
        exact hInner (c :: first) second (by rw [hSplit, List.cons_append])

theorem cutAt_first {content rest : List Char} (before : List Char) (hEnd : '>' ∉ content) :
    cutAt (fun _ => true) before (content ++ '>' :: rest) =
      some (before.reverse ++ content, rest) := by
  refine cutAt_of_ends before rfl fun first second hSplit => ?_
  exact absurd (by simp [hSplit]) hEnd

/-- Text that stands between two pieces of markup, in its escaped form. -/
structure IsPiece (raw : List Char) : Prop where
  ne_nil : raw ≠ []
  no_lt : '<' ∉ raw
  head : ∀ c ∈ raw.head?, isSpace c = false
  last : ∀ c ∈ raw.getLast?, isSpace c = false

theorem isPiece_escape {cs : List Char} (hNil : cs ≠ []) (hHead : ∀ c ∈ cs.head?, isSpace c = false)
    (hLast : ∀ c ∈ cs.getLast?, isSpace c = false) : IsPiece (escape cs) := by
  obtain ⟨first, others, hFirst⟩ := List.exists_cons_of_ne_nil hNil
  obtain ⟨start, last, hEnd⟩ := (List.eq_nil_or_concat cs).resolve_left hNil
  have hStart : (escape cs).head? = (escape [first]).head? := by
    rw [hFirst, escape_cons, List.head?_append]
    rcases (ends_escape_char first).1 with h | h <;> rw [h, Option.some_or]
  have hStop : (escape cs).getLast? = (escape [last]).getLast? := by
    rw [hEnd, List.concat_eq_append, escape_append, List.getLast?_append]
    rcases (ends_escape_char last).2 with h | h <;> rw [h, Option.some_or]
  refine ⟨?_, lt_not_mem_escape cs, ?_, ?_⟩
  · intro hEmpty
    rw [hEmpty] at hStart
    rcases (ends_escape_char first).1 with h | h <;> rw [h] at hStart <;> cases hStart
  · rw [hStart]
    rcases (ends_escape_char first).1 with h | h <;> rw [h]
    · rintro c ⟨⟩
      exact hHead first (by simp [hFirst])
    · rintro c ⟨⟩
      rfl
  · rw [hStop]
    rcases (ends_escape_char last).2 with h | h <;> rw [h]
    · rintro c ⟨⟩
      exact hLast last (by simp [hEnd])
    · rintro c ⟨⟩
      rfl

theorem utf8Size_of_isSpace {c : Char} (hc : isSpace c = true) : c.utf8Size = 1 := by
  simp only [isSpace, Bool.or_eq_true, beq_iff_eq] at hc
  rcases hc with ((rfl | rfl) | rfl) | rfl <;> rfl

theorem byteLength_space {gap : List Char} (hGap : ∀ c ∈ gap, isSpace c = true) :
    Text.byteLength gap = gap.length := by
  induction gap with
  | nil => rfl
  | cons c gap ih =>
      obtain ⟨hc, hRest⟩ := List.forall_mem_cons.mp hGap
      rw [Text.byteLength_cons, utf8Size_of_isSpace hc, ih hRest, List.length_cons, Nat.add_comm]

namespace Reader

theorem skipSpace_of_head {r : Reader} {c : Char} {cs : List Char} (hRest : r.rest = c :: cs)
    (hc : isSpace c = false) : r.skipSpace = r := by
  obtain ⟨rest, offset, opened⟩ := r
  cases hRest
  simp [skipSpace, past, hc, Text.byteLength]

theorem step_of_lt {rest : List Char} {offset : Nat} {opened : List String} :
    step ⟨'<' :: rest, offset, opened⟩ = markup ⟨rest, offset + 1, opened⟩ := by
  have hSkip : (Reader.mk ('<' :: rest) offset opened).skipSpace = ⟨'<' :: rest, offset, opened⟩ :=
    skipSpace_of_head rfl rfl
  rw [step]
  simp only [hSkip]
  rfl

theorem step_of_plain {r : Reader} {c : Char} {cs : List Char} (hRest : r.rest = c :: cs)
    (hSpace : isSpace c = false) (hLt : c ≠ '<') : r.step = r.textPiece := by
  unfold step
  simp only [skipSpace_of_head hRest hSpace, hRest]
  split
  next hNil => cases hNil
  next hCons => exact absurd (List.cons.inj hCons).1 hLt
  next => rfl

theorem markup_of_plain {r : Reader} {c : Char} {cs : List Char} (hRest : r.rest = c :: cs)
    (hBang : c ≠ '!') (hSlash : c ≠ '/') (hQuestion : c ≠ '?') : r.markup = r.tag := by
  unfold markup
  rw [hRest]
  split
  next hNil => cases hNil
  next hCons => exact absurd (List.cons.inj hCons).1 hBang
  next hCons => exact absurd (List.cons.inj hCons).1 hSlash
  next hCons => exact absurd (List.cons.inj hCons).1 hQuestion
  next => rfl

variable {tag : String} {rest : List Char} {offset : Nat} {opened : List String}

theorem step_of_isTag (hTag : IsTag tag) :
    step ⟨'<' :: (tag.toList ++ rest), offset, opened⟩ =
      Reader.tag ⟨tag.toList ++ rest, offset + 1, opened⟩ := by
  obtain ⟨first, others, hFirst⟩ := List.exists_cons_of_ne_nil hTag.toList_ne_nil
  have hIn : first ∈ tag.toList := by simp [hFirst]
  have hRest : tag.toList ++ rest = first :: (others ++ rest) := by simp [hFirst]
  rw [step_of_lt]
  refine markup_of_plain hRest ?_ ?_ ?_
  · rintro rfl; exact hTag.not_mem (by decide) hIn
  · rintro rfl; exact hTag.not_mem (by decide) hIn
  · rintro rfl; exact hTag.not_mem (by decide) hIn

/-- A tag without attributes is cut at its end, and all of it is its name. -/
theorem cutTag_name (hTag : IsTag tag) (content rest : List Char)
    (hContent : ∀ c ∈ content, c ∈ tag.toList ∨ c = '/') :
    cutTag none [] (content ++ '>' :: rest) = some (content, rest) ∧
      content.takeWhile (fun c => !isSpace c) = content := by
  constructor
  · refine cutTag_of_plain [] fun c hc => ?_
    rcases hContent c hc with hc | rfl
    · refine ⟨?_, ?_, ?_⟩
      · rintro rfl; exact hTag.not_mem (by decide) hc
      · rintro rfl; exact hTag.not_mem (by decide) hc
      · rintro rfl; exact hTag.not_mem (by decide) hc
    · decide
  · have hAll : ∀ c ∈ content, (!isSpace c) = true := by
      intro c hc
      rcases hContent c hc with hc | rfl
      · simp [hTag.not_isSpace hc]
      · rfl
    have hEnd : (content ++ []).takeWhile (fun c => !isSpace c) = content ++ [].takeWhile _ :=
      List.takeWhile_append_of_pos hAll
    simpa using hEnd

/-- An opening tag opens an element of its name. -/
theorem step_opening (hTag : IsTag tag) :
    ∃ behind, step ⟨'<' :: tag.toList ++ '>' :: rest, offset, opened⟩ =
      .token (.opening tag) ⟨rest, behind, tag :: opened⟩ := by
  obtain ⟨hCut, hName⟩ := cutTag_name hTag tag.toList rest fun c hc => Or.inl hc
  have hLast : tag.toList.getLast? ≠ some '/' := fun hSlash =>
    hTag.not_mem (by decide) (List.mem_of_getLast? hSlash)
  rw [List.cons_append, step_of_isTag hTag, Reader.tag]
  simp only [hCut, hName, if_neg hLast, String.ofList_toList]
  exact ⟨_, rfl⟩

/-- A tag that ends in a slash is a whole element, which opens nothing. -/
theorem step_empty (hTag : IsTag tag) :
    ∃ behind, step ⟨'<' :: tag.toList ++ '/' :: '>' :: rest, offset, opened⟩ =
      .token (.empty tag) ⟨rest, behind, opened⟩ := by
  have hText : '<' :: tag.toList ++ '/' :: '>' :: rest =
      '<' :: (tag.toList ++ ('/' :: '>' :: rest)) := rfl
  obtain ⟨hCut, hName⟩ := cutTag_name hTag (tag.toList ++ ['/']) rest (by simp)
  rw [List.append_assoc, List.singleton_append] at hCut
  rw [hText, step_of_isTag hTag, Reader.tag]
  simp only [hCut, hName, List.getLast?_append, List.getLast?_singleton, Option.some_or, if_true,
    Nat.lt_irrefl, if_false, List.dropLast_concat, String.ofList_toList]
  exact ⟨_, rfl⟩

/-- A closing tag closes the innermost element, if that has its name. -/
theorem step_closing (hTag : IsTag tag) :
    ∃ behind, step ⟨'<' :: '/' :: tag.toList ++ '>' :: rest, offset, tag :: opened⟩ =
      .token .closing ⟨rest, behind, opened⟩ := by
  have hCut : cutAt (fun _ => true) [] (('/' :: tag.toList) ++ '>' :: rest) =
      some ('/' :: tag.toList, rest) := by
    refine cutAt_first [] ?_
    rw [List.mem_cons, not_or]
    exact ⟨by decide, hTag.not_mem (by decide)⟩
  have hName : closingName tag.toList = tag.toList := by
    have hDrop : Text.dropEndWhile isClosingSpace tag.toList = tag.toList :=
      Text.dropEndWhile_eq_self_iff.mpr fun c hc =>
        hTag.not_isClosingSpace (List.mem_of_getLast? hc)
    rw [closingName, hDrop]
    split
    next hNil => exact absurd hNil hTag.toList_ne_nil
    next => rfl
  rw [List.cons_append, step_of_lt]
  simp only [List.cons_append, markup, closingTag, piece] at hCut ⊢
  simp only [hCut, List.drop_succ_cons, List.drop_zero, hName, String.ofList_toList, if_true]
  exact ⟨_, rfl⟩

theorem step_space {c : Char} (hc : isSpace c = true) :
    step ⟨c :: rest, offset, opened⟩ = step ⟨rest, offset + 1, opened⟩ := by
  have hSkip : skipSpace ⟨c :: rest, offset, opened⟩ = skipSpace ⟨rest, offset + 1, opened⟩ := by
    simp [skipSpace, past, hc, Text.byteLength_cons, utf8Size_of_isSpace hc, Nat.add_assoc]
  rw [step, step, hSkip]

/-- A piece of text is read up to the markup behind it, or to the end of the document. White
space between the two is left out. -/
theorem step_piece {raw gap rest : List Char} (hRaw : IsPiece raw)
    (hGap : ∀ c ∈ gap, isSpace c = true) (hRest : ∀ c ∈ rest.head?, c = '<') (offset : Nat)
    (opened : List String) :
    ∃ behind, step ⟨raw ++ gap ++ rest, offset, opened⟩ =
      .token (.text raw) ⟨rest, behind + gap.length, opened⟩ := by
  obtain ⟨first, others, rfl⟩ := List.exists_cons_of_ne_nil hRaw.ne_nil
  have hFirst : first ≠ '<' := fun hLt => hRaw.no_lt (by simp [hLt])
  have hAll : ∀ c ∈ first :: others ++ gap, decide (c ≠ '<') = true := by
    intro c hc
    rw [decide_eq_true_eq]
    rintro rfl
    rcases List.mem_append.mp hc with hc | hc
    · exact hRaw.no_lt hc
    · exact absurd (hGap _ hc) (by decide)
  have hStop : rest.takeWhile (· ≠ '<') = [] ∧ rest.dropWhile (· ≠ '<') = rest := by
    cases rest with
    | nil => exact ⟨rfl, rfl⟩
    | cons c rest =>
        obtain rfl := hRest c rfl
        exact ⟨rfl, rfl⟩
  have hTake : (first :: others ++ gap ++ rest).takeWhile (· ≠ '<') = first :: others ++ gap := by
    rw [List.takeWhile_append_of_pos hAll, hStop.1, List.append_nil]
  have hDrop : (first :: others ++ gap ++ rest).dropWhile (· ≠ '<') = rest := by
    rw [List.dropWhile_append_of_pos hAll, hStop.2]
  have hTrim : Text.dropEndWhile isSpace (first :: others ++ gap) = first :: others :=
    Text.dropEndWhile_append hGap hRaw.last
  have hBytes : Text.byteLength (first :: others ++ gap) =
      Text.byteLength (first :: others) + gap.length := by
    rw [Text.byteLength_append, byteLength_space hGap]
  rw [step_of_plain rfl (hRaw.head first rfl) hFirst, textPiece]
  simp only [hTake, hDrop, hTrim, past, hBytes]
  exact ⟨_, by rw [← Nat.add_assoc]⟩

/-- A piece of text is read up to the markup behind it. -/
theorem step_text {raw : List Char} (hRaw : IsPiece raw) :
    ∃ behind, step ⟨raw ++ '<' :: rest, offset, opened⟩ =
      .token (.text raw) ⟨'<' :: rest, behind, opened⟩ := by
  have hMarkup : ∀ c ∈ ('<' :: rest).head?, c = '<' := by simp
  have hPiece := step_piece hRaw (List.forall_mem_nil _) hMarkup offset opened
  rwa [List.append_nil] at hPiece

end Reader

end Simgen.Markup
