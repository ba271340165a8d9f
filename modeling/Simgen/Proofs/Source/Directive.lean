import Simgen.Proofs.Source.Extent

/-! The texts of directives, and how far they reach. -/
namespace Simgen.Source

/-- Blanks within a line. -/
def IsGaps (gap : List Char) : Prop := ∀ c ∈ gap, isGap c = true

/-- The characters of a word. A name does not begin with a digit, but directives do not care. -/
def IsWord (word : List Char) : Prop := word ≠ [] ∧ ∀ c ∈ word, Text.continuesWord c = true

/-- The text that a name is defined as, or that a directive passes on. A comment may stand in
its place. -/
inductive TextTail : List Char → List Char → Prop where
  | comment {gap cs rest} : IsGaps gap → LineTail cs rest → TextTail (gap ++ '/' :: '/' :: cs) rest
  | replacement {gap cs rest} : IsGaps gap → (∀ c ∈ (cs ++ rest).head?, isGap c = false) →
      ¬ ['/', '/'] <+: cs ++ rest → ReplacementTail cs rest → TextTail (gap ++ cs) rest

/-- The parameters of a macro, if it has some. -/
inductive MacroParameters : List Char → List Char → Prop where
  | none {rest} : rest.head? ≠ some '(' → MacroParameters [] rest
  | some {names rest} : ')' ∉ names → '\n' ∉ names → MacroParameters ('(' :: names ++ [')']) rest

/-- Directives that end with their own name. -/
def bareDirectives : List String := ["else", "endif"]

/-- Directives that end with the name they are about. -/
def namingDirectives : List String := ["ifdef", "ifndef", "elifdef", "elifndef"]

/-- Directives in whose line quotes and comments are told apart. -/
def lineDirectives : List String := ["if", "elif", "include"]

/-- A directive behind its `#`. -/
inductive DirectiveText : List Char → List Char → Prop where
  | bare {gap rest name} : IsGaps gap → name ∈ bareDirectives → WordEnds rest →
      DirectiveText (gap ++ name.toList) rest
  | naming {gap between word rest name} : IsGaps gap → name ∈ namingDirectives → IsGaps between →
      between ≠ [] → IsWord word → WordEnds rest →
      DirectiveText (gap ++ name.toList ++ between ++ word) rest
  | line {gap tail rest name} : IsGaps gap → name ∈ lineDirectives → WordEnds (tail ++ rest) →
      DirectiveTail .plain tail rest → DirectiveText (gap ++ name.toList ++ tail) rest
  | define {gap between word parameters tail rest} : IsGaps gap → IsGaps between → between ≠ [] →
      IsWord word → WordEnds (parameters ++ tail ++ rest) →
      MacroParameters parameters (tail ++ rest) → TextTail tail rest →
      DirectiveText (gap ++ "define".toList ++ between ++ word ++ parameters ++ tail) rest
  | other {gap name tail rest} : IsGaps gap → IsWord name →
      String.ofList name ∉ bareDirectives ++ namingDirectives ++ lineDirectives ++ ["define"] →
      WordEnds (tail ++ rest) → TextTail tail rest → DirectiveText (gap ++ name ++ tail) rest

variable {gap word text tail rest cs : List Char} {c : Char}

theorem isGap_of_continuesWord (h : Text.continuesWord c = true) : isGap c = false := by
  have hSpace : Text.continuesWord ' ' = false := by decide
  have hTab : Text.continuesWord '\t' = false := by decide
  simp only [isGap, Bool.or_eq_false_iff, beq_eq_false_iff_ne]
  constructor
  · rintro rfl
    rw [hSpace] at h
    cases h
  · rintro rfl
    rw [hTab] at h
    cases h

theorem takeWhile_exact {p : Char → Bool} (hText : ∀ c ∈ text, p c = true)
    (hRest : ∀ c ∈ rest.head?, p c = false) : (text ++ rest).takeWhile p = text := by
  rw [List.takeWhile_append_of_pos hText]
  cases rest with
  | nil => simp
  | cons c cs => simp [hRest c rfl]

theorem dropWhile_exact {p : Char → Bool} (hText : ∀ c ∈ text, p c = true)
    (hRest : ∀ c ∈ rest.head?, p c = false) : (text ++ rest).dropWhile p = rest := by
  rw [List.dropWhile_append_of_pos hText]
  cases rest with
  | nil => simp
  | cons c cs => simp [hRest c rfl]

theorem IsWord.head?_not_gap (hWord : IsWord word) (rest : List Char) :
    ∀ c ∈ (word ++ rest).head?, isGap c = false := by
  obtain ⟨hNe, hAll⟩ := hWord
  cases word with
  | nil => exact absurd rfl hNe
  | cons d word =>
      rintro c hc
      cases hc
      exact isGap_of_continuesWord (hAll d List.mem_cons_self)

theorem nameLength_of_word (hGap : IsGaps gap) (hWord : IsWord word) (hRest : WordEnds rest) :
    nameLength (gap ++ (word ++ rest)) = gap.length + word.length := by
  have hTake := takeWhile_exact hGap (hWord.head?_not_gap rest)
  have hLength := wordLength_of_all hWord.2 hRest
  have hPos := List.length_pos_iff.mpr hWord.1
  simp only [nameLength, hTake, List.drop_left, hLength]
  split
  · omega
  · rfl

theorem directiveWord_of_word (hGap : IsGaps gap) (hWord : IsWord word) (hRest : WordEnds rest) :
    directiveWord (gap ++ (word ++ rest)) = word := by
  rw [directiveWord, dropWhile_exact hGap (hWord.head?_not_gap rest)]
  exact takeWhile_exact hWord.2 hRest.1

theorem textLength_of_tail (h : TextTail tail rest) : textLength (tail ++ rest) = tail.length := by
  cases h with
  | @comment gap cs rest hGap hLine =>
      have hTake : (gap ++ '/' :: '/' :: (cs ++ rest)).takeWhile isGap = gap :=
        takeWhile_exact hGap (by rintro c hc; cases hc; decide)
      simp only [List.append_assoc, List.cons_append, textLength, hTake, List.drop_left,
        lineLength_of_lineTail hLine, List.length_append, List.length_cons]
      omega
  | @replacement gap cs rest hGap hHead hComment hTail =>
      simp only [List.append_assoc, textLength, takeWhile_exact hGap hHead, List.drop_left]
      split
      next more hMore => exact absurd ⟨more, hMore.symm⟩ hComment
      next => rw [replacementLength_of_tail hTail, List.length_append]

theorem macroParametersLength_of (h : MacroParameters text rest) :
    macroParametersLength (text ++ rest) = text.length := by
  cases h with
  | none hRest =>
      unfold macroParametersLength
      split
      next cs hEq => exact absurd (congrArg List.head? hEq) hRest
      next => rfl
  | @some names rest hClose hEnd =>
      have hOther : ∀ c ∈ names, (c != '\n') = true := by
        intro c hc
        rw [bne_iff_ne]
        rintro rfl
        exact hEnd hc
      have hLine : (names ++ ')' :: rest).takeWhile (· != '\n') =
          names ++ ')' :: rest.takeWhile (· != '\n') := by
        rw [List.takeWhile_append_of_pos hOther]
        simp
      have hFirst : ¬ [] ++ [')'] <:+: names ++ [] := by
        rw [List.append_nil]
        exact fun hInfix => hClose (hInfix.subset List.mem_cons_self)
      have hThrough := lengthThrough_of_absent hFirst (rest.takeWhile (· != '\n'))
      simp only [List.append_nil, List.nil_append] at hThrough
      simp only [List.cons_append, List.append_assoc, List.nil_append, macroParametersLength, hLine,
        hThrough, List.length_cons, List.length_append, List.length_nil]
      omega

theorem drop_name (gap word rest : List Char) :
    (gap ++ (word ++ rest)).drop (gap.length + word.length) = rest := by
  rw [← List.append_assoc, ← List.length_append, List.drop_left]

theorem isWord_of_mem {name : String}
    (h : name ∈ bareDirectives ++ namingDirectives ++ lineDirectives ++ ["define"]) :
    IsWord name.toList := by
  have hAll : ∀ name ∈ bareDirectives ++ namingDirectives ++ lineDirectives ++ ["define"],
      name.toList ≠ [] ∧ name.toList.all Text.continuesWord = true := by
    decide
  exact ⟨(hAll name h).1, List.all_eq_true.mp (hAll name h).2⟩

theorem wordEnds_gap (hGap : IsGaps gap) (hNe : gap ≠ []) (rest : List Char) :
    WordEnds (gap ++ rest) := by
  cases gap with
  | nil => exact absurd rfl hNe
  | cons c gap =>
      have hc := hGap c List.mem_cons_self
      have hWord : Text.continuesWord c = false := by
        rw [Bool.eq_false_iff]
        intro hYes
        rw [isGap_of_continuesWord hYes] at hc
        cases hc
      have hSlash : c ≠ '\\' := by
        rintro rfl
        revert hc
        decide
      refine ⟨?_, ?_, ?_⟩
      · rintro d hd
        cases hd
        exact hWord
      · exact fun hPrefix => hSlash (List.cons_prefix_cons.mp hPrefix).1.symm
      · exact fun hPrefix => hSlash (List.cons_prefix_cons.mp hPrefix).1.symm

/-- A directive reaches as far as its text. -/
theorem directiveLength?_of_text (h : DirectiveText text rest) :
    directiveLength? (text ++ rest) = some text.length := by
  cases h with
  | @bare gap rest name hGap hName hRest =>
      have hWord : IsWord name.toList := isWord_of_mem (by simp [hName])
      simp only [List.append_assoc, directiveLength?, nameLength_of_word hGap hWord hRest,
        directiveWord_of_word hGap hWord hRest, String.ofList_toList, List.length_append]
      simp only [bareDirectives, List.mem_cons, List.not_mem_nil, or_false] at hName
      rcases hName with rfl | rfl <;> rfl
  | @naming gap between word rest name hGap hName hBetween hNe hWord hRest =>
      have hDirective : IsWord name.toList := isWord_of_mem (by simp [hName])
      have hEnds := wordEnds_gap hBetween hNe (word ++ rest)
      simp only [List.append_assoc, directiveLength?, nameLength_of_word hGap hDirective hEnds,
        directiveWord_of_word hGap hDirective hEnds, drop_name, String.ofList_toList,
        nameLength_of_word hBetween hWord hRest, List.length_append]
      simp only [namingDirectives, List.mem_cons, List.not_mem_nil, or_false] at hName
      rcases hName with rfl | rfl | rfl | rfl <;> simp only [Nat.add_assoc]
  | @line gap tail rest name hGap hName hEnds hTail =>
      have hDirective : IsWord name.toList := isWord_of_mem (by simp [hName])
      simp only [List.append_assoc, directiveLength?, nameLength_of_word hGap hDirective hEnds,
        directiveWord_of_word hGap hDirective hEnds, drop_name, String.ofList_toList,
        plainLength_of_tail hTail, List.length_append]
      simp only [lineDirectives, List.mem_cons, List.not_mem_nil, or_false] at hName
      rcases hName with rfl | rfl | rfl <;> simp only [Nat.add_assoc]
  | @define gap between word parameters tail rest hGap hBetween hNe hWord hEnds hParameters hTail =>
      have hDirective : IsWord "define".toList := isWord_of_mem (by simp)
      have hName := wordEnds_gap hBetween hNe (word ++ (parameters ++ (tail ++ rest)))
      rw [List.append_assoc parameters] at hEnds
      have hRest : (between ++ (word ++ (parameters ++ (tail ++ rest)))).drop
          (between.length + word.length + parameters.length) = tail ++ rest := by
        rw [← List.drop_drop, drop_name, List.drop_left]
      simp only [List.append_assoc, directiveLength?, nameLength_of_word hGap hDirective hName,
        directiveWord_of_word hGap hDirective hName, drop_name, String.ofList_toList,
        nameLength_of_word hBetween hWord hEnds, macroParametersLength_of hParameters, hRest,
        textLength_of_tail hTail, List.length_append]
      simp only [Nat.add_assoc]
  | @other gap name tail rest hGap hName hOther hEnds hTail =>
      simp only [List.append_assoc, directiveLength?, nameLength_of_word hGap hName hEnds,
        directiveWord_of_word hGap hName hEnds, drop_name, textLength_of_tail hTail,
        List.length_append]
      have hNe : String.ofList name ≠ "" := fun hEq => hName.1 (by simpa using hEq)
      split
      case h_1 hEq => exact absurd hEq hNe
      case h_12 => rw [Nat.add_assoc]
      all_goals
        rename_i hEq
        exact absurd (by rw [hEq]; decide) hOther

end Simgen.Source
