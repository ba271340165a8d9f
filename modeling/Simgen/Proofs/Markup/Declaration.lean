import Simgen.Proofs.Markup.Reader

/-! What the reader makes of comments, character data and processing instructions. None of them ends
before its own end mark, whatever stands in it. -/
namespace Simgen.Markup

/-- A `>` in what is enclosed by marks without one stands between the marks. -/
theorem exists_inner_of_split {left content right first second : List Char}
    (hLeft : '>' ∉ left) (hRight : '>' ∉ right)
    (h : left ++ content ++ right = first ++ '>' :: second) :
    ∃ inner outer, first = left ++ inner ∧ content = inner ++ '>' :: outer := by
  obtain ⟨inner, rfl, hInner⟩ : ∃ inner, first = left ++ inner ∧
      content ++ right = inner ++ '>' :: second := by
    rw [List.append_assoc, List.append_eq_append_iff] at h
    rcases h with ⟨inner, hFirst, hRest⟩ | ⟨more, hMore, hRest⟩
    · exact ⟨inner, hFirst, hRest⟩
    · cases more with
      | nil => exact ⟨[], by simpa using hMore.symm, by simpa using hRest.symm⟩
      | cons c more =>
          rw [List.cons_append] at hRest
          obtain ⟨rfl, -⟩ := List.cons.inj hRest
          exact absurd (by simp [hMore]) hLeft
  rcases List.append_eq_append_iff.mp hInner with ⟨more, -, hMore⟩ | ⟨outer, hContent, hRest⟩
  · exact absurd (by simp [hMore]) hRight
  · cases outer with
    | nil => exact absurd (by simp [← List.nil_append right ▸ hRest]) hRight
    | cons c outer =>
        rw [List.cons_append] at hRest
        obtain ⟨rfl, -⟩ := List.cons.inj hRest
        exact ⟨inner, outer, rfl, hContent⟩

/-- Where a doubled mark before a `>` is kept out, the mark does not stand twice before a `>`. -/
theorem isPrefixOf_reverse_eq_false {mark : Char} {inner outer : List Char}
    (h : ¬ [mark, mark, '>'] <:+: inner ++ '>' :: outer) :
    [mark, mark].isPrefixOf inner.reverse = false := by
  refine Bool.eq_false_iff.mpr fun hMarks => h ?_
  obtain ⟨before, hBefore⟩ := List.isPrefixOf_iff_prefix.mp hMarks
  have hInner : inner = before.reverse ++ [mark, mark] := by
    rw [← List.reverse_reverse inner, ← hBefore]
    simp
  exact ⟨before.reverse, outer, by simp [hInner]⟩

/-- A comment is not cut before its end. The hyphens that open it do not close it: too little
stands before a `>` that follows them, with or without one more hyphen. -/
theorem cutAt_comment {content : List Char} (hContent : ¬ ['-', '-', '>'] <:+: content)
    (rest : List Char) :
    cutAt endsComment [] (['!', '-', '-'] ++ content ++ ['-', '-'] ++ '>' :: rest) =
      some (['!', '-', '-'] ++ content ++ ['-', '-'], rest) := by
  refine cutAt_of_ends [] ?_ fun first second hSplit => ?_
  · have hLong := Text.length_le_byteLength (['!', '-', '-'] ++ content ++ ['-', '-']).reverse
    simp only [List.length_reverse, List.length_append, List.length_cons, List.length_nil] at hLong
    rw [List.append_nil, endsComment, Bool.and_eq_true, decide_eq_true_eq]
    exact ⟨by omega, by simp [List.isPrefixOf]⟩
  · obtain ⟨inner, outer, rfl, rfl⟩ := exists_inner_of_split (by decide) (by decide) hSplit
    have hMarks := isPrefixOf_reverse_eq_false hContent
    rw [List.append_nil, List.reverse_append, endsComment, Bool.and_eq_false_iff]
    generalize inner.reverse = behind at hMarks ⊢
    rcases behind with _ | ⟨c, _ | ⟨d, before⟩⟩
    · exact Or.inl (by decide)
    · by_cases hc : c = '-'
      · subst hc
        exact Or.inl (by decide)
      · exact Or.inr (by simp [List.isPrefixOf, Ne.symm hc])
    · exact Or.inr (by simpa [List.isPrefixOf] using hMarks)

/-- Character data is not cut before its end; the bracket that opens it does not close it. -/
theorem cutAt_characterData {content : List Char} (hContent : ¬ [']', ']', '>'] <:+: content)
    (rest : List Char) :
    cutAt endsCharacterData [] ("![CDATA[".toList ++ content ++ [']', ']'] ++ '>' :: rest) =
      some ("![CDATA[".toList ++ content ++ [']', ']'], rest) := by
  refine cutAt_of_ends [] ?_ fun first second hSplit => ?_
  · simp [endsCharacterData, List.isPrefixOf]
  · obtain ⟨inner, outer, rfl, rfl⟩ := exists_inner_of_split (by decide) (by decide) hSplit
    have hMarks := isPrefixOf_reverse_eq_false hContent
    rw [List.append_nil, List.reverse_append, endsCharacterData]
    generalize inner.reverse = behind at hMarks ⊢
    rcases behind with _ | ⟨c, _ | ⟨d, before⟩⟩
    · decide
    · simp [List.isPrefixOf]
    · simpa [List.isPrefixOf] using hMarks

namespace Reader

variable {content rest : List Char} {offset : Nat} {opened : List String}

theorem step_comment (hContent : ¬ ['-', '-', '>'] <:+: content) :
    ∃ behind, step ⟨"<!--".toList ++ content ++ "-->".toList ++ rest, offset, opened⟩ =
      .token .skipped ⟨rest, behind, opened⟩ := by
  have hText : "<!--".toList ++ content ++ "-->".toList ++ rest =
      '<' :: (['!', '-', '-'] ++ content ++ ['-', '-'] ++ '>' :: rest) := by simp
  have hMarkup : markup ⟨['!', '-', '-'] ++ content ++ ['-', '-'] ++ '>' :: rest, offset + 1,
      opened⟩ = bang ⟨['!', '-', '-'] ++ content ++ ['-', '-'] ++ '>' :: rest, offset + 1,
        opened⟩ "Comment" endsComment acceptComment := rfl
  have hAccept : acceptComment (['!', '-', '-'] ++ content ++ ['-', '-']) = .ok .skipped := rfl
  rw [hText, step_of_lt, hMarkup, bang, cutAt_comment hContent]
  simp only [hAccept]
  exact ⟨_, rfl⟩

theorem step_characterData (hContent : ¬ [']', ']', '>'] <:+: content) :
    ∃ behind, step ⟨"<![CDATA[".toList ++ content ++ "]]>".toList ++ rest, offset, opened⟩ =
      .token (.characterData content) ⟨rest, behind, opened⟩ := by
  have hText : "<![CDATA[".toList ++ content ++ "]]>".toList ++ rest =
      '<' :: ("![CDATA[".toList ++ content ++ [']', ']'] ++ '>' :: rest) := by simp
  have hMarkup : markup ⟨"![CDATA[".toList ++ content ++ [']', ']'] ++ '>' :: rest, offset + 1,
      opened⟩ = bang ⟨"![CDATA[".toList ++ content ++ [']', ']'] ++ '>' :: rest, offset + 1,
        opened⟩ "CData" endsCharacterData acceptCharacterData := rfl
  have hStart : startsWithUncased ("![CDATA[".toList ++ content ++ [']', ']'])
      "![CDATA[".toList = true := by
    rw [startsWithUncased, List.append_assoc, List.take_left, beq_self_eq_true]
  have hAccept : acceptCharacterData ("![CDATA[".toList ++ content ++ [']', ']']) =
      .ok (.characterData content) := by
    rw [acceptCharacterData, if_pos hStart, List.append_assoc, List.drop_left' (by decide),
      List.take_left' (by simp)]
  rw [hText, step_of_lt, hMarkup, bang, cutAt_characterData hContent]
  simp only [hAccept]
  exact ⟨_, rfl⟩

theorem step_instruction (hNil : content ≠ []) (hContent : '>' ∉ content) :
    ∃ behind, step ⟨"<?".toList ++ content ++ "?>".toList ++ rest, offset, opened⟩ =
      .token .skipped ⟨rest, behind, opened⟩ := by
  have hText : "<?".toList ++ content ++ "?>".toList ++ rest =
      '<' :: ('?' :: content ++ ['?'] ++ '>' :: rest) := by simp
  have hMarkup : markup ⟨'?' :: content ++ ['?'] ++ '>' :: rest, offset + 1, opened⟩ =
      instruction ⟨'?' :: content ++ ['?'] ++ '>' :: rest, offset + 1, opened⟩ := rfl
  have hCut : cutAt (fun _ => true) [] ('?' :: content ++ ['?'] ++ '>' :: rest) =
      some ('?' :: content ++ ['?'], rest) := cutAt_first [] (by simp [hContent])
  have hLong := Text.length_le_byteLength ('?' :: content ++ ['?'])
  have hPos := List.length_pos_iff.mpr hNil
  have hBytes : 2 < Text.byteLength ('?' :: content ++ ['?']) := by
    simp only [List.cons_append, List.length_cons, List.length_append, List.length_nil] at hLong ⊢
    omega
  rw [hText, step_of_lt, hMarkup, instruction, piece]
  simp only [hCut]
  rw [if_pos]
  · exact ⟨_, rfl⟩
  · rw [Bool.and_eq_true, decide_eq_true_eq]
    exact ⟨hBytes, by simp [List.getLast?_cons]⟩

end Reader

end Simgen.Markup
