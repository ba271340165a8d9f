import Mathlib.Data.List.Induction
import Mathlib.Data.List.TakeWhile
import Simgen.Proofs.Source.Lexing

/-! The tokens of a source text: what is left of its lexemes without blanks and comments. Lines
that a backslash joins are joined before. A text stands alone if the tokens of what follows do not
depend on it. Block comments do, as long as their end stands nowhere inside; so do lines in which
nothing opens a literal, a comment or a directive. -/
namespace Simgen.Source

/-- A text without the backslashes right before line ends and without these line ends. -/
def joinLines : List Char → List Char
  | '\\' :: '\n' :: cs => joinLines cs
  | '\\' :: '\r' :: '\n' :: cs => joinLines cs
  | c :: cs => c :: joinLines cs
  | [] => []

def Lexeme.isToken (l : Lexeme) : Bool := l.kind != .blank && l.kind != .comment

/-- The lexemes that count. -/
def significant (cs : List Char) : List Lexeme := (scan cs).filter Lexeme.isToken

/-- The tokens of a text. -/
def tokens (text : List Char) : List Lexeme := significant (joinLines text)

/-- Whatever follows the text, its tokens are the same. -/
def StandsAlone (text : List Char) : Prop :=
  ∀ rest, tokens (text ++ rest) = tokens text ++ tokens rest

/-- The text adds no token, whatever follows it. -/
def Silent (text : List Char) : Prop := ∀ rest, tokens (text ++ rest) = tokens rest

/-- The end of a block comment stands in the text once its lines are joined. -/
def Closes (text : List Char) : Prop := ['*', '/'] <:+: joinLines text

instance (text : List Char) : Decidable (Closes text) :=
  inferInstanceAs (Decidable (['*', '/'] <:+: joinLines text))

/-- Characters that neither open a literal, a comment or a directive nor join lines. -/
def isInert (c : Char) : Bool := !(['"', '\'', '/', '\\', '#'].contains c)

/-- A character that may stand in the quoted name of a header. -/
def isHeaderChar (c : Char) : Bool := !(['"', '\\', '\n'].contains c)

section joining

variable {c : Char} {cs text rest : List Char}

theorem joinLines_cons (h : ¬ JoinsLines c cs) : joinLines (c :: cs) = c :: joinLines cs := by
  rw [joinLines]
  · exact not_feed_of_not_joins h
  · exact not_return_of_not_joins h

theorem joinLines_of_ne (h : c ≠ '\\') : joinLines (c :: cs) = c :: joinLines cs :=
  joinLines_cons (not_joins_of_ne h)

theorem joinLines_append_of_not_mem (h : '\\' ∉ text) (rest : List Char) :
    joinLines (text ++ rest) = text ++ joinLines rest := by
  induction text with
  | nil => rfl
  | cons c text ih =>
      rw [List.mem_cons, not_or] at h
      rw [List.cons_append, joinLines_of_ne (Ne.symm h.1), ih h.2, List.cons_append]

/-- Lines that are joined where two texts meet: the first text ends with the backslash, or with a
return behind it. -/
theorem joinsLines_append (h : JoinsLines c (cs ++ rest)) :
    JoinsLines c cs ∨ c = '\\' ∧ cs ∈ [[], ['\r']] ∧ JoinsLines '\\' rest := by
  obtain ⟨rfl, hEnd⟩ := h
  match cs, hEnd with
  | [], hEnd => exact Or.inr ⟨rfl, by decide, rfl, hEnd⟩
  | d :: ds, .inl hFeed => exact Or.inl ⟨rfl, Or.inl hFeed⟩
  | [d], .inr hReturn =>
      obtain ⟨rfl, tail, rfl⟩ := List.cons_prefix_cons.mp hReturn
      exact Or.inr ⟨rfl, by decide, rfl, Or.inl rfl⟩
  | d :: e :: es, .inr hReturn =>
      obtain ⟨rfl, hFeed⟩ := List.cons_prefix_cons.mp hReturn
      obtain ⟨rfl, -⟩ := List.cons_prefix_cons.mp hFeed
      exact Or.inl ⟨rfl, Or.inr ⟨es, rfl⟩⟩

theorem not_joins_of_patterns (hFeed : ∀ tail, c = '\\' → cs = '\n' :: tail → False)
    (hReturn : ∀ tail, c = '\\' → cs = '\r' :: '\n' :: tail → False) : ¬ JoinsLines c cs := by
  rintro ⟨rfl, hEnd | ⟨tail, rfl⟩⟩
  · obtain ⟨tail, rfl⟩ := List.head?_eq_some_iff.mp hEnd
    exact hFeed tail rfl rfl
  · exact hReturn tail rfl rfl

/-- Only a line end can be joined with what stands before. -/
theorem joinLines_append (text : List Char) (hRest : ¬ JoinsLines '\\' rest) :
    joinLines (text ++ rest) = joinLines text ++ joinLines rest := by
  fun_induction joinLines text with
  | case1 cs ih => rw [List.cons_append, List.cons_append, joinLines, ih]
  | case2 cs ih => rw [List.cons_append, List.cons_append, List.cons_append, joinLines, ih]
  | case3 c cs hFeed hReturn ih =>
      have hJoin : ¬ JoinsLines c (cs ++ rest) := by
        intro hJoins
        rcases joinsLines_append hJoins with hInside | ⟨-, -, hEnd⟩
        · exact not_joins_of_patterns hFeed hReturn hInside
        · exact hRest hEnd
      rw [List.cons_append, joinLines_cons hJoin, ih, List.cons_append]
  | case4 => rfl

/-- A line feed behind a text joins at most the backslash there, and a return behind it. -/
theorem joinLines_lineFeed (text : List Char) :
    joinLines (text ++ ['\n']) = joinLines text ++ ['\n'] ∨
      ∃ joined, '/' ∉ joined ∧ joinLines text = joinLines (text ++ ['\n']) ++ joined := by
  fun_induction joinLines text with
  | case1 cs ih => rwa [List.cons_append, List.cons_append, joinLines]
  | case2 cs ih => rwa [List.cons_append, List.cons_append, List.cons_append, joinLines]
  | case3 c cs hFeed hReturn ih =>
      by_cases hJoin : JoinsLines c (cs ++ ['\n'])
      · rcases joinsLines_append hJoin with hInside | ⟨rfl, hShort, -⟩
        · exact absurd hInside (not_joins_of_patterns hFeed hReturn)
        · simp only [List.mem_cons, List.not_mem_nil, or_false] at hShort
          rcases hShort with rfl | rfl
          · exact Or.inr ⟨['\\'], by decide, rfl⟩
          · exact Or.inr ⟨['\\', '\r'], by decide, rfl⟩
      · rw [List.cons_append, joinLines_cons hJoin]
        rcases ih with hKept | ⟨joined, hSlash, hEq⟩
        · exact Or.inl (by rw [hKept, List.cons_append])
        · exact Or.inr ⟨joined, hSlash, by rw [hEq, List.cons_append]⟩
  | case4 => exact Or.inl rfl

end joining

section closing

variable {text front back : List Char}

/-- No end of a comment reaches into a text without slashes. -/
theorem infix_append_iff_of_not_mem (h : '/' ∉ back) :
    ['*', '/'] <:+: front ++ back ↔ ['*', '/'] <:+: front := by
  induction back using List.reverseRecOn with
  | nil => rw [List.append_nil]
  | append_singleton back c ih =>
      rw [List.mem_append, not_or, List.mem_singleton] at h
      have hLast : ¬ ['*', '/'] <:+ front ++ back ++ [c] := by
        intro hSuffix
        apply h.2
        simpa using hSuffix.getLast (by simp)
      rw [← List.append_assoc, List.infix_concat_iff, ih h.1]
      exact or_iff_right hLast

/-- No end of a comment reaches across a blank. -/
theorem infix_append_space_iff (front back : List Char) :
    ['*', '/'] <:+: front ++ ' ' :: back ↔ ['*', '/'] <:+: front ∨ ['*', '/'] <:+: back := by
  induction front with
  | nil => simp [List.infix_cons_iff]
  | cons c front ih =>
      have hPrefix : ['*', '/'] <+: c :: (front ++ ' ' :: back) ↔ ['*', '/'] <+: c :: front := by
        cases front <;> simp
      rw [List.cons_append, List.infix_cons_iff, ih, hPrefix, ← or_assoc, ← List.infix_cons_iff]

theorem closes_concat {c : Char} (h : c ≠ '/') : Closes (text ++ [c]) ↔ Closes text := by
  have hSlash : '/' ∉ [c] := by simpa using Ne.symm h
  unfold Closes
  by_cases hFeed : c = '\n'
  · subst hFeed
    rcases joinLines_lineFeed text with hKept | ⟨joined, hJoined, hEq⟩
    · rw [hKept, infix_append_iff_of_not_mem hSlash]
    · rw [hEq, infix_append_iff_of_not_mem hJoined]
  · have hJoin : ¬ JoinsLines '\\' [c] := by
      rintro ⟨-, hEnd | hEnd⟩
      · exact hFeed (Option.some.inj hEnd)
      · simpa using hEnd.length_le
    have hSelf : joinLines [c] = [c] := by
      rw [joinLines_cons (by simp [JoinsLines])]
      rfl
    rw [joinLines_append text hJoin, hSelf, infix_append_iff_of_not_mem hSlash]

/-- What stands behind the last slash does not matter. -/
theorem closes_append_of_not_mem (h : '/' ∉ back) : Closes (text ++ back) ↔ Closes text := by
  induction back using List.reverseRecOn with
  | nil => rw [List.append_nil]
  | append_singleton back c ih =>
      rw [List.mem_append, not_or, List.mem_singleton] at h
      rw [← List.append_assoc, closes_concat (Ne.symm h.2), ih h.1]

theorem not_closes_of_not_mem (h : '/' ∉ text) : ¬ Closes text := by
  rw [← List.nil_append text, closes_append_of_not_mem h]
  decide

theorem joinLines_append_space (front back : List Char) :
    joinLines (front ++ ' ' :: back) = joinLines front ++ ' ' :: joinLines back := by
  rw [joinLines_append front (by simp [JoinsLines]), joinLines_of_ne (by decide)]

/-- A blank parts a text into two that can each hold the end of a comment. -/
theorem closes_append_space (front back : List Char) :
    Closes (front ++ ' ' :: back) ↔ Closes front ∨ Closes back := by
  unfold Closes
  rw [joinLines_append_space, infix_append_space_iff]

end closing

section tokens

variable {c : Char} {cs text rest : List Char}

theorem significant_nil : significant [] = [] := by
  rw [significant, scan.eq_def, List.filter_nil]

theorem tokens_nil : tokens [] = [] := significant_nil

theorem StandsAlone.nil : StandsAlone [] := by
  intro rest
  rw [tokens_nil, List.nil_append, List.nil_append]

theorem StandsAlone.append {front back : List Char} (hFront : StandsAlone front)
    (hBack : StandsAlone back) : StandsAlone (front ++ back) := by
  intro rest
  rw [List.append_assoc, hFront, hBack, hFront back, List.append_assoc]

theorem Silent.append {front back : List Char} (hFront : Silent front) (hBack : Silent back) :
    Silent (front ++ back) := by
  intro rest
  rw [List.append_assoc, hFront, hBack]

theorem significant_of_scan {l : Lexeme} (h : scan text = l :: scan rest) :
    significant text = [l].filter Lexeme.isToken ++ significant rest := by
  rw [significant, h, List.filter_cons, significant, List.filter_cons, List.filter_nil]
  split <;> rfl

theorem significant_dropWhile (h : isSeparator c = true) (cs : List Char) :
    significant (c :: cs) = significant (cs.dropWhile isSeparator) := by
  have hHeads :
      Lexeme.Heads ⟨.blank, c :: cs.takeWhile isSeparator⟩ (cs.dropWhile isSeparator) := by
    refine .blank (List.cons_ne_nil _ _) ?_ ?_
    · rw [List.forall_mem_cons]
      exact ⟨h, fun d hd => List.mem_takeWhile_imp hd⟩
    · intro d hd
      have hNot := List.head?_dropWhile_not isSeparator cs
      rw [Option.mem_def.mp hd] at hNot
      simpa using hNot
  have hAll := significant_of_scan (scan_of_heads hHeads)
  rwa [List.cons_append, List.takeWhile_append_dropWhile] at hAll

/-- Blanks make no difference. -/
theorem significant_separator (h : isSeparator c = true) (cs : List Char) :
    significant (c :: cs) = significant cs := by
  rw [significant_dropWhile h]
  cases cs with
  | nil => rfl
  | cons d ds =>
      by_cases hd : isSeparator d = true
      · rw [significant_dropWhile hd, List.dropWhile_cons_of_pos hd]
      · rw [List.dropWhile_cons_of_neg hd]

theorem silent_separators (h : ∀ c ∈ text, isSeparator c = true) : Silent text := by
  intro rest
  induction text with
  | nil => rfl
  | cons c text ih =>
      obtain ⟨hc, hMore⟩ := List.forall_mem_cons.mp h
      have hSlash : c ≠ '\\' := by
        rintro rfl
        revert hc
        decide
      rw [List.cons_append, tokens, joinLines_of_ne hSlash, significant_separator hc]
      exact ih hMore

theorem silent_lineFeed : Silent ['\n'] :=
  silent_separators (List.forall_mem_singleton.mpr (by decide))

/-- A comment adds no token, if its end does not stand inside. Its last character is a blank, so
that the end itself is not joined with anything. -/
theorem silent_comment (h : ¬ Closes text) : Silent ('/' :: '*' :: text ++ [' ', '*', '/']) := by
  intro rest
  have hJoined : joinLines ('/' :: '*' :: text ++ [' ', '*', '/'] ++ rest) =
      '/' :: '*' :: (joinLines text ++ [' ']) ++ ['*', '/'] ++ joinLines rest := by
    simp [joinLines_of_ne, joinLines_append_space]
  have hBody : BlockBody (joinLines text ++ [' ']) := by
    rw [BlockBody, List.append_assoc, infix_append_iff_of_not_mem (by decide)]
    exact h
  rw [tokens, hJoined, significant_of_scan (scan_of_heads (.blockComment hBody))]
  rfl

end tokens

section lines

variable {c : Char} {cs text rest : List Char}

theorem ne_of_isInert {d : Char} (h : isInert c = true) (hd : d ∈ ['"', '\'', '/', '\\', '#']) :
    c ≠ d := by
  rintro rfl
  rw [isInert, List.contains_iff_mem.mpr hd] at h
  cases h

/-- A number ends with its line. -/
theorem exists_numberLength (h : ∀ c ∈ cs, isInert c = true) (last : Char) :
    ∃ n ≤ cs.length, ∀ rest, numberLength last (cs ++ '\n' :: rest) = n := by
  induction cs generalizing last with
  | nil =>
      refine ⟨0, Nat.le_refl _, fun rest => ?_⟩
      rw [List.nil_append, numberLength_cons]
      rfl
  | cons c cs ih =>
      obtain ⟨hc, hMore⟩ := List.forall_mem_cons.mp h
      obtain ⟨n, hn, hLength⟩ := ih hMore c
      have hLocal : ∀ rest, continuesNumber last (c :: rest) = continuesNumber last [c] := by
        intro rest
        simp [continuesNumber, ne_of_isInert hc (by decide : '\'' ∈ _)]
      by_cases hContinues : continuesNumber last [c] = true
      · refine ⟨n + 1, Nat.succ_le_succ hn, fun rest => ?_⟩
        rw [List.cons_append, numberLength_cons, hLocal, if_pos hContinues, hLength, Nat.add_comm]
      · refine ⟨0, Nat.zero_le _, fun rest => ?_⟩
        rw [List.cons_append, numberLength_cons, hLocal, if_neg hContinues]

/-- A word ends with its line, and encodes no literal there. -/
theorem exists_word (hStart : Text.startsWord c = true) (h : ∀ c ∈ cs, isInert c = true) :
    ∃ n ≤ cs.length, ∀ rest, classify c (cs ++ '\n' :: rest) = (.word, n) := by
  refine ⟨(cs.takeWhile Text.continuesWord).length, (List.takeWhile_sublist _).length_le, ?_⟩
  intro rest
  obtain ⟨tail, hTail⟩ : ∃ tail, tail = cs.dropWhile Text.continuesWord ++ '\n' :: rest := ⟨_, rfl⟩
  have hSplit : cs ++ '\n' :: rest = cs.takeWhile Text.continuesWord ++ tail := by
    rw [hTail, ← List.append_assoc, List.takeWhile_append_dropWhile]
  have hHead : ∀ d ∈ tail.head?, Text.continuesWord d = false ∧ isInert d = true := by
    intro d hd
    rw [hTail] at hd
    cases hDrop : cs.dropWhile Text.continuesWord with
    | nil =>
        rw [hDrop] at hd
        cases hd
        decide
    | cons e es =>
        have hNot := List.head?_dropWhile_not Text.continuesWord cs
        have hMem : e ∈ cs.dropWhile Text.continuesWord := by
          rw [hDrop]
          exact List.mem_cons_self
        rw [hDrop] at hd hNot
        obtain rfl : e = d := Option.some.inj hd
        exact ⟨by simpa using hNot, h e ((List.dropWhile_sublist _).subset hMem)⟩
  have hOther : ∀ d ∈ ['"', '\'', '/', '\\', '#'], tail.head? ≠ some d := fun d hd hEq =>
    ne_of_isInert (hHead d hEq).2 hd rfl
  have hEnds : WordEnds tail := by
    refine ⟨fun d hd => (hHead d hd).1, ?_, ?_⟩
    · rintro ⟨more, rfl⟩
      exact hOther '\\' (by decide) rfl
    · rintro ⟨more, rfl⟩
      exact hOther '\\' (by decide) rfl
  have hPlain : ¬ EncodesLiteral (c :: cs.takeWhile Text.continuesWord) tail := by
    rintro (⟨hQuote, -⟩ | ⟨hQuote, -⟩)
    · exact hOther '"' (by decide) hQuote
    · exact hOther '\'' (by decide) hQuote
  rw [hSplit, classify_word hStart (fun d hd => List.mem_takeWhile_imp hd) hEnds,
    wordOrLiteral_word hPlain]

/-- The first lexeme of a line without literals, comments and directives ends with the line at
the latest, whatever stands on the next. -/
theorem exists_classify (hc : isInert c = true) (hSeparator : isSeparator c = false)
    (h : ∀ c ∈ cs, isInert c = true) :
    ∃ kind, ∃ n ≤ cs.length, ∀ rest, classify c (cs ++ '\n' :: rest) = (kind, n) := by
  obtain ⟨n, hn, hLength⟩ := exists_numberLength h c
  by_cases hDigit : c.isDigit = true
  · refine ⟨.number, n, hn, fun rest => ?_⟩
    rw [classify_digit hDigit, hLength]
  by_cases hWord : Text.startsWord c = true
  · exact ⟨.word, exists_word hWord h⟩
  rw [Bool.not_eq_true] at hDigit hWord
  have hSpecial : c ∉ ['\\', '#', '"', '\''] := by
    intro hIn
    have hAmong : c ∈ ['"', '\'', '/', '\\', '#'] := by
      simp only [List.mem_cons, List.not_mem_nil, or_false] at hIn ⊢
      tauto
    exact ne_of_isInert hc hAmong rfl
  obtain ⟨d, hTwo, hNext⟩ : ∃ d, (isPair c d = true → 1 ≤ cs.length) ∧
      ∀ rest, ∃ more, cs ++ '\n' :: rest = d :: more := by
    cases cs with
    | nil => exact ⟨'\n', by simp [isPair], fun rest => ⟨rest, rfl⟩⟩
    | cons d ds => exact ⟨d, fun _ => by simp, fun rest => ⟨_, rfl⟩⟩
  have hOther : ∀ rest, classify c (cs ++ '\n' :: rest) =
      if c = '.' ∧ d.isDigit = true then (.number, n)
      else if isPair c d then (.symbol, 1)
      else if isMark c then (.symbol, 0) else (.blank, 0) := by
    intro rest
    obtain ⟨more, hMore⟩ := hNext rest
    rw [← hLength rest, hMore]
    exact classify_other ⟨hSeparator, hDigit, hWord, hSpecial⟩
      (fun hEq => absurd hEq (ne_of_isInert hc (by decide))) more
  by_cases hNumber : c = '.' ∧ d.isDigit = true
  · refine ⟨.number, n, hn, fun rest => ?_⟩
    rw [hOther, if_pos hNumber]
  by_cases hPair : isPair c d = true
  · refine ⟨.symbol, 1, hTwo hPair, fun rest => ?_⟩
    rw [hOther, if_neg hNumber, if_pos hPair]
  · refine ⟨if isMark c then .symbol else .blank, 0, Nat.zero_le _, fun rest => ?_⟩
    rw [hOther, if_neg hNumber, if_neg hPair]
    by_cases hMark : isMark c = true
    · rw [if_pos hMark, if_pos hMark]
    · rw [if_neg hMark, if_neg hMark]

theorem significant_of_classify {kind : LexemeKind} {n : Nat} {next : List Char}
    (hn : n ≤ cs.length) (h : classify c (cs ++ next) = (kind, n)) :
    significant (c :: cs ++ next) =
      [⟨kind, c :: cs.take n⟩].filter Lexeme.isToken ++ significant (cs.drop n ++ next) := by
  have hTaken : (cs.take n).length = n := List.length_take_of_le hn
  have hSplit : cs ++ next = cs.take n ++ (cs.drop n ++ next) := by
    rw [← List.append_assoc, List.take_append_drop]
  have hFirst : scan ((⟨kind, c :: cs.take n⟩ : Lexeme).text ++ (cs.drop n ++ next)) =
      ⟨kind, c :: cs.take n⟩ :: scan (cs.drop n ++ next) :=
    scan_cons c (cs.take n) rfl (by rw [← hSplit, h, hTaken])
  rw [List.cons_append, hSplit]
  exact significant_of_scan hFirst

/-- Scanning passes from a line to the next without a trace. -/
theorem exists_significant (h : ∀ c ∈ text, isInert c = true) :
    ∃ ls, ∀ rest, significant (text ++ '\n' :: rest) = ls ++ significant rest := by
  -- A lexeme may take several characters, so the induction is on how many are left.
  induction hLength : text.length using Nat.strong_induction_on generalizing text with
  | _ length ih =>
    subst hLength
    cases text with
    | nil => exact ⟨[], fun rest => significant_separator (by decide) rest⟩
    | cons c cs =>
        obtain ⟨hc, hMore⟩ := List.forall_mem_cons.mp h
        by_cases hSeparator : isSeparator c = true
        · obtain ⟨ls, hLs⟩ := ih cs.length (by simp) hMore rfl
          refine ⟨ls, fun rest => ?_⟩
          rw [List.cons_append, significant_separator hSeparator, hLs]
        · obtain ⟨kind, n, hn, hClass⟩ := exists_classify hc (by simpa using hSeparator) hMore
          have hShorter : (cs.drop n).length < (c :: cs).length := by
            rw [List.length_drop, List.length_cons]
            omega
          obtain ⟨ls, hLs⟩ := ih (cs.drop n).length hShorter
            (fun d hd => hMore d (List.mem_of_mem_drop hd)) rfl
          refine ⟨[⟨kind, c :: cs.take n⟩].filter Lexeme.isToken ++ ls, fun rest => ?_⟩
          rw [significant_of_classify hn (hClass rest), hLs, List.append_assoc]

/-- A line stands alone, if the tokens up to its end do not depend on what follows. -/
theorem standsAlone_of_significant (ls : List Lexeme) (hSlash : '\\' ∉ text)
    (h : ∀ rest, significant (text ++ rest) = ls ++ significant rest) : StandsAlone text := by
  have hJoined : ∀ rest, tokens (text ++ rest) = ls ++ tokens rest := by
    intro rest
    rw [tokens, joinLines_append_of_not_mem hSlash]
    exact h _
  intro rest
  have hAlone := hJoined []
  rw [List.append_nil, tokens_nil, List.append_nil] at hAlone
  rw [hJoined, hAlone]

/-- A line in which nothing opens a literal, a comment or a directive stands alone. -/
theorem standsAlone_line (h : ∀ c ∈ text, isInert c = true) : StandsAlone (text ++ ['\n']) := by
  obtain ⟨ls, hLs⟩ := exists_significant h
  have hSlash : '\\' ∉ text ++ ['\n'] := by
    rw [List.mem_append, not_or]
    exact ⟨fun hMem => ne_of_isInert (h _ hMem) (by decide) rfl, by decide⟩
  refine standsAlone_of_significant ls hSlash fun rest => ?_
  rw [List.append_assoc]
  exact hLs rest

/-- A directive that ends with its line stands alone. -/
theorem standsAlone_directive (hSlash : '\\' ∉ text)
    (h : ∀ rest, DirectiveText text ('\n' :: rest)) : StandsAlone ('#' :: text ++ ['\n']) := by
  have hNone : '\\' ∉ '#' :: text ++ ['\n'] := by simpa using hSlash
  refine standsAlone_of_significant [⟨.directive, '#' :: text⟩] hNone fun rest => ?_
  rw [List.append_assoc]
  refine (significant_of_scan (scan_of_heads (.directive (h rest)))).trans ?_
  exact congrArg (_ :: ·) (significant_separator (by decide) rest)

theorem directiveTail_quoted {name : List Char} (h : ∀ c ∈ name, isHeaderChar c = true)
    (hTail : DirectiveTail .plain cs rest) :
    DirectiveTail (.quoted '"') (name ++ '"' :: cs) rest := by
  induction name with
  | nil => exact .unquote (by decide) hTail
  | cons c name ih =>
      obtain ⟨hc, hMore⟩ := List.forall_mem_cons.mp h
      have hNe : c ≠ '"' ∧ c ≠ '\\' ∧ c ≠ '\n' := by simpa [isHeaderChar] using hc
      exact .quoted hNe.1 hNe.2.1 hNe.2.2 (ih hMore)

theorem isGaps_nil : IsGaps [] := List.forall_mem_nil _

theorem isGaps_space : IsGaps [' '] := List.forall_mem_singleton.mpr rfl

/-- The line that includes a header stands alone, if the name of the header does not end early. -/
theorem standsAlone_include {name : List Char} (h : ∀ c ∈ name, isHeaderChar c = true) :
    StandsAlone ("#include \"".toList ++ name ++ ['"', '\n']) := by
  have hSlash : '\\' ∉ [] ++ "include".toList ++ (' ' :: '"' :: (name ++ ['"'])) := by
    simp only [List.mem_append, List.mem_cons, not_or]
    exact ⟨by decide, by decide, by decide, fun hMem => absurd (h _ hMem) (by decide), by decide⟩
  have hAlone := standsAlone_directive hSlash fun rest => by
    refine .line isGaps_nil (by decide) (wordEnds_gap isGaps_space (by decide) _) ?_
    refine .char (by decide) (not_joins_of_ne (by decide)) (by simp) (by simp) ?_
    exact .quote (by decide) (directiveTail_quoted h (.done (fun hMode => nomatch hMode) rfl))
  simpa using hAlone

theorem standsAlone_pragma : StandsAlone "#pragma once\n".toList := by
  have hSlash : '\\' ∉ [] ++ "pragma".toList ++ ([' '] ++ "once".toList) := by decide
  refine standsAlone_directive hSlash fun rest => ?_
  have hWord : IsWord "pragma".toList := ⟨by decide, List.all_eq_true.mp (by decide)⟩
  refine .other isGaps_nil hWord (by decide) (wordEnds_gap isGaps_space (by decide) _) ?_
  refine .replacement isGaps_space ?_ (by simp) ?_
  · rintro c hc
    cases hc
    decide
  · have hChar : ∀ {c : Char} {cs : List Char}, c ∉ ['/', '\n', '\\'] →
        ReplacementTail cs ('\n' :: rest) → ReplacementTail (c :: cs) ('\n' :: rest) := by
      intro c cs hc hTail
      simp only [List.mem_cons, List.not_mem_nil, or_false, not_or] at hc
      exact .char (by simp [hc]) (not_joins_of_ne hc.2.2) hTail
    exact hChar (by decide) (hChar (by decide) (hChar (by decide) (hChar (by decide) (.done rfl))))

end lines

end Simgen.Source
