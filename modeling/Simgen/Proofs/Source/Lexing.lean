import Simgen.Proofs.Source.Directive

/-! The lexical grammar of sources. A text is taken apart into lexemes in one way only:
scanning finds the lexemes that the text was put together from. -/
namespace Simgen.Source

/-- A word and a quote behind it begin a literal. -/
def EncodesLiteral (word rest : List Char) : Prop :=
  rest.head? = some '"' ∧ (isRawEncoding word = true ∨ isEncoding word = true) ∨
    rest.head? = some '\'' ∧ isEncoding word = true

/-- The lexeme ends where the rest of the text begins. -/
inductive Lexeme.Heads : Lexeme → List Char → Prop where
  | blank {text rest} : text ≠ [] → (∀ c ∈ text, isSeparator c = true) →
      (∀ c ∈ rest.head?, isSeparator c = false) → Heads ⟨.blank, text⟩ rest
  /-- A backslash that joins lines outside of directives and literals. -/
  | splice {rest} : rest.head? ∈ [some '\n', some '\r'] → Heads ⟨.blank, ['\\']⟩ rest
  | lineComment {text rest} : LineTail text rest → Heads ⟨.comment, '/' :: '/' :: text⟩ rest
  | blockComment {body rest} : BlockBody body →
      Heads ⟨.comment, '/' :: '*' :: body ++ ['*', '/']⟩ rest
  | directive {text rest} : DirectiveText text rest → Heads ⟨.directive, '#' :: text⟩ rest
  | quoted {encoding quote body rest} : encoding = [] ∨ isEncoding encoding = true →
      quote ∈ ['"', '\''] → QuotedBody quote body →
      Heads ⟨.literal, encoding ++ quote :: body ++ [quote]⟩ rest
  | raw {encoding delimiter body rest} : isRawEncoding encoding = true →
      (∀ c ∈ delimiter, isDelimiter c = true) → delimiter.length ≤ 16 → RawBody delimiter body →
      Heads ⟨.literal, encoding ++ '"' :: delimiter ++ '(' :: body ++ ')' :: delimiter ++ ['"']⟩
        rest
  | number {c text rest} : c.isDigit = true → NumberTail c text rest →
      Heads ⟨.number, c :: text⟩ rest
  | fraction {d text rest} : d.isDigit = true → NumberTail '.' (d :: text) rest →
      Heads ⟨.number, '.' :: d :: text⟩ rest
  | word {c text rest} : Text.startsWord c = true → (∀ d ∈ text, Text.continuesWord d = true) →
      WordEnds rest → ¬ EncodesLiteral (c :: text) rest → Heads ⟨.word, c :: text⟩ rest
  | pair {c d rest} : isPair c d = true → Heads ⟨.symbol, [c, d]⟩ rest
  | mark {c rest} : isMark c = true →
      (∀ d ∈ rest.head?, isPair c d = false ∧ (c = '/' → d ∉ ['/', '*']) ∧
        (c = '.' → d.isDigit = false)) →
      Heads ⟨.symbol, [c]⟩ rest

/-- The lexemes that a text is put together from. -/
inductive Lexes : List Char → List Lexeme → Prop where
  | nil : Lexes [] []
  | cons {l rest ls} : l.Heads rest → Lexes rest ls → Lexes (l.text ++ rest) (l :: ls)

/-- The code points of characters that separate lexemes. -/
def separators : List Nat :=
  List.range' 0x9 5 ++ List.range' 0x2000 11 ++
    [0x20, 0x85, 0xA0, 0x1680, 0x2028, 0x2029, 0x202F, 0x205F, 0x3000, 0xFEFF]

theorem toNat_mem_separators {c : Char} (h : isSeparator c = true) : c.toNat ∈ separators := by
  simp only [isSeparator, Text.isBlank, Bool.or_eq_true, Bool.and_eq_true, decide_eq_true_eq,
    beq_iff_eq] at h
  simp only [separators, List.mem_append, List.mem_range'_1, List.mem_cons, List.not_mem_nil,
    or_false]
  rcases h with hBlank | rfl
  · omega
  · decide

theorem startsNothing_of_isSeparator {c : Char} (h : isSeparator c = true) :
    Text.startsWord c = false ∧ c.isDigit = false := by
  have hAll : ∀ n ∈ separators,
      Text.startsWord (Char.ofNat n) = false ∧ (Char.ofNat n).isDigit = false := by
    decide +kernel
  have hc := hAll c.toNat (toNat_mem_separators h)
  rwa [Char.ofNat_toNat] at hc

theorem isSeparator_of_isDigit {c : Char} (h : c.isDigit = true) : isSeparator c = false := by
  rw [Bool.eq_false_iff]
  intro hYes
  rw [(startsNothing_of_isSeparator hYes).2] at h
  cases h

theorem isDigit_of_startsWord {c : Char} (h : Text.startsWord c = true) : c.isDigit = false := by
  by_cases hAscii : c.toNat < 0x80
  · have hAll : ∀ n < 0x80, Text.startsWord (Char.ofNat n) = true →
        (Char.ofNat n).isDigit = false := by
      decide +kernel
    have hc := hAll c.toNat hAscii
    rw [Char.ofNat_toNat] at hc
    exact hc h
  · rw [Bool.eq_false_iff]
    intro hDigit
    simp [Char.isDigit, UInt32.le_iff_toNat_le] at hDigit
    have : c.toNat = c.val.toNat := rfl
    omega

theorem scan_cons {l : Lexeme} {rest : List Char} (c : Char) (cs : List Char)
    (hText : l.text = c :: cs) (h : classify c (cs ++ rest) = (l.kind, cs.length)) :
    scan (l.text ++ rest) = l :: scan rest := by
  obtain ⟨kind, text⟩ := l
  subst hText
  rw [List.cons_append, scan.eq_def]
  simp only [h, List.take_left, List.drop_left]

theorem classify_word {c : Char} {text rest : List Char} (hStart : Text.startsWord c = true)
    (hText : ∀ d ∈ text, Text.continuesWord d = true) (hRest : WordEnds rest) :
    classify c (text ++ rest) = wordOrLiteral c text.length (text ++ rest) := by
  have hSeparator : isSeparator c = false := by
    rw [Bool.eq_false_iff]
    intro hYes
    rw [(startsNothing_of_isSeparator hYes).1] at hStart
    cases hStart
  unfold classify
  rw [if_neg (by simp [hSeparator]), if_neg (by simp [isDigit_of_startsWord hStart]), if_pos hStart,
    wordLength_of_all hText hRest]

theorem wordOrLiteral_word {c : Char} {text rest : List Char}
    (h : ¬ EncodesLiteral (c :: text) rest) :
    wordOrLiteral c text.length (text ++ rest) = (.word, text.length) := by
  unfold wordOrLiteral
  rw [List.drop_left, List.take_left]
  split
  next quoted =>
    have hNone : ¬ (isRawEncoding (c :: text) = true ∨ isEncoding (c :: text) = true) :=
      fun hEncoding => h (Or.inl ⟨rfl, hEncoding⟩)
    rw [if_neg fun hRaw => hNone (Or.inl hRaw), if_neg fun hPlain => hNone (Or.inr hPlain)]
  next quoted => rw [if_neg fun hPlain => h (Or.inr ⟨rfl, hPlain⟩)]
  next => rfl

theorem mem_of_isEncoding {encoding : List Char} (h : isEncoding encoding = true) :
    encoding ∈ ["L", "u", "U", "u8"].map String.toList := by
  obtain ⟨name, hName, hEq⟩ := List.any_eq_true.mp h
  exact List.mem_map.mpr ⟨name, hName, of_decide_eq_true hEq⟩

theorem mem_of_isRawEncoding {encoding : List Char} (h : isRawEncoding encoding = true) :
    encoding ∈ ["R", "LR", "uR", "UR", "u8R"].map String.toList := by
  obtain ⟨name, hName, hEq⟩ := List.any_eq_true.mp h
  exact List.mem_map.mpr ⟨name, hName, of_decide_eq_true hEq⟩

/-- Encodings are words. -/
theorem exists_word_of_encoding {encoding : List Char}
    (h : isEncoding encoding = true ∨ isRawEncoding encoding = true) :
    ∃ c text, encoding = c :: text ∧ Text.startsWord c = true ∧
      ∀ d ∈ text, Text.continuesWord d = true := by
  have hAll : ∀ encoding ∈ ["L", "u", "U", "u8"].map String.toList ++
      ["R", "LR", "uR", "UR", "u8R"].map String.toList,
      encoding ≠ [] ∧ encoding.head?.all Text.startsWord = true ∧
        encoding.tail.all Text.continuesWord = true := by
    decide
  have hMem := List.mem_append.mpr (h.imp mem_of_isEncoding mem_of_isRawEncoding)
  obtain ⟨hNe, hHead, hTail⟩ := hAll encoding hMem
  cases encoding with
  | nil => exact absurd rfl hNe
  | cons c text => exact ⟨c, text, rfl, hHead, List.all_eq_true.mp hTail⟩

theorem isRawEncoding_of_isEncoding {encoding : List Char} (h : isEncoding encoding = true) :
    isRawEncoding encoding = false := by
  have hAll : ∀ encoding ∈ ["L", "u", "U", "u8"].map String.toList,
      isRawEncoding encoding = false := by
    decide
  exact hAll encoding (mem_of_isEncoding h)

theorem wordEnds_quote {quote : Char} (h : quote ∈ ['"', '\'']) (rest : List Char) :
    WordEnds (quote :: rest) := by
  have hAll : ['"', '\''].all (fun quote => !Text.continuesWord quote) = true := by decide
  have hWord : Text.continuesWord quote = false := by simpa using List.all_eq_true.mp hAll quote h
  have hSlash : quote ≠ '\\' := ne_of_mem_quotes h (by decide)
  refine ⟨?_, ?_, ?_⟩
  · rintro c hc
    cases hc
    exact hWord
  · exact fun hPrefix => hSlash (List.cons_prefix_cons.mp hPrefix).1.symm
  · exact fun hPrefix => hSlash (List.cons_prefix_cons.mp hPrefix).1.symm

theorem wordOrLiteral_quoted {c quote : Char} {text body : List Char}
    (hEncoding : isEncoding (c :: text) = true) (hQuote : quote ∈ ['"', '\''])
    (hBody : QuotedBody quote body) (rest : List Char) :
    wordOrLiteral c text.length (text ++ quote :: (body ++ quote :: rest)) =
      (.literal, text.length + 1 + (body.length + 1)) := by
  have hLength := quotedLength_of_body (ne_of_mem_quotes hQuote (by decide)) hBody rest
  unfold wordOrLiteral
  rw [List.drop_left, List.take_left]
  simp only [List.mem_cons, List.not_mem_nil, or_false] at hQuote
  rcases hQuote with rfl | rfl
  · simp only [isRawEncoding_of_isEncoding hEncoding, hEncoding, hLength, if_true]
    rfl
  · simp only [hEncoding, hLength, if_true]

theorem wordOrLiteral_raw {c : Char} {text delimiter body : List Char}
    (hEncoding : isRawEncoding (c :: text) = true)
    (hDelimiter : ∀ c ∈ delimiter, isDelimiter c = true) (hLength : delimiter.length ≤ 16)
    (hBody : RawBody delimiter body) (rest : List Char) :
    wordOrLiteral c text.length
        (text ++ '"' :: (delimiter ++ '(' :: body ++ ')' :: delimiter ++ '"' :: rest)) =
      (.literal,
        text.length + 1 + (delimiter.length + 1 + (body.length + (delimiter.length + 2)))) := by
  unfold wordOrLiteral
  rw [List.drop_left, List.take_left]
  simp only [if_pos hEncoding, rawLength_of_body hDelimiter hLength hBody]

theorem classify_pair {c d : Char} (h : isPair c d = true) (rest : List Char) :
    classify c (d :: rest) = (.symbol, 1) := by
  have hMem : (c, d) ∈ [(':', ':'), ('-', '>'), ('=', '='), ('!', '='), ('<', '='), ('>', '='),
      ('<', '<')] := List.contains_iff_mem.mp h
  simp only [List.mem_cons, Prod.mk.injEq, List.not_mem_nil, or_false] at hMem
  unfold classify
  rcases hMem with ⟨rfl, rfl⟩ | ⟨rfl, rfl⟩ | ⟨rfl, rfl⟩ | ⟨rfl, rfl⟩ | ⟨rfl, rfl⟩ | ⟨rfl, rfl⟩ |
    ⟨rfl, rfl⟩ <;> rfl

/-- What begins with a character of no word and no literal depends on one more character only,
unless a number follows a dot. -/
theorem classify_other {c d : Char} (hPlain : isSeparator c = false ∧ c.isDigit = false ∧
      Text.startsWord c = false ∧ c ∉ ['\\', '#', '"', '\''])
    (hSlash : c = '/' → d ∉ ['/', '*']) (rest : List Char) :
    classify c (d :: rest) =
      if c = '.' ∧ d.isDigit = true then (.number, numberLength c (d :: rest))
      else if isPair c d then (.symbol, 1)
      else if isMark c then (.symbol, 0) else (.blank, 0) := by
  obtain ⟨hSeparator, hDigit, hWord, hSpecial⟩ := hPlain
  unfold classify
  rw [if_neg (by simp [hSeparator]), if_neg (by simp [hDigit]), if_neg (by simp [hWord])]
  split
  next => exact absurd (by decide) hSpecial
  next hEq => cases hEq; exact absurd (by decide) (hSlash rfl)
  next hEq => cases hEq; exact absurd (by decide) (hSlash rfl)
  next => exact absurd (by decide) hSpecial
  next => exact absurd (by decide) hSpecial
  next => exact absurd (by decide) hSpecial
  next e es hEq =>
    obtain ⟨rfl, rfl⟩ := List.cons.inj hEq
    have hPair : isPair '.' d = false := by simp [isPair]
    have hMark : isMark '.' = true := by decide
    simp only [true_and, hPair, hMark, Bool.false_eq_true, if_false, if_true]
  next e es _ _ _ _ _ hDot hEq =>
    obtain ⟨rfl, rfl⟩ := List.cons.inj hEq
    simp only [eq_false hDot, false_and, if_false]
  next hEq => cases hEq

theorem plain_of_isMark {c : Char} (h : isMark c = true) : isSeparator c = false ∧
    c.isDigit = false ∧ Text.startsWord c = false ∧ c ∉ ['\\', '#', '"', '\''] := by
  have hAll : "()\x7b\x7d[];:,.<>=+-*/%&|^!~?".toList.all (fun c => !isSeparator c && (!c.isDigit &&
      (!Text.startsWord c && !(['\\', '#', '"', '\''].contains c)))) = true := by
    decide
  simpa using List.all_eq_true.mp hAll c (List.contains_iff_mem.mp h)

theorem classify_mark {c : Char} {rest : List Char} (h : isMark c = true)
    (hRest : ∀ d ∈ rest.head?, isPair c d = false ∧ (c = '/' → d ∉ ['/', '*']) ∧
      (c = '.' → d.isDigit = false)) : classify c rest = (.symbol, 0) := by
  cases rest with
  | nil =>
      have hAll : "()\x7b\x7d[];:,.<>=+-*/%&|^!~?".toList.all
          (fun c => classify c [] = (.symbol, 0)) = true := by
        decide
      simpa using List.all_eq_true.mp hAll c (List.contains_iff_mem.mp h)
  | cons d rest =>
      obtain ⟨hPair, hSlash, hDot⟩ := hRest d rfl
      have hNumber : ¬ (c = '.' ∧ d.isDigit = true) := by
        rintro ⟨rfl, hDigit⟩
        rw [hDot rfl] at hDigit
        cases hDigit
      rw [classify_other (plain_of_isMark h) hSlash, if_neg hNumber, if_neg (by simp [hPair]),
        if_pos h]

section classify

variable {text body rest : List Char}

theorem classify_blank {c : Char} (hText : ∀ d ∈ c :: text, isSeparator d = true)
    (hRest : ∀ d ∈ rest.head?, isSeparator d = false) :
    classify c (text ++ rest) = (.blank, text.length) := by
  obtain ⟨hc, hMore⟩ := List.forall_mem_cons.mp hText
  unfold classify
  rw [if_pos hc, takeWhile_exact hMore hRest]

theorem classify_digit {c : Char} (hDigit : c.isDigit = true) (cs : List Char) :
    classify c cs = (.number, numberLength c cs) := by
  unfold classify
  rw [if_neg (by simp [isSeparator_of_isDigit hDigit]), if_pos hDigit]

theorem classify_splice (h : rest.head? ∈ [some '\n', some '\r']) :
    classify '\\' rest = (.blank, 0) := by
  have hNone : wordLength ('\\' :: rest) = 0 := by
    rw [wordLength_cons, if_neg (by decide)]
    · rintro ⟨tail, hTail⟩
      cases hTail
      simp at h
    · rintro ⟨tail, hTail⟩
      cases hTail
      simp at h
  unfold classify
  rw [if_neg (by decide), if_neg (by decide), if_neg (by decide)]
  simp only [hNone]

theorem classify_lineComment (h : LineTail text rest) :
    classify '/' ('/' :: text ++ rest) = (.comment, ('/' :: text).length) := by
  unfold classify
  rw [if_neg (by decide), if_neg (by decide), if_neg (by decide)]
  simp only [List.cons_append, lineLength_of_lineTail h, List.length_cons, Nat.add_comm]

theorem classify_blockComment (h : BlockBody body) (rest : List Char) :
    classify '/' ('*' :: (body ++ ['*', '/']) ++ rest) =
      (.comment, ('*' :: (body ++ ['*', '/'])).length) := by
  unfold classify
  rw [if_neg (by decide), if_neg (by decide), if_neg (by decide)]
  simp only [List.cons_append, List.append_assoc, List.nil_append, blockLength?_of_body h,
    List.length_cons, List.length_append, List.length_nil, Nat.add_comm]

theorem classify_directive (h : DirectiveText text rest) :
    classify '#' (text ++ rest) = (.directive, text.length) := by
  unfold classify
  rw [if_neg (by decide), if_neg (by decide), if_neg (by decide)]
  simp only [directiveLength?_of_text h]

theorem classify_fraction {d : Char} (hDigit : d.isDigit = true)
    (hTail : NumberTail '.' (d :: text) rest) :
    classify '.' (d :: text ++ rest) = (.number, (d :: text).length) := by
  unfold classify
  rw [if_neg (by decide), if_neg (by decide), if_neg (by decide)]
  simp only [List.cons_append, if_pos hDigit]
  rw [← List.cons_append, numberLength_of_tail hTail]

theorem classify_quote {quote : Char} (hQuote : quote ∈ ['"', '\'']) (hBody : QuotedBody quote body)
    (rest : List Char) :
    classify quote (body ++ [quote] ++ rest) = (.literal, (body ++ [quote]).length) := by
  have hLength := quotedLength_of_body (ne_of_mem_quotes hQuote (by decide)) hBody rest
  unfold classify
  simp only [List.mem_cons, List.not_mem_nil, or_false] at hQuote
  rcases hQuote with rfl | rfl
  · rw [if_neg (by decide), if_neg (by decide), if_neg (by decide)]
    simp [hLength]
  · rw [if_neg (by decide), if_neg (by decide), if_neg (by decide)]
    simp [hLength]

end classify

/-- A lexeme that ends before the rest of a text is the first that scanning finds. -/
theorem scan_of_heads {l : Lexeme} {rest : List Char} (h : l.Heads rest) :
    scan (l.text ++ rest) = l :: scan rest := by
  cases h with
  | @blank text rest hNe hText hRest =>
      cases text with
      | nil => exact absurd rfl hNe
      | cons c text => exact scan_cons c text rfl (classify_blank hText hRest)
  | splice hRest => exact scan_cons '\\' [] rfl (classify_splice hRest)
  | @lineComment text _ hLine => exact scan_cons '/' ('/' :: text) rfl (classify_lineComment hLine)
  | @blockComment body rest hBody =>
      exact scan_cons '/' ('*' :: (body ++ ['*', '/'])) rfl (classify_blockComment hBody rest)
  | @directive text _ hText => exact scan_cons '#' text rfl (classify_directive hText)
  | @quoted encoding quote body rest hEncoding hQuote hBody =>
      rcases hEncoding with rfl | hEncoding
      · exact scan_cons quote (body ++ [quote]) rfl (classify_quote hQuote hBody rest)
      · obtain ⟨c, text, rfl, hStart, hText⟩ := exists_word_of_encoding (Or.inl hEncoding)
        refine scan_cons c (text ++ quote :: (body ++ [quote])) (by simp) ?_
        simp only [List.append_assoc, List.cons_append, List.nil_append]
        rw [classify_word hStart hText (wordEnds_quote hQuote _),
          wordOrLiteral_quoted hEncoding hQuote hBody]
        simp only [List.length_append, List.length_cons, List.length_nil]
        congr 1
        omega
  | @raw encoding delimiter body rest hEncoding hDelimiter hLength hBody =>
      obtain ⟨c, text, rfl, hStart, hText⟩ := exists_word_of_encoding (Or.inr hEncoding)
      have hLiteral := wordOrLiteral_raw hEncoding hDelimiter hLength hBody rest
      refine scan_cons c
        (text ++ '"' :: (delimiter ++ '(' :: (body ++ ')' :: (delimiter ++ ['"'])))) (by simp) ?_
      simp only [List.append_assoc, List.cons_append, List.nil_append] at hLiteral ⊢
      rw [classify_word hStart hText (wordEnds_quote (by decide) _), hLiteral]
      simp only [List.length_append, List.length_cons, List.length_nil]
      congr 1
      omega
  | @number c text _ hDigit hTail =>
      refine scan_cons c text rfl ?_
      rw [classify_digit hDigit, numberLength_of_tail hTail]
  | @fraction d text _ hDigit hTail =>
      exact scan_cons '.' (d :: text) rfl (classify_fraction hDigit hTail)
  | @word c text _ hStart hText hRest hPlain =>
      refine scan_cons c text rfl ?_
      rw [classify_word hStart hText hRest, wordOrLiteral_word hPlain]
  | @pair c d rest hPair => exact scan_cons c [d] rfl (classify_pair hPair rest)
  | @mark c rest hMark hRest => exact scan_cons c [] rfl (classify_mark hMark hRest)

/-- Scanning finds the lexemes that a text is put together from. -/
theorem scan_of_lexes {text : List Char} {ls : List Lexeme} (h : Lexes text ls) :
    scan text = ls := by
  induction h with
  | nil => rw [scan.eq_def]
  | cons hHead _ ih => rw [scan_of_heads hHead, ih]

end Simgen.Source
