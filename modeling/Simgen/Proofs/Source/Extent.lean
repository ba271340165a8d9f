import Simgen.Source.Lexeme

/-! How far lines, comments, literals and directives reach, said of their texts. Each
relation is between a text and what follows it in the source. -/
namespace Simgen.Source

/-- A backslash right before a line end. -/
def JoinsLines (c : Char) (cs : List Char) : Prop :=
  c = '\\' ∧ (cs.head? = some '\n' ∨ ['\r', '\n'] <+: cs)

/-- A line ends before this text. -/
def AtLineEnd (rest : List Char) : Prop := rest.head?.getD '\n' = '\n'

/-- The rest of a line, with the lines that backslashes join to it. -/
inductive LineTail : List Char → List Char → Prop where
  | done {rest} : AtLineEnd rest → LineTail [] rest
  | join {cs rest} : LineTail cs rest → LineTail ('\\' :: '\n' :: cs) rest
  | joinReturn {cs rest} : LineTail cs rest → LineTail ('\\' :: '\r' :: '\n' :: cs) rest
  | char {c cs rest} : c ≠ '\n' → ¬ JoinsLines c (cs ++ rest) → LineTail cs rest →
      LineTail (c :: cs) rest

/-- The inside of a string or character literal. -/
inductive QuotedBody (quote : Char) : List Char → Prop where
  | nil : QuotedBody quote []
  | char {c cs} : c ≠ quote → c ≠ '\\' → c ≠ '\n' → QuotedBody quote cs → QuotedBody quote (c :: cs)
  | escape {c cs} : c ≠ '\r' → QuotedBody quote cs → QuotedBody quote ('\\' :: c :: cs)
  | joinReturn {cs} : QuotedBody quote cs → QuotedBody quote ('\\' :: '\r' :: '\n' :: cs)

/-- The inside of a block comment: its end stands nowhere before. -/
def BlockBody (body : List Char) : Prop := ¬ ['*', '/'] <:+: body ++ ['*']

/-- The inside of a raw string behind its opening parenthesis: its end stands nowhere before. -/
def RawBody (delimiter body : List Char) : Prop :=
  ¬ (')' :: delimiter ++ ['"']) <:+: body ++ ')' :: delimiter

/-- Characters that may stand in the delimiter of a raw string. -/
def isDelimiter (c : Char) : Bool := c != '(' && c != '"' && c != '\\' && !isSeparator c

/-- No word goes on with this text. -/
def WordEnds (rest : List Char) : Prop :=
  (∀ c ∈ rest.head?, Text.continuesWord c = false) ∧
    ¬ ['\\', 'u'] <+: rest ∧ ¬ ['\\', 'U'] <+: rest

/-- Whether a number goes on with this text behind the character `last`. -/
def continuesNumber (last : Char) : List Char → Bool
  | [] => false
  | c :: cs =>
    Text.continuesWord c || c == '.' ||
      (c == '+' || c == '-') && (last.toLower == 'e' || last.toLower == 'p') ||
      c == '\'' && (cs.head?.map Char.isAlphanum).getD false

/-- The rest of a number behind the character `last`. -/
def NumberTail (last : Char) : List Char → List Char → Prop
  | [], rest => continuesNumber last rest = false
  | c :: cs, rest => continuesNumber last (c :: cs ++ rest) = true ∧ NumberTail c cs rest

/-- The rest of the line of a directive in which quotes and comments are told apart. -/
inductive DirectiveTail : LineMode → List Char → List Char → Prop where
  | done {mode rest} : mode ≠ .block → AtLineEnd rest → DirectiveTail mode [] rest
  | join {mode cs rest} : mode ≠ .block → DirectiveTail mode cs rest →
      DirectiveTail mode ('\\' :: '\n' :: cs) rest
  | joinReturn {mode cs rest} : mode ≠ .block → DirectiveTail mode cs rest →
      DirectiveTail mode ('\\' :: '\r' :: '\n' :: cs) rest
  | commented {c cs rest} : c ≠ '\n' → ¬ JoinsLines c (cs ++ rest) →
      DirectiveTail .comment cs rest → DirectiveTail .comment (c :: cs) rest
  | escape {quote c cs rest} : ¬ JoinsLines '\\' (c :: cs ++ rest) →
      DirectiveTail (.quoted quote) cs rest → DirectiveTail (.quoted quote) ('\\' :: c :: cs) rest
  | quoted {quote c cs rest} : c ≠ quote → c ≠ '\\' → c ≠ '\n' →
      DirectiveTail (.quoted quote) cs rest → DirectiveTail (.quoted quote) (c :: cs) rest
  | unquote {quote cs rest} : quote ∈ ['"', '\''] → DirectiveTail .plain cs rest →
      DirectiveTail (.quoted quote) (quote :: cs) rest
  | quote {quote cs rest} : quote ∈ ['"', '\''] → DirectiveTail (.quoted quote) cs rest →
      DirectiveTail .plain (quote :: cs) rest
  | block {body cs rest} : BlockBody body → DirectiveTail .plain cs rest →
      DirectiveTail .plain ('/' :: '*' :: body ++ '*' :: '/' :: cs) rest
  | comment {cs rest} : DirectiveTail .comment cs rest →
      DirectiveTail .plain ('/' :: '/' :: cs) rest
  | char {c cs rest} : c ∉ ['\n', '"', '\''] → ¬ JoinsLines c (cs ++ rest) →
      ¬ ['/', '*'] <+: c :: cs ++ rest → ¬ ['/', '/'] <+: c :: cs ++ rest →
      DirectiveTail .plain cs rest → DirectiveTail .plain (c :: cs) rest

/-- The rest of the line of a directive in which only block comments are told apart. -/
inductive ReplacementTail : List Char → List Char → Prop where
  | done {rest} : AtLineEnd rest → ReplacementTail [] rest
  | join {cs rest} : ReplacementTail cs rest → ReplacementTail ('\\' :: '\n' :: cs) rest
  | joinReturn {cs rest} : ReplacementTail cs rest →
      ReplacementTail ('\\' :: '\r' :: '\n' :: cs) rest
  | block {body cs rest} : BlockBody body → DirectiveTail .plain cs rest →
      ReplacementTail ('/' :: '*' :: body ++ '*' :: '/' :: cs) rest
  | slash {c cs rest} : c ∉ ['*', '\\', '\n'] → ReplacementTail cs rest →
      ReplacementTail ('/' :: c :: cs) rest
  | char {c cs rest} : c ∉ ['/', '\n'] → ¬ JoinsLines c (cs ++ rest) → ReplacementTail cs rest →
      ReplacementTail (c :: cs) rest

section lines

variable {c : Char} {cs text rest : List Char}

theorem not_return_of_not_joins (h : ¬ JoinsLines c cs) :
    ∀ tail, c = '\\' → cs = '\r' :: '\n' :: tail → False := by
  rintro tail rfl rfl
  exact h ⟨rfl, Or.inr ⟨tail, rfl⟩⟩

theorem not_feed_of_not_joins (h : ¬ JoinsLines c cs) :
    ∀ tail, c = '\\' → cs = '\n' :: tail → False := by
  rintro tail rfl rfl
  exact h ⟨rfl, Or.inl rfl⟩

theorem not_joins_of_ne (h : c ≠ '\\') : ¬ JoinsLines c cs := fun hJoins => h hJoins.1

theorem lineLength_char (hEnd : c ≠ '\n') (hJoin : ¬ JoinsLines c cs) :
    lineLength (c :: cs) = 1 + lineLength cs := by
  rw [lineLength]
  · exact not_return_of_not_joins hJoin
  · exact not_feed_of_not_joins hJoin
  · exact hEnd

theorem lineLength_of_atLineEnd {rest : List Char} (h : AtLineEnd rest) : lineLength rest = 0 := by
  cases rest with
  | nil => rfl
  | cons c cs =>
      obtain rfl : c = '\n' := h
      rw [lineLength]

theorem lineLength_of_lineTail {text rest : List Char} (h : LineTail text rest) :
    lineLength (text ++ rest) = text.length := by
  induction h with
  | done hEnd => exact lineLength_of_atLineEnd hEnd
  | join _ ih => simp [lineLength, ih]; omega
  | joinReturn _ ih => simp [lineLength, ih]; omega
  | char hEnd hJoin _ ih => rw [List.cons_append, lineLength_char hEnd hJoin, ih]; simp; omega

end lines

theorem quotedLength_of_body {quote : Char} {body : List Char} (hQuote : quote ≠ '\\')
    (h : QuotedBody quote body) (rest : List Char) :
    quotedLength quote (body ++ quote :: rest) = body.length + 1 := by
  induction h with
  | nil =>
      rw [List.nil_append, quotedLength]
      · simp
      · rintro _ rfl; exact absurd rfl hQuote
      · rintro _ _ rfl; exact absurd rfl hQuote
  | char hOther hSlash hEnd _ ih =>
      rw [List.cons_append, quotedLength]
      · simp [hOther, hEnd, ih]; omega
      · rintro _ rfl; exact absurd rfl hSlash
      · rintro _ _ rfl; exact absurd rfl hSlash
  | escape hReturn _ ih =>
      rw [List.cons_append, List.cons_append, quotedLength]
      · simp [ih]; omega
      · rintro _ rfl; exact absurd rfl hReturn
  | joinReturn _ ih => simp [quotedLength, ih]; omega

/-- A word that stands nowhere in a text up to its own last character does not begin there
either. -/
theorem not_isPrefixOf_of_absent {word text : List Char} {last : Char}
    (h : ¬ word ++ [last] <:+: text ++ word) (hText : text ≠ []) (rest : List Char) :
    ¬ word ++ [last] <+: text ++ word ++ rest := by
  intro hPrefix
  have hLength : (word ++ [last]).length ≤ (text ++ word).length := by
    have := List.length_pos_iff.mpr hText
    simp only [List.length_append, List.length_singleton]
    omega
  exact h (List.prefix_of_prefix_length_le hPrefix (List.prefix_append _ _) hLength).isInfix

theorem not_infix_of_cons {word cs : List Char} {c : Char} (h : ¬ word <:+: c :: cs) :
    ¬ word <:+: cs :=
  fun hInfix => h (hInfix.trans (List.suffix_cons c cs).isInfix)

theorem lengthThrough_of_absent {word body : List Char} {last : Char}
    (h : ¬ word ++ [last] <:+: body ++ word) (rest : List Char) :
    lengthThrough (word ++ [last]) (body ++ word ++ last :: rest) =
      body.length + (word.length + 1) := by
  induction body with
  | nil =>
      have hPrefix : (word ++ [last]).isPrefixOf ([] ++ word ++ last :: rest) = true :=
        List.isPrefixOf_iff_prefix.mpr ⟨rest, by simp⟩
      cases hText : ([] ++ word ++ last :: rest : List Char) with
      | nil => simp at hText
      | cons c cs =>
          rw [hText] at hPrefix
          rw [lengthThrough, if_pos hPrefix]
          simp
  | cons c body ih =>
      have hNot : ¬ (word ++ [last]).isPrefixOf (c :: (body ++ word ++ last :: rest)) = true := by
        rw [List.isPrefixOf_iff_prefix]
        exact not_isPrefixOf_of_absent h (List.cons_ne_nil c body) (last :: rest)
      rw [List.cons_append, List.cons_append, lengthThrough, if_neg hNot, ih (not_infix_of_cons h)]
      simp
      omega

theorem blockLength?_of_body {body : List Char} (h : BlockBody body) (rest : List Char) :
    blockLength? (body ++ '*' :: '/' :: rest) = some (body.length + 2) := by
  induction body with
  | nil => rfl
  | cons c body ih =>
      have hWord : ¬ ['*'] ++ ['/'] <:+: c :: body ++ ['*'] := h
      have hNot := not_isPrefixOf_of_absent hWord (List.cons_ne_nil c body) ('/' :: rest)
      rw [List.cons_append, blockLength?, ih (not_infix_of_cons h)]
      · simp
      · rintro tail rfl hTail
        refine hNot ⟨tail, ?_⟩
        simp only [List.cons_append, List.nil_append, List.append_assoc] at hTail ⊢
        rw [hTail]

theorem rawLength_of_body {delimiter body : List Char}
    (hDelimiter : ∀ c ∈ delimiter, isDelimiter c = true)
    (hLength : delimiter.length ≤ 16) (h : RawBody delimiter body) (rest : List Char) :
    rawLength (delimiter ++ '(' :: body ++ ')' :: delimiter ++ '"' :: rest) =
      delimiter.length + 1 + (body.length + (delimiter.length + 2)) := by
  have hTake : (delimiter ++ '(' :: body ++ ')' :: delimiter ++ '"' :: rest).takeWhile isDelimiter =
      delimiter := by
    simp only [List.append_assoc, List.cons_append]
    rw [List.takeWhile_append_of_pos hDelimiter]
    simp [isDelimiter]
  have hDrop : (delimiter ++ '(' :: body ++ ')' :: delimiter ++ '"' :: rest).drop delimiter.length =
      '(' :: (body ++ (')' :: delimiter) ++ '"' :: rest) := by
    simp
  have hThrough : lengthThrough (')' :: delimiter ++ ['"'])
      (body ++ (')' :: delimiter) ++ '"' :: rest) = body.length + (delimiter.length + 2) := by
    rw [lengthThrough_of_absent h]
    simp
  unfold isDelimiter at hTake
  simp only [rawLength, hTake, hDrop, if_pos hLength, hThrough]

theorem numberLength_cons (last c : Char) (cs : List Char) :
    numberLength last (c :: cs) =
      if continuesNumber last (c :: cs) then 1 + numberLength c cs else 0 := by
  rw [numberLength, continuesNumber]
  by_cases hWord : (Text.continuesWord c || c == '.') = true
  · simp [hWord]
  · by_cases hSign : ((c == '+' || c == '-') && (last.toLower == 'e' || last.toLower == 'p')) = true
    · simp [hWord, hSign]
    · simp [hWord, hSign]

theorem numberLength_of_tail {last : Char} {text rest : List Char} (h : NumberTail last text rest) :
    numberLength last (text ++ rest) = text.length := by
  induction text generalizing last with
  | nil =>
      have hEnds : continuesNumber last rest = false := h
      cases rest with
      | nil => rfl
      | cons c cs => rw [List.nil_append, numberLength_cons, hEnds]; rfl
  | cons c text ih =>
      obtain ⟨hContinues, hTail⟩ := h
      rw [List.cons_append, numberLength_cons, ← List.cons_append, if_pos hContinues, ih hTail]
      simp
      omega

theorem wordLength_cons {c : Char} {cs : List Char} (h : ¬ ['\\', 'u'] <+: c :: cs)
    (hLong : ¬ ['\\', 'U'] <+: c :: cs) :
    wordLength (c :: cs) = if Text.continuesWord c then 1 + wordLength cs else 0 := by
  rw [wordLength]
  · rintro _ _ _ _ _ rfl rfl
    exact h ⟨_, rfl⟩
  · rintro _ _ _ _ _ _ _ _ _ rfl rfl
    exact hLong ⟨_, rfl⟩

theorem ne_backslash_of_continuesWord {c : Char} (h : Text.continuesWord c = true) : c ≠ '\\' := by
  rintro rfl
  revert h
  decide

theorem wordLength_of_all {word rest : List Char} (hWord : ∀ c ∈ word, Text.continuesWord c = true)
    (hRest : WordEnds rest) : wordLength (word ++ rest) = word.length := by
  induction word with
  | nil =>
      obtain ⟨hHead, hShort, hLong⟩ := hRest
      cases rest with
      | nil => rfl
      | cons c cs =>
          rw [List.nil_append, wordLength_cons hShort hLong, hHead c rfl]
          rfl
  | cons c word ih =>
      obtain ⟨hc, hMore⟩ := List.forall_mem_cons.mp hWord
      have hSlash := ne_backslash_of_continuesWord hc
      rw [List.cons_append, wordLength_cons, if_pos hc, ih hMore]
      · simp
        omega
      · exact fun hPrefix => hSlash (List.cons_prefix_cons.mp hPrefix).1.symm
      · exact fun hPrefix => hSlash (List.cons_prefix_cons.mp hPrefix).1.symm

section directives

variable {c : Char} {cs text rest : List Char} {mode : LineMode}

theorem ne_of_mem_quotes {quote other : Char} (h : quote ∈ ['"', '\''])
    (hOther : other ∉ ['"', '\'']) : quote ≠ other :=
  fun hEq => hOther (hEq ▸ h)

theorem plainLength_of_atLineEnd (hMode : mode ≠ .block) (h : AtLineEnd rest) :
    plainLength mode rest = 0 := by
  cases rest with
  | nil => cases mode <;> rfl
  | cons c cs =>
      obtain rfl : c = '\n' := h
      rw [plainLength]
      exact hMode

theorem plainLength_block {body : List Char} (h : BlockBody body) :
    plainLength .block (body ++ '*' :: '/' :: rest) =
      body.length + 2 + plainLength .plain rest := by
  induction body with
  | nil => simp [plainLength]
  | cons c body ih =>
      have hWord : ¬ ['*'] ++ ['/'] <:+: c :: body ++ ['*'] := h
      have hNot := not_isPrefixOf_of_absent hWord (List.cons_ne_nil c body) ('/' :: rest)
      rw [List.cons_append, plainLength, ih (not_infix_of_cons h), List.length_cons]
      · omega
      · rintro tail rfl hTail
        refine hNot ⟨tail, ?_⟩
        simp only [List.cons_append, List.nil_append, List.append_assoc] at hTail ⊢
        rw [hTail]

theorem plainLength_comment (hEnd : c ≠ '\n') (hJoin : ¬ JoinsLines c cs) :
    plainLength .comment (c :: cs) = 1 + plainLength .comment cs := by
  rw [plainLength]
  · exact not_return_of_not_joins hJoin
  · exact not_feed_of_not_joins hJoin
  · exact hEnd

theorem plainLength_quoted {quote : Char} (hSlash : c ≠ '\\') (hEnd : c ≠ '\n') :
    plainLength (.quoted quote) (c :: cs) =
      1 + plainLength (if c = quote then .plain else .quoted quote) cs := by
  rw [plainLength]
  · exact not_return_of_not_joins (not_joins_of_ne hSlash)
  · exact not_feed_of_not_joins (not_joins_of_ne hSlash)
  · exact hEnd
  · exact fun _ _ hEq => absurd hEq hSlash

theorem plainLength_plain (hEnd : c ≠ '\n') (hJoin : ¬ JoinsLines c cs)
    (hBlock : ¬ ['/', '*'] <+: c :: cs) (hComment : ¬ ['/', '/'] <+: c :: cs) :
    plainLength .plain (c :: cs) =
      1 + plainLength (if c = '"' || c = '\'' then .quoted c else .plain) cs := by
  rw [plainLength]
  · exact not_return_of_not_joins hJoin
  · exact not_feed_of_not_joins hJoin
  · exact hEnd
  · rintro tail rfl rfl
    exact hBlock ⟨tail, rfl⟩
  · rintro tail rfl rfl
    exact hComment ⟨tail, rfl⟩

theorem plainLength_of_tail (h : DirectiveTail mode text rest) :
    plainLength mode (text ++ rest) = text.length := by
  induction h with
  | done hMode hEnd => exact plainLength_of_atLineEnd hMode hEnd
  | join hMode _ ih =>
      rw [List.cons_append, List.cons_append, plainLength, ih, List.length_cons, List.length_cons]
      · omega
      · exact hMode
  | joinReturn hMode _ ih =>
      rw [List.cons_append, List.cons_append, List.cons_append, plainLength, ih]
      · simp only [List.length_cons]
        omega
      · exact hMode
  | commented hEnd hJoin _ ih =>
      rw [List.cons_append, plainLength_comment hEnd hJoin, ih, List.length_cons, Nat.add_comm]
  | escape hJoin _ ih =>
      rw [List.cons_append, List.cons_append, plainLength, ih, List.length_cons, List.length_cons]
      · omega
      · rintro tail rfl hTail
        exact hJoin ⟨rfl, Or.inr ⟨tail, congrArg ('\r' :: ·) hTail.symm⟩⟩
      · rintro rfl
        exact hJoin ⟨rfl, Or.inl rfl⟩
  | quoted hQuote hSlash hEnd _ ih =>
      rw [List.cons_append, plainLength_quoted hSlash hEnd, if_neg hQuote, ih, List.length_cons,
        Nat.add_comm]
  | unquote hQuote _ ih =>
      rw [List.cons_append, plainLength_quoted (ne_of_mem_quotes hQuote (by decide))
        (ne_of_mem_quotes hQuote (by decide)), if_pos rfl, ih, List.length_cons, Nat.add_comm]
  | @quote quote cs rest hQuote _ ih =>
      have hSlash : quote ≠ '/' := ne_of_mem_quotes hQuote (by decide)
      have hMark : (quote = '"' || quote = '\'' : Bool) = true := by simpa using hQuote
      rw [List.cons_append, plainLength_plain (ne_of_mem_quotes hQuote (by decide))
        (not_joins_of_ne (ne_of_mem_quotes hQuote (by decide))), if_pos hMark, ih, List.length_cons,
        Nat.add_comm]
      · exact fun hPrefix => hSlash (List.cons_prefix_cons.mp hPrefix).1.symm
      · exact fun hPrefix => hSlash (List.cons_prefix_cons.mp hPrefix).1.symm
  | @block body cs rest hBody _ ih =>
      have hClosed : (blockLength? (body ++ '*' :: '/' :: (cs ++ rest))).isSome = true := by
        rw [blockLength?_of_body hBody]
        rfl
      simp only [List.cons_append, List.append_assoc]
      rw [plainLength, if_pos hClosed, plainLength_block hBody, ih]
      simp only [List.length_cons, List.length_append]
      omega
  | comment _ ih =>
      rw [List.cons_append, List.cons_append, plainLength, ih, List.length_cons, List.length_cons]
      omega
  | @char c cs rest hOther hJoin hBlock hComment _ ih =>
      simp only [List.mem_cons, List.not_mem_nil, or_false, not_or] at hOther
      obtain ⟨hEnd, hDouble, hSingle⟩ := hOther
      rw [List.cons_append, plainLength_plain hEnd hJoin hBlock hComment,
        if_neg (by simp [hDouble, hSingle]), ih, List.length_cons, Nat.add_comm]

theorem replacementLength_char (hEnd : c ≠ '\n') (hSlash : c ≠ '/') (hJoin : ¬ JoinsLines c cs) :
    replacementLength (c :: cs) = 1 + replacementLength cs := by
  rw [replacementLength]
  · exact not_return_of_not_joins hJoin
  · exact not_feed_of_not_joins hJoin
  · exact hEnd
  · exact fun _ hEq => absurd hEq hSlash
  · exact fun _ _ hEq => absurd hEq hSlash

theorem replacementLength_of_tail (h : ReplacementTail text rest) :
    replacementLength (text ++ rest) = text.length := by
  induction h with
  | @done rest hEnd =>
      cases rest with
      | nil => rfl
      | cons c cs =>
          obtain rfl : c = '\n' := hEnd
          rw [List.nil_append, replacementLength]
          rfl
  | join _ ih => simp [replacementLength, ih]; omega
  | joinReturn _ ih => simp [replacementLength, ih]; omega
  | @block body cs rest hBody hTail =>
      have hLine := plainLength_of_tail (.block hBody hTail)
      simp only [List.cons_append, List.append_assoc] at hLine ⊢
      rw [replacementLength, hLine]
  | slash hOther _ ih =>
      simp only [List.mem_cons, List.not_mem_nil, or_false, not_or] at hOther
      rw [List.cons_append, List.cons_append, replacementLength, ih, List.length_cons,
        List.length_cons]
      · omega
      · exact hOther.1
  | char hOther hJoin _ ih =>
      simp only [List.mem_cons, List.not_mem_nil, or_false, not_or] at hOther
      rw [List.cons_append, replacementLength_char hOther.2 hOther.1 hJoin, ih, List.length_cons,
        Nat.add_comm]

end directives

end Simgen.Source
