import Simgen.Proofs.Markup.Document

/-! How far a token reaches. Each step of the reader takes some characters and would take the same
ones whatever came behind them, with two exceptions: a piece of text goes on up to the next markup,
and a tag that the document cuts off ends there. -/
namespace Simgen.Markup

/-- The token is a piece of text. -/
def Token.IsText (t : Token) : Prop := ∃ raw, t = .text raw

/-- What markup is delivered as, with the elements that are open before and behind it. -/
inductive Token.Marks : Token → List String → List String → Prop where
  | opening (name : String) (opened : List String) : Marks (.opening name) opened (name :: opened)
  | closing (name : String) (opened : List String) : Marks .closing (name :: opened) opened
  | empty (name : String) (opened : List String) : Marks (.empty name) opened opened
  | characterData (raw : List Char) (opened : List String) :
      Marks (.characterData raw) opened opened
  | skipped (opened : List String) : Marks .skipped opened opened

theorem Token.Marks.not_isText {t : Token} {before after : List String}
    (h : t.Marks before after) : ¬ t.IsText := by
  rintro ⟨raw, rfl⟩
  cases h

/-- A cut does not depend on what stands behind it. -/
theorem cutAt_eq_some {ends : List Char → Bool} {before cs content rest : List Char}
    (h : cutAt ends before cs = some (content, rest)) :
    ∃ inner, content = before.reverse ++ inner ∧ cs = inner ++ '>' :: rest ∧
      ∀ other, cutAt ends before (inner ++ '>' :: other) = some (content, other) := by
  induction cs generalizing before with
  | nil => cases h
  | cons c cs ih =>
      rw [cutAt] at h
      split at h
      next hEnds =>
        cases h
        obtain ⟨hEnd, -⟩ := Bool.and_eq_true_iff.mp hEnds
        obtain rfl := of_decide_eq_true hEnd
        refine ⟨[], (List.append_nil _).symm, rfl, fun other => ?_⟩
        rw [List.nil_append, cutAt, if_pos hEnds]
      next hGoOn =>
        obtain ⟨inner, rfl, rfl, hOther⟩ := ih h
        refine ⟨c :: inner, by simp, rfl, fun other => ?_⟩
        rw [List.cons_append, cutAt, if_neg hGoOn, hOther]

theorem cutTag_eq_some {quote : Option Char} {before cs content rest : List Char}
    (h : cutTag quote before cs = some (content, rest)) :
    ∃ inner, content = before.reverse ++ inner ∧ cs = inner ++ '>' :: rest ∧
      ∀ other, cutTag quote before (inner ++ '>' :: other) = some (content, other) := by
  induction cs generalizing quote before with
  | nil => cases h
  | cons c cs ih =>
      cases quote with
      | some q =>
          rw [cutTag] at h
          obtain ⟨inner, rfl, rfl, hOther⟩ := ih h
          refine ⟨c :: inner, by simp, rfl, fun other => ?_⟩
          rw [List.cons_append, cutTag, hOther]
      | none =>
          rw [cutTag] at h
          split at h
          next hEnd =>
            cases h
            subst hEnd
            refine ⟨[], (List.append_nil _).symm, rfl, fun other => ?_⟩
            rw [List.nil_append, cutTag, if_pos rfl]
          next hGoOn =>
            obtain ⟨inner, rfl, rfl, hOther⟩ := ih h
            refine ⟨c :: inner, by simp, rfl, fun other => ?_⟩
            rw [List.cons_append, cutTag, if_neg hGoOn, hOther]

namespace Reader

/-- Reading with `read` takes some characters for the token. It would take the same ones if `rest`
came behind them instead, wherever the reader stands; only where it came to the end of the
document, the end may matter. -/
def Local (read : Reader → Step) (r : Reader) (t : Token) (next : Reader) : Prop :=
  ∃ taken, taken ≠ [] ∧ r.rest = taken ++ next.rest ∧
    ∀ rest, (next.rest = [] → rest = []) → ∀ offset, ∃ behind,
      read ⟨taken ++ rest, offset, r.opened⟩ = .token t ⟨rest, behind, next.opened⟩

variable {r next : Reader} {t : Token}

/-- How to read is decided by the first character. -/
theorem Local.of_head {f g : Reader → Step} (h : Local g r t next)
    (hSame : ∀ r' : Reader, r'.rest.head? = r.rest.head? → f r' = g r') : Local f r t next := by
  obtain ⟨taken, hNil, hRest, hTakes⟩ := h
  refine ⟨taken, hNil, hRest, fun rest hEnd offset => ?_⟩
  rw [hSame]
  · exact hTakes rest hEnd offset
  · rw [hRest, List.head?_append_of_ne_nil _ hNil, List.head?_append_of_ne_nil _ hNil]

/-- What begins with `!` is cut behind its first two characters. -/
theorem bang_eq_token {construct : String} {ends : List Char → Bool}
    {accept : List Char → Except ReadFault Token} {c d : Char} {more : List Char}
    (hRest : r.rest = c :: d :: more) (hc : c ≠ '>') (hd : d ≠ '>')
    (h : r.bang construct ends accept = .token t next) :
    ∃ inner, r.rest = c :: d :: inner ++ '>' :: next.rest ∧ accept (c :: d :: inner) = .ok t ∧
      next.opened = r.opened ∧ ∀ rest offset, ∃ behind,
        bang ⟨c :: d :: inner ++ '>' :: rest, offset, r.opened⟩ construct ends accept =
          .token t ⟨rest, behind, next.opened⟩ := by
  unfold bang at h
  split at h
  · cases h
  next content rest hCut =>
    dsimp only at h
    split at h
    next token hAccept =>
      cases h
      obtain ⟨_, rfl, hSplit, hOther⟩ := cutAt_eq_some hCut
      rw [hRest] at hSplit
      -- Neither of the two is the `>` that ends the construct.
      obtain ⟨inner, rfl⟩ : ∃ inner, content = c :: d :: inner := by
        rcases content with _ | ⟨c', _ | ⟨d', inner⟩⟩
        · exact absurd (List.cons.inj hSplit).1 hc
        · exact absurd (List.cons.inj (List.cons.inj hSplit).2).1 hd
        · obtain ⟨rfl, hTail⟩ := List.cons.inj hSplit
          obtain ⟨rfl, -⟩ := List.cons.inj hTail
          exact ⟨inner, rfl⟩
      refine ⟨inner, hRest.trans hSplit, hAccept, rfl, fun other offset => ?_⟩
      simp only [bang, hOther, hAccept]
      exact ⟨_, rfl⟩
    · cases h

theorem declaration_of_bang {construct : String} {ends : List Char → Bool}
    {accept : List Char → Except ReadFault Token} {d : Char} {more : List Char}
    (hRest : r.rest = '!' :: d :: more) (hd : d ≠ '>')
    (hRead : ∀ more offset opened, declaration ⟨'!' :: d :: more, offset, opened⟩ =
      bang ⟨'!' :: d :: more, offset, opened⟩ construct ends accept)
    (hAccept : ∀ content t opened, accept content = .ok t → t.Marks opened opened)
    (h : r.declaration = .token t next) :
    Local declaration r t next ∧ t.Marks r.opened next.opened := by
  obtain ⟨rest, offset, opened⟩ := r
  cases hRest
  rw [hRead] at h
  obtain ⟨inner, hSplit, hToken, hOpened, hTakes⟩ := bang_eq_token rfl (by decide) hd h
  have hMarks : t.Marks opened next.opened := by
    rw [hOpened]
    exact hAccept _ _ _ hToken
  refine ⟨⟨'!' :: d :: inner ++ ['>'], by simp, by simpa using hSplit, ?_⟩, hMarks⟩
  intro other _ offset
  have hText : '!' :: d :: inner ++ ['>'] ++ other = '!' :: d :: (inner ++ '>' :: other) := by simp
  rw [hText, hRead]
  exact hTakes other offset

theorem marks_of_acceptComment (content : List Char) (t : Token) (opened : List String)
    (h : acceptComment content = .ok t) : t.Marks opened opened := by
  unfold acceptComment at h
  split at h
  · cases h
    exact .skipped opened
  · cases h

theorem marks_of_acceptCharacterData (content : List Char) (t : Token) (opened : List String)
    (h : acceptCharacterData content = .ok t) : t.Marks opened opened := by
  unfold acceptCharacterData at h
  split at h
  · cases h
    exact .characterData _ opened
  · cases h

theorem marks_of_acceptDoctype (content : List Char) (t : Token) (opened : List String)
    (h : acceptDoctype content = .ok t) : t.Marks opened opened := by
  unfold acceptDoctype at h
  split at h
  · split at h
    · cases h
    · cases h
      exact .skipped opened
  · cases h

/-- The character behind `!` decides what is read. -/
theorem local_declaration {more : List Char} (hRest : r.rest = '!' :: more)
    (h : r.declaration = .token t next) :
    Local declaration r t next ∧ t.Marks r.opened next.opened := by
  have hCases := h
  unfold declaration at hCases
  rw [hRest] at hCases
  split at hCases
  next hChars =>
    cases hChars
    exact declaration_of_bang hRest (by decide) (fun _ _ _ => rfl)
      marks_of_acceptCharacterData h
  next hChars =>
    cases hChars
    exact declaration_of_bang hRest (by decide) (fun _ _ _ => rfl) marks_of_acceptComment h
  next hChars =>
    cases hChars
    exact declaration_of_bang hRest (by decide) (fun _ _ _ => rfl) marks_of_acceptDoctype h
  next hChars =>
    cases hChars
    exact declaration_of_bang hRest (by decide) (fun _ _ _ => rfl) marks_of_acceptDoctype h
  · cases hCases
  · cases hCases

theorem local_piece (hRest : r.rest ≠ []) :
    ∃ taken, taken ≠ [] ∧ r.rest = taken ++ r.piece.2.rest ∧ r.piece.2.opened = r.opened ∧
      ∀ rest, (r.piece.2.rest = [] → rest = []) → ∀ offset, ∃ behind,
        piece ⟨taken ++ rest, offset, r.opened⟩ = (r.piece.1, ⟨rest, behind, r.opened⟩) := by
  unfold piece
  split
  next content rest hCut =>
    obtain ⟨_, rfl, hSplit, hOther⟩ := cutAt_eq_some hCut
    refine ⟨content ++ ['>'], by simp, by simpa [past] using hSplit, rfl, fun other _ offset => ?_⟩
    have hText : content ++ ['>'] ++ other = content ++ '>' :: other := by simp
    simp only [hText, hOther]
    exact ⟨_, rfl⟩
  next hNone =>
    refine ⟨r.rest, hRest, by simp [past], rfl, fun other hEnd offset => ?_⟩
    obtain rfl := hEnd rfl
    simp only [List.append_nil, hNone]
    exact ⟨_, rfl⟩

theorem local_closingTag (hRest : r.rest ≠ []) (h : r.closingTag = .token t next) :
    Local closingTag r t next ∧ t.Marks r.opened next.opened := by
  obtain ⟨taken, hNil, hSplit, hOpened, hTakes⟩ := local_piece hRest
  unfold closingTag at h
  dsimp only at h
  split at h
  · cases h
  next expected outer hOuter =>
    split at h
    next hName =>
      cases h
      refine ⟨⟨taken, hNil, hSplit, fun rest hEnd offset => ?_⟩, ?_⟩
      · obtain ⟨behind, hPiece⟩ := hTakes rest hEnd offset
        rw [hOuter] at hPiece ⊢
        simp only [closingTag, hPiece, if_pos hName]
        exact ⟨_, rfl⟩
      · rw [hOuter]
        exact .closing expected outer
    · cases h

theorem local_instruction (hRest : r.rest ≠ []) (h : r.instruction = .token t next) :
    Local instruction r t next ∧ t.Marks r.opened next.opened := by
  obtain ⟨taken, hNil, hSplit, hOpened, hTakes⟩ := local_piece hRest
  unfold instruction at h
  dsimp only at h
  split at h
  next hWhole =>
    cases h
    refine ⟨⟨taken, hNil, hSplit, fun rest hEnd offset => ?_⟩, ?_⟩
    · obtain ⟨behind, hPiece⟩ := hTakes rest hEnd offset
      simp only [instruction, hPiece, if_pos hWhole, hOpened]
      exact ⟨_, rfl⟩
    · rw [hOpened]
      exact .skipped _
  · cases h

theorem local_tag (h : r.tag = .token t next) :
    Local tag r t next ∧ t.Marks r.opened next.opened := by
  unfold tag at h
  split at h
  · cases h
  next content rest hCut =>
    obtain ⟨_, rfl, hSplit, hOther⟩ := cutTag_eq_some hCut
    have hText : ∀ other, content ++ ['>'] ++ other = content ++ '>' :: other := by simp
    dsimp only at h
    split at h
    next hSlash =>
      cases h
      refine ⟨⟨content ++ ['>'], by simp, by simpa [past] using hSplit,
        fun other _ offset => ?_⟩, ?_⟩
      · simp only [tag, hText, hOther, if_pos hSlash]
        exact ⟨_, rfl⟩
      · exact .empty _ _
    next hOpen =>
      cases h
      refine ⟨⟨content ++ ['>'], by simp, by simpa [past] using hSplit,
        fun other _ offset => ?_⟩, ?_⟩
      · simp only [tag, hText, hOther, if_neg hOpen]
        exact ⟨_, rfl⟩
      · exact .opening _ _

theorem local_markup (h : r.markup = .token t next) :
    Local markup r t next ∧ t.Marks r.opened next.opened := by
  have hHead : ∀ {c : Char} {more : List Char}, r.rest = c :: more →
      ∀ r' : Reader, r'.rest.head? = r.rest.head? → ∃ more', r'.rest = c :: more' := by
    intro c more hRest r' hSame
    rw [hRest] at hSame
    exact List.head?_eq_some_iff.mp hSame
  have hCases := h
  unfold markup at hCases
  split at hCases
  · cases hCases
  next more hRest =>
    obtain ⟨hLocal, hMarks⟩ := local_declaration hRest hCases
    refine ⟨hLocal.of_head fun r' hSame => ?_, hMarks⟩
    obtain ⟨more', hMore⟩ := hHead hRest r' hSame
    rw [markup, hMore]
    rfl
  next more hRest =>
    obtain ⟨hLocal, hMarks⟩ := local_closingTag (by simp [hRest]) hCases
    refine ⟨hLocal.of_head fun r' hSame => ?_, hMarks⟩
    obtain ⟨more', hMore⟩ := hHead hRest r' hSame
    rw [markup, hMore]
    rfl
  next more hRest =>
    obtain ⟨hLocal, hMarks⟩ := local_instruction (by simp [hRest]) hCases
    refine ⟨hLocal.of_head fun r' hSame => ?_, hMarks⟩
    obtain ⟨more', hMore⟩ := hHead hRest r' hSame
    rw [markup, hMore]
    rfl
  next hNil hBang hSlash hQuestion =>
    obtain ⟨hLocal, hMarks⟩ := local_tag hCases
    refine ⟨hLocal.of_head fun r' hSame => ?_, hMarks⟩
    obtain ⟨c, more, hRest⟩ := List.exists_cons_of_ne_nil hNil
    obtain ⟨more', hMore⟩ := hHead hRest r' hSame
    refine markup_of_plain hMore ?_ ?_ ?_
    · rintro rfl; exact hBang _ hRest
    · rintro rfl; exact hSlash _ hRest
    · rintro rfl; exact hQuestion _ hRest

theorem step_gap {gap : List Char} (hGap : ∀ c ∈ gap, isSpace c = true) (rest : List Char)
    (offset : Nat) (opened : List String) :
    step ⟨gap ++ rest, offset, opened⟩ = step ⟨rest, offset + gap.length, opened⟩ := by
  induction gap generalizing offset with
  | nil => rfl
  | cons c gap ih =>
      obtain ⟨hc, hRest⟩ := List.forall_mem_cons.mp hGap
      rw [List.cons_append, step_space hc, ih hRest, List.length_cons, Nat.add_assoc,
        Nat.add_comm 1]

/-- White space, and behind it what the reader looks at. -/
theorem exists_gap (cs : List Char) :
    ∃ gap body, cs = gap ++ body ∧ (∀ c ∈ gap, isSpace c = true) ∧
      ∀ c ∈ body.head?, isSpace c = false := by
  refine ⟨cs.takeWhile isSpace, cs.dropWhile isSpace, List.takeWhile_append_dropWhile.symm, ?_, ?_⟩
  · exact fun c hc => List.mem_takeWhile_imp hc
  · exact Text.dropWhile_eq_self_iff_head?.mp (List.dropWhile_idempotent _ _)

/-- What is no markup is read as a piece of text. -/
theorem textPiece_eq_token {c : Char} {cs : List Char} (hRest : r.rest = c :: cs)
    (hSpace : isSpace c = false) (hLt : c ≠ '<') (h : r.textPiece = .token t next) :
    ∃ raw trail, t = .text raw ∧ r.rest = raw ++ trail ++ next.rest ∧
      (∀ c ∈ trail, isSpace c = true) ∧ IsPiece raw ∧ (∀ c ∈ next.rest.head?, c = '<') ∧
      next.opened = r.opened := by
  unfold textPiece at h
  cases h
  have hTrail : r.rest.takeWhile (· ≠ '<') =
      Text.dropEndWhile isSpace (r.rest.takeWhile (· ≠ '<')) ++
        (r.rest.takeWhile (· ≠ '<')).rtakeWhile isSpace :=
    List.rdropWhile_append_rtakeWhile.symm
  have hSpaces : ∀ c ∈ (r.rest.takeWhile (· ≠ '<')).rtakeWhile isSpace, isSpace c = true :=
    fun c hc => List.mem_rtakeWhile_imp hc
  have hLast : ∀ c ∈ (Text.dropEndWhile isSpace (r.rest.takeWhile (· ≠ '<'))).getLast?,
      isSpace c = false :=
    Text.dropEndWhile_eq_self_iff.mp (List.rdropWhile_idempotent _ _)
  generalize Text.dropEndWhile isSpace (r.rest.takeWhile (· ≠ '<')) = raw at hTrail hLast ⊢
  generalize (r.rest.takeWhile (· ≠ '<')).rtakeWhile isSpace = trail at hTrail hSpaces
  have hTake : r.rest.takeWhile (· ≠ '<') = c :: cs.takeWhile (· ≠ '<') := by
    rw [hRest, List.takeWhile_cons_of_pos (by simpa using hLt)]
  have hNil : raw ≠ [] := by
    rintro rfl
    rw [List.nil_append] at hTrail
    have hFirst := hSpaces c (by rw [← hTrail, hTake]; exact List.mem_cons_self)
    rw [hSpace] at hFirst
    cases hFirst
  refine ⟨raw, trail, rfl, ?_, hSpaces, ⟨hNil, ?_, ?_, hLast⟩, ?_, rfl⟩
  · rw [← hTrail]
    exact List.takeWhile_append_dropWhile.symm
  · intro hIn
    have hTaken : '<' ∈ r.rest.takeWhile (· ≠ '<') := by
      rw [hTrail]
      exact List.mem_append_left _ hIn
    simpa using List.mem_takeWhile_imp hTaken
  · intro d hd
    have hHead : (raw ++ trail).head? = some c := by
      rw [← hTrail, hTake]
      rfl
    rw [List.head?_append_of_ne_nil _ hNil] at hHead
    cases hd.symm.trans hHead
    exact hSpace
  · intro d hd
    have hStop := Text.dropWhile_eq_self_iff_head?.mp
      (List.dropWhile_idempotent (fun x => decide (x ≠ '<')) r.rest) d hd
    simpa using hStop

/-- A piece of text stands between white space, and markup or the end comes behind it. -/
theorem step_eq_token (h : r.step = .token t next) :
    ∃ lead body, r.rest = lead ++ body ∧ (∀ c ∈ lead, isSpace c = true) ∧
      ((∃ inner, body = '<' :: inner ∧ ∃ offset,
          markup ⟨inner, offset, r.opened⟩ = .token t next) ∨
        ∃ raw trail, t = .text raw ∧ body = raw ++ trail ++ next.rest ∧
          (∀ c ∈ trail, isSpace c = true) ∧ IsPiece raw ∧ (∀ c ∈ next.rest.head?, c = '<') ∧
          next.opened = r.opened) := by
  obtain ⟨lead, body, hSplit, hLead, hBody⟩ := exists_gap r.rest
  obtain ⟨rest, offset, opened⟩ := r
  dsimp only at hSplit
  subst hSplit
  rw [step_gap hLead] at h
  refine ⟨lead, body, rfl, hLead, ?_⟩
  cases body with
  | nil => cases h
  | cons c cs =>
      by_cases hLt : c = '<'
      · subst hLt
        rw [step_of_lt] at h
        exact Or.inl ⟨cs, rfl, _, h⟩
      · have hSpace : isSpace c = false := hBody c rfl
        rw [step_of_plain rfl hSpace hLt] at h
        exact Or.inr (textPiece_eq_token rfl hSpace hLt h)

/-- Every step is local, but a piece of text must be followed by markup or the end. -/
theorem step_local (h : r.step = .token t next) :
    ∃ taken, taken ≠ [] ∧ r.rest = taken ++ next.rest ∧
      ∀ rest, (next.rest = [] → rest = []) → (t.IsText → ∀ c ∈ rest.head?, c = '<') →
        ∀ offset, ∃ behind,
          step ⟨taken ++ rest, offset, r.opened⟩ = .token t ⟨rest, behind, next.opened⟩ := by
  obtain ⟨lead, body, hSplit, hLead, hCases⟩ := step_eq_token h
  rcases hCases with ⟨inner, rfl, offset, hMarkup⟩ |
    ⟨raw, trail, rfl, rfl, hTrail, hRaw, -, hOpened⟩
  · obtain ⟨⟨taken, -, rfl, hTakes⟩, -⟩ := local_markup hMarkup
    refine ⟨lead ++ '<' :: taken, by simp, by simpa using hSplit, fun rest hEnd _ offset => ?_⟩
    obtain ⟨behind, hRead⟩ := hTakes rest hEnd (offset + lead.length + 1)
    refine ⟨behind, ?_⟩
    rw [List.append_assoc, step_gap hLead, List.cons_append, step_of_lt]
    exact hRead
  · refine ⟨lead ++ (raw ++ trail), by simp [hRaw.ne_nil], by simpa using hSplit,
      fun rest _ hText offset => ?_⟩
    obtain ⟨behind, hRead⟩ := step_piece hRaw hTrail (hText ⟨raw, rfl⟩) (offset + lead.length)
      r.opened
    refine ⟨behind + trail.length, ?_⟩
    rw [List.append_assoc, step_gap hLead, hRead, hOpened]

theorem markup_ended (h : r.markup = .ended) : r.rest = [] := by
  have hBang : ∀ construct ends accept, r.bang construct ends accept ≠ .ended := by
    intro construct ends accept hEnded
    unfold bang at hEnded
    split at hEnded
    · cases hEnded
    · dsimp only at hEnded
      split at hEnded <;> cases hEnded
  unfold markup at h
  split at h
  next hNil => exact hNil
  · unfold declaration at h
    split at h
    · exact absurd h (hBang _ _ _)
    · exact absurd h (hBang _ _ _)
    · exact absurd h (hBang _ _ _)
    · exact absurd h (hBang _ _ _)
    · cases h
    · cases h
  · unfold closingTag at h
    dsimp only at h
    split at h
    · cases h
    · split at h <;> cases h
  · unfold instruction at h
    dsimp only at h
    split at h <;> cases h
  · unfold tag at h
    split at h
    · cases h
    · dsimp only at h
      split at h <;> cases h

/-- Whether the document has ended does not depend on where the reader stands. -/
theorem step_ended {rest : List Char} {offset : Nat} {opened : List String}
    (h : step ⟨rest, offset, opened⟩ = .ended) (other : Nat) (others : List String) :
    step ⟨rest, other, others⟩ = .ended := by
  obtain ⟨gap, body, rfl, hGap, hBody⟩ := exists_gap rest
  rw [step_gap hGap] at h ⊢
  cases body with
  | nil => rfl
  | cons c cs =>
      by_cases hLt : c = '<'
      · subst hLt
        rw [step_of_lt] at h ⊢
        obtain rfl : cs = [] := markup_ended h
        rfl
      · rw [step_of_plain rfl (hBody c rfl) hLt] at h
        cases h

end Reader

/-- The reader gets from one place to another and delivers these tokens on its way. -/
inductive Reads : Reader → List Token → Reader → Prop where
  | refl (r : Reader) : Reads r [] r
  | step {r next last : Reader} {t : Token} {ts : List Token} (hStep : r.step = .token t next)
      (hRest : Reads next ts last) : Reads r (t :: ts) last

namespace Reads

variable {r last : Reader} {ts : List Token}

theorem append {middle : Reader} {us : List Token} (hFirst : Reads r ts middle)
    (hSecond : Reads middle us last) : Reads r (ts ++ us) last := by
  induction hFirst with
  | refl => exact hSecond
  | step hStep _ ih => exact .step hStep (ih hSecond)

theorem of_append {us : List Token} (h : Reads r (ts ++ us) last) :
    ∃ middle, Reads r ts middle ∧ Reads middle us last := by
  induction ts generalizing r with
  | nil => exact ⟨r, .refl r, h⟩
  | cons t ts ih =>
      cases h with
      | step hStep hRest =>
          obtain ⟨middle, hFirst, hSecond⟩ := ih hRest
          exact ⟨middle, .step hStep hFirst, hSecond⟩

/-- Behind a piece of text stands markup, if anything. -/
theorem head?_of_text {raw : List Char} (h : Reads r (ts ++ [.text raw]) last) :
    ∀ c ∈ last.rest.head?, c = '<' := by
  obtain ⟨middle, -, hLast⟩ := h.of_append
  cases hLast with
  | step hStep hRest =>
      cases hRest
      obtain ⟨_, _, -, -, hCases⟩ := Reader.step_eq_token hStep
      rcases hCases with ⟨_, -, _, hMarkup⟩ | ⟨_, _, -, -, -, -, hNext, -⟩
      · exact absurd ⟨raw, rfl⟩ (Reader.local_markup hMarkup).2.not_isText
      · exact hNext

/-- A run takes some characters, and would take the same ones if something else came behind them:
what one step allows, a run allows. -/
theorem local_run (h : Reads r ts last) :
    ∃ taken, r.rest = taken ++ last.rest ∧ (taken = [] → ts = []) ∧
      ∀ rest, (last.rest = [] → rest = []) →
        (∀ us raw, ts = us ++ [.text raw] → ∀ c ∈ rest.head?, c = '<') → ∀ offset, ∃ behind,
          Reads ⟨taken ++ rest, offset, r.opened⟩ ts ⟨rest, behind, last.opened⟩ := by
  induction h with
  | refl r => exact ⟨[], rfl, fun _ => rfl, fun rest _ _ offset => ⟨offset, .refl _⟩⟩
  | @step r next last t ts hStep hRest ih =>
      obtain ⟨first, hFirst, hSplit, hTakes⟩ := Reader.step_local hStep
      obtain ⟨others, hOthers, hNone, hRun⟩ := ih
      refine ⟨first ++ others, by rw [hSplit, hOthers, List.append_assoc], by simp [hFirst], ?_⟩
      intro rest hEnd hText offset
      have hNext : t.IsText → ∀ c ∈ (others ++ rest).head?, c = '<' := by
        rintro ⟨raw, rfl⟩
        cases others with
        | nil => exact hText [] raw (by rw [hNone rfl, List.nil_append])
        | cons d others =>
            have hSingle : Reads r ([] ++ [.text raw]) next := .step hStep (.refl next)
            have hHead := hSingle.head?_of_text
            rwa [hOthers] at hHead
      have hWhole : next.rest = [] → others ++ rest = [] := by
        rw [hOthers]
        intro hNil
        obtain ⟨rfl, hLast⟩ := List.append_eq_nil_iff.mp hNil
        exact hEnd hLast
      obtain ⟨between, hRead⟩ := hTakes (others ++ rest) hWhole hNext offset
      obtain ⟨behind, hMore⟩ := hRun rest hEnd
        (fun us raw hLast => hText (t :: us) raw (by rw [hLast, List.cons_append])) between
      refine ⟨behind, ?_⟩
      rw [List.append_assoc]
      exact .step hRead hMore

end Reads

section build

variable {r last : Reader} {ts : List Token}

theorem build_of_token {next : Reader} {t : Token} (hStep : r.step = .token t next) (b : Builder) :
    build r b = b.add t >>= build next := by
  cases hAdd : b.add t with
  | ok b' => exact build_of_step hStep hAdd
  | error fault =>
      rw [build]
      split
      next hEnded => rw [hStep] at hEnded; cases hEnded
      next hFailed => rw [hStep] at hFailed; cases hFailed
      next hToken =>
        rw [hStep] at hToken
        cases hToken
        rw [hAdd]
        rfl

/-- The tree takes in the tokens of a run one after another. -/
theorem build_of_reads (h : Reads r ts last) (b : Builder) :
    build r b = ts.foldlM Builder.add b >>= build last := by
  induction h generalizing b with
  | refl r => rfl
  | step hStep _ ih =>
      rw [build_of_token hStep, List.foldlM_cons, bind_assoc]
      congr 1
      funext next
      exact ih next

theorem build_of_reads_ended (h : Reads r ts last) (hEnded : last.step = .ended) (b : Builder) :
    build r b = ts.foldlM Builder.add b >>= Builder.finish := by
  rw [build_of_reads h]
  congr 1
  funext next
  exact build_of_ended hEnded next

theorem parse_of_reads {document : String} (h : Reads (Reader.ofText document) ts last)
    (hEnded : last.step = .ended) :
    Element.parse document = ts.foldlM Builder.add Builder.start >>= Builder.finish :=
  build_of_reads_ended h hEnded Builder.start

/-- Wherever the reader stands, these tokens are what is left to be delivered. -/
def Delivers (rest : List Char) (opened : List String) (ts : List Token) : Prop :=
  ∀ offset, ∃ last, Reads ⟨rest, offset, opened⟩ ts last ∧ last.step = .ended

theorem build_of_delivers {rest : List Char} {opened : List String}
    (h : Delivers rest opened ts) (offset : Nat) (b : Builder) :
    build ⟨rest, offset, opened⟩ b = ts.foldlM Builder.add b >>= Builder.finish := by
  obtain ⟨last, hReads, hEnded⟩ := h offset
  exact build_of_reads_ended hReads hEnded b

/-- A tree that is finished has taken in all tokens up to the end of the document. -/
theorem exists_reads_of_build {b : Builder} {root : Element} (h : build r b = .ok root) :
    ∃ ts last, Reads r ts last ∧ last.step = .ended := by
  induction hLength : r.rest.length using Nat.strong_induction_on generalizing r b with
  | _ n ih =>
      cases hStep : r.step with
      | ended => exact ⟨[], r, .refl r, hStep⟩
      | failed offset fault =>
          rw [build] at h
          split at h
          next hEnded => rw [hStep] at hEnded; cases hEnded
          next => cases h
          next hToken => rw [hStep] at hToken; cases hToken
      | token t next =>
          rw [build_of_token hStep] at h
          obtain ⟨b', -, hRest⟩ := bind_eq_ok_iff.mp h
          have hShorter := Reader.step_rest_length hStep
          obtain ⟨ts, last, hReads, hEnded⟩ := ih _ (hLength ▸ hShorter) hRest rfl
          exact ⟨t :: ts, last, .step hStep hReads, hEnded⟩

theorem exists_delivers_of_build {rest : List Char} {offset : Nat} {opened : List String}
    {b : Builder} {root : Element} (h : build ⟨rest, offset, opened⟩ b = .ok root) :
    ∃ ts, Delivers rest opened ts := by
  obtain ⟨ts, last, hReads, hEnded⟩ := exists_reads_of_build h
  obtain ⟨taken, hSplit, -, hRun⟩ := hReads.local_run
  refine ⟨ts, fun offset => ?_⟩
  obtain ⟨behind, hMoved⟩ := hRun last.rest id
    (fun us raw hLast => (hLast ▸ hReads).head?_of_text) offset
  dsimp only at hSplit
  rw [hSplit]
  exact ⟨_, hMoved, Reader.step_ended hEnded behind last.opened⟩

end build

end Simgen.Markup
