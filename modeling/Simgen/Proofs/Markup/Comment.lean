import Simgen.Proofs.Markup.Locality

/-! Taking a comment out of a document. The tree stays as it is, unless the comment parts a text:
white space next to the comment is then at the end of a piece, where it does not count, but within
the text once the comment is gone. -/
namespace Simgen.Markup

section unescape

theorem referent_moved {start stop : Nat} {name : List Char} {c : Char}
    (h : referent start stop name = .ok c) (start' stop' : Nat) :
    referent start' stop' name = .ok c := by
  unfold referent at h ⊢
  split at h
  next number =>
    obtain ⟨code, hCode, hChar⟩ := bind_eq_ok_iff.mp h
    refine bind_eq_ok_iff.mpr ⟨code, hCode, ?_⟩
    split at hChar
    · cases hChar
    next hNull => rwa [if_neg hNull]
  next hNumber =>
    split at h
    · exact h
    · exact h
    · exact h
    · exact h
    · exact h
    · cases h

theorem map_cons_map_append {ε : Type} (c : Char) (text : List Char) (x : Except ε (List Char)) :
    (c :: ·) <$> (text ++ ·) <$> x = (c :: text ++ ·) <$> x := by
  cases x with
  | error e => rfl
  | ok rest => rfl

/-- What is read without fault is read the same wherever it stands and whatever follows it. -/
theorem expand_append {size i : Nat} {state : Option (Nat × List Char)} {cs text : List Char}
    (h : expand size state i cs = .ok text) (size' start' i' : Nat) (more : List Char) :
    ∃ j, expand size' (state.map fun s => (start', s.2)) i' (cs ++ more) =
      (text ++ ·) <$> expand size' none j more := by
  induction cs generalizing state i start' i' text with
  | nil =>
      cases state with
      | none =>
          cases h
          exact ⟨i', (id_map _).symm⟩
      | some s => cases h
  | cons c cs ih =>
      rcases state with _ | ⟨start, name⟩
      · rw [expand] at h
        rw [List.cons_append, Option.map_none, expand]
        split at h
        next hAmp =>
          rw [if_pos hAmp]
          exact ih h i' (i' + 1)
        next hAmp =>
          obtain ⟨rest, hRest, rfl⟩ := map_eq_ok_iff.mp h
          obtain ⟨j, hMore⟩ := ih hRest start' (i' + c.utf8Size)
          refine ⟨j, ?_⟩
          rw [if_neg hAmp, ← map_cons_map_append, ← hMore]
          rfl
      · rw [expand] at h
        rw [List.cons_append, Option.map_some, expand]
        split at h
        · cases h
        next hAmp =>
          rw [if_neg hAmp]
          split at h
          next hEnd =>
            obtain ⟨decoded, hDecoded, hRest⟩ := bind_eq_ok_iff.mp h
            obtain ⟨rest, hExpand, rfl⟩ := map_eq_ok_iff.mp hRest
            obtain ⟨j, hMore⟩ := ih hExpand start' (i' + 1)
            refine ⟨j, ?_⟩
            rw [if_pos hEnd, referent_moved hDecoded, ← map_cons_map_append, ← hMore]
            rfl
          next hEnd =>
            rw [if_neg hEnd]
            exact ih h start' (i' + c.utf8Size)

theorem unescape_append {first second text rest : List Char} (hFirst : unescape first = .ok text)
    (hSecond : unescape second = .ok rest) : unescape (first ++ second) = .ok (text ++ rest) := by
  obtain ⟨j, hJoined⟩ := expand_append hFirst (Text.byteLength (first ++ second)) 0 0 second
  obtain ⟨k, hMoved⟩ := expand_append hSecond (Text.byteLength (first ++ second)) 0 j []
  rw [List.append_nil] at hMoved
  refine hJoined.trans ?_
  rw [show expand _ none j second = _ from hMoved]
  simp [expand, Functor.map, Except.map]

theorem unescape_space {gap : List Char} (hGap : ∀ c ∈ gap, isSpace c = true) :
    unescape gap = .ok gap := by
  have hSpells : List.Forall₂ Spells (gap.map fun c => [c]) gap := by
    rw [List.forall₂_map_left_iff, List.forall₂_same]
    intro c hc
    refine .plain ?_ ?_
    · rintro rfl
      cases hGap _ hc
    · rintro rfl
      cases hGap _ hc
  have hFlat : (gap.map fun c => [c]).flatten = gap := by
    rw [← List.flatMap_def, List.flatMap_singleton']
  have hRead := unescape_of_spells hSpells
  rwa [hFlat] at hRead

end unescape

theorem Builder.add_text_eq_ok_iff {b next : Builder} {raw : List Char} :
    b.add (.text raw) = .ok next ↔ ∃ text, unescape raw = .ok text ∧ next = b.addText text := by
  cases hText : unescape raw with
  | error fault => simp [Builder.add, hText]
  | ok text => simp [Builder.add, hText, eq_comm]

/-- One element has some more characters in its text; all else is the same. -/
inductive Widened (gap : List Char) : Element → Element → Prop where
  | here {tag front back : String} {children : List Element} :
      Widened gap (.mk tag (some (front ++ back)) children)
        (.mk tag (some (front ++ String.ofList gap ++ back)) children)
  | inside {tag : String} {text : Option String} {before after : List Element} {e e' : Element}
      (h : Widened gap e e') :
      Widened gap (.mk tag text (before ++ e :: after)) (.mk tag text (before ++ e' :: after))

/-- One element under construction is widened. -/
inductive Builder.Widens (gap : List Char) : Builder → Builder → Prop where
  | opened {above below : List Element} {e e' : Element} {root : Option Element}
      (h : Widened gap e e') : Widens gap ⟨above ++ e :: below, root⟩ ⟨above ++ e' :: below, root⟩
  | root {opened : List Element} {e e' : Element} (h : Widened gap e e') :
      Widens gap ⟨opened, some e⟩ ⟨opened, some e'⟩

variable {gap : List Char}

namespace Widened

variable {tag : String} {text : Option String} {children : List Element} {e e' : Element}

/-- A longer text is not the same text. -/
theorem eq_iff (h : Widened gap e e') : e' = e ↔ gap = [] := by
  induction h with
  | @here tag front back children =>
      rw [Element.mk.injEq]
      constructor
      · rintro ⟨-, hText, -⟩
        have hList := congrArg String.toList (Option.some.inj hText)
        simpa [String.toList_append, List.append_assoc] using hList
      · rintro rfl
        simp
  | inside h ih =>
      rw [← ih, Element.mk.injEq]
      simp

theorem addChild (h : Widened gap (.mk tag text children) e') (child : Element) :
    ∃ text' children', e' = .mk tag text' children' ∧
      Widened gap (.mk tag text (children ++ [child])) (.mk tag text' (children' ++ [child])) := by
  cases h with
  | here => exact ⟨_, _, rfl, .here⟩
  | inside h =>
      refine ⟨_, _, rfl, ?_⟩
      rw [List.append_assoc, List.append_assoc, List.cons_append, List.cons_append]
      exact .inside h

theorem addText (h : Widened gap (.mk tag text children) e') (added : String) :
    ∃ text' children', e' = .mk tag text' children' ∧
      Widened gap (.mk tag (some (text.getD "" ++ added)) children)
        (.mk tag (some (text'.getD "" ++ added)) children') := by
  cases h with
  | @here _ front back _ =>
      refine ⟨_, _, rfl, ?_⟩
      rw [Option.getD_some, Option.getD_some, String.append_assoc, String.append_assoc]
      exact .here
  | inside h => exact ⟨_, _, rfl, .inside h⟩

end Widened

namespace Builder.Widens

variable {b b' next : Builder}

theorem hang (h : Widens gap b b') {e : Element} (hHang : b.hang e = .ok next) :
    ∃ next', b'.hang e = .ok next' ∧ Widens gap next next' := by
  cases h with
  | @opened above below top top' root h =>
      cases above with
      | nil =>
          obtain ⟨tag, text, children⟩ := top
          obtain ⟨text', children', rfl, hWidened⟩ := h.addChild e
          cases hHang
          exact ⟨_, rfl, @opened gap [] below _ _ root hWidened⟩
      | cons first above =>
          obtain ⟨tag, text, children⟩ := first
          cases hHang
          exact ⟨_, rfl, @opened gap (_ :: above) below _ _ root h⟩
  | @root opened top top' h =>
      cases opened with
      | nil => cases hHang
      | cons first outer =>
          obtain ⟨tag, text, children⟩ := first
          cases hHang
          exact ⟨_, rfl, .root h⟩

/-- An element that is widened and then closed is a widened child, or the root. -/
theorem of_hang {e e' : Element} (h : Widened gap e e') (hHang : b.hang e = .ok next) :
    ∃ next', b.hang e' = .ok next' ∧ Widens gap next next' := by
  obtain ⟨opened, root⟩ := b
  cases opened with
  | nil =>
      cases root with
      | none =>
          cases hHang
          exact ⟨_, rfl, .root h⟩
      | some other => cases hHang
  | cons first outer =>
      obtain ⟨tag, text, children⟩ := first
      cases hHang
      exact ⟨_, rfl, @opened gap [] outer _ _ root (.inside h)⟩

theorem addText (h : Widens gap b b') (added : List Char) :
    Widens gap (b.addText added) (b'.addText added) := by
  cases h with
  | @opened above below top top' root h =>
      cases above with
      | nil =>
          obtain ⟨tag, text, children⟩ := top
          obtain ⟨text', children', rfl, hWidened⟩ := h.addText (String.ofList added)
          exact @opened gap [] below _ _ root hWidened
      | cons first above =>
          obtain ⟨tag, text, children⟩ := first
          exact @opened gap (_ :: above) below _ _ root h
  | @root opened top top' h =>
      cases opened with
      | nil => exact .root h
      | cons first outer =>
          obtain ⟨tag, text, children⟩ := first
          exact .root h

/-- Two pieces of text, and one that holds both and the gap between them. -/
theorem of_addText {first second : List Char} (h : b.opened ≠ []) :
    Widens gap ((b.addText first).addText second) (b.addText (first ++ gap ++ second)) := by
  obtain ⟨opened, root⟩ := b
  obtain ⟨top, outer, rfl⟩ := List.exists_cons_of_ne_nil h
  obtain ⟨tag, text, children⟩ := top
  have hHere : Widened gap
      (.mk tag (some (text.getD "" ++ String.ofList first ++ String.ofList second)) children)
      (.mk tag (some (text.getD "" ++ String.ofList (first ++ gap ++ second))) children) := by
    rw [String.ofList_append, String.ofList_append, ← String.append_assoc, ← String.append_assoc]
    exact .here
  exact @opened gap [] outer _ _ root hHere

/-- Whatever comes next is taken in where it would be without the gap. -/
theorem add (h : Widens gap b b') {t : Token} (hAdd : b.add t = .ok next) :
    ∃ next', b'.add t = .ok next' ∧ Widens gap next next' := by
  cases t with
  | opening name =>
      cases hAdd
      refine ⟨_, rfl, ?_⟩
      cases h with
      | @opened above below top top' root h => exact @opened gap (_ :: above) below _ _ root h
      | root h => exact .root h
  | empty name => exact h.hang hAdd
  | closing =>
      cases h with
      | @opened above below top top' root h =>
          cases above with
          | nil => exact of_hang h hAdd
          | cons first above => exact (@opened gap above below _ _ root h).hang hAdd
      | @root opened top top' h =>
          cases opened with
          | nil => cases hAdd
          | cons first outer => exact (@root gap outer _ _ h).hang hAdd
  | text raw =>
      obtain ⟨text, hText, rfl⟩ := add_text_eq_ok_iff.mp hAdd
      exact ⟨_, add_text_eq_ok_iff.mpr ⟨text, hText, rfl⟩, h.addText text⟩
  | characterData raw =>
      cases hAdd
      exact ⟨_, rfl, h.addText raw⟩
  | skipped =>
      cases hAdd
      exact ⟨_, rfl, h⟩

theorem foldlM (h : Widens gap b b') {ts : List Token}
    (hFold : ts.foldlM Builder.add b = .ok next) :
    ∃ next', ts.foldlM Builder.add b' = .ok next' ∧ Widens gap next next' := by
  induction ts generalizing b b' with
  | nil =>
      cases hFold
      exact ⟨_, rfl, h⟩
  | cons t ts ih =>
      rw [List.foldlM_cons] at hFold ⊢
      obtain ⟨between, hAdd, hRest⟩ := bind_eq_ok_iff.mp hFold
      obtain ⟨between', hAdd', hBetween⟩ := h.add hAdd
      rw [hAdd']
      exact ih hBetween hRest

theorem finish (h : Widens gap b b') {root : Element} (hFinish : b.finish = .ok root) :
    ∃ root', b'.finish = .ok root' ∧ Widened gap root root' := by
  cases h with
  | @opened above below top top' root h =>
      cases above with
      | nil => cases hFinish
      | cons first above => cases hFinish
  | @root opened top top' h =>
      cases opened with
      | nil =>
          cases hFinish
          exact ⟨_, rfl, h⟩
      | cons first outer => cases hFinish

end Builder.Widens

namespace Builder

variable {b next : Builder}

/-- Nothing that is added to the innermost open element changes which elements are open. -/
theorem tags_addText (b : Builder) (added : List Char) :
    (b.addText added).opened.map Element.tag = b.opened.map Element.tag := by
  obtain ⟨opened, root⟩ := b
  cases opened with
  | nil => rfl
  | cons first outer =>
      cases first
      rfl

theorem tags_hang {e : Element} (h : b.hang e = .ok next) :
    next.opened.map Element.tag = b.opened.map Element.tag := by
  obtain ⟨opened, root⟩ := b
  cases opened with
  | nil =>
      cases root with
      | none =>
          cases h
          rfl
      | some other => cases h
  | cons first outer =>
      cases first
      cases h
      rfl

theorem tags_of_marks {t : Token} {before after : List String} (hMarks : t.Marks before after)
    (hAdd : b.add t = .ok next) (h : b.opened.map Element.tag = before) :
    next.opened.map Element.tag = after := by
  cases hMarks with
  | opening name =>
      cases hAdd
      rw [List.map_cons, h]
      rfl
  | closing name =>
      obtain ⟨opened, root⟩ := b
      cases opened with
      | nil => cases h
      | cons first outer => exact (tags_hang hAdd).trans (List.cons.inj h).2
  | empty name => exact (tags_hang hAdd).trans h
  | characterData raw =>
      cases hAdd
      rw [tags_addText, h]
  | skipped =>
      cases hAdd
      exact h

/-- The tree and the reader agree on the elements that are open. -/
theorem tags_add {r after : Reader} {t : Token} (hStep : r.step = .token t after)
    (hAdd : b.add t = .ok next) (h : b.opened.map Element.tag = r.opened) :
    next.opened.map Element.tag = after.opened := by
  obtain ⟨_, _, -, -, hCases⟩ := Reader.step_eq_token hStep
  rcases hCases with ⟨_, -, _, hMarkup⟩ | ⟨raw, _, rfl, -, -, -, -, hOpened⟩
  · exact tags_of_marks (Reader.local_markup hMarkup).2 hAdd h
  · obtain ⟨text, -, rfl⟩ := add_text_eq_ok_iff.mp hAdd
    rw [tags_addText, h, hOpened]

theorem tags_foldlM {r last : Reader} {ts : List Token} (hReads : Reads r ts last)
    (hFold : ts.foldlM Builder.add b = .ok next) (h : b.opened.map Element.tag = r.opened) :
    next.opened.map Element.tag = last.opened := by
  induction hReads generalizing b with
  | refl r =>
      cases hFold
      exact h
  | step hStep _ ih =>
      rw [List.foldlM_cons] at hFold
      obtain ⟨between, hAdd, hRest⟩ := bind_eq_ok_iff.mp hFold
      exact ih hRest (tags_add hStep hAdd h)

end Builder

/-- A comment and what comes behind it. -/
def commented (text after : List Char) : List Char :=
  ['<', '!', '-', '-'] ++ text ++ ['-', '-', '>'] ++ after

/-- A comment that the reader comes to, by itself or behind white space, when an element is open.
The tokens are those that it has delivered before. -/
structure CommentAt (document : String) (tokens : List Token) (before text after : List Char) :
    Prop where
  split : document.toList = before ++ commented text after
  closed : ¬ ['-', '-', '>'] <:+: text
  reached : ∃ r gap, Reads (Reader.ofText document) tokens r ∧ r.opened ≠ [] ∧
    (∀ c ∈ gap, isSpace c = true) ∧ r.rest = gap ++ commented text after

/-- The comment stands between two pieces of text. -/
def PartsText (tokens : List Token) (after : List Char) : Prop :=
  (∃ earlier raw, tokens = earlier ++ [.text raw]) ∧
    ∃ c rest, after.dropWhile isSpace = c :: rest ∧ c ≠ '<'

/-- The white space before and behind a place. -/
def spaceAround (before after : List Char) : List Char :=
  before.rtakeWhile isSpace ++ after.takeWhile isSpace

/-- A document from which something is cut out has the same beginning. -/
theorem exists_front {before : List Char} (h : before ≠ []) :
    ∃ mark front, before = mark ++ front ∧
      ∀ rest, Reader.ofText (String.ofList (before ++ rest)) = ⟨front ++ rest, 0, []⟩ := by
  obtain ⟨c, cs, rfl⟩ := List.exists_cons_of_ne_nil h
  by_cases hMark : c = '\uFEFF'
  · subst hMark
    refine ⟨['\uFEFF'], cs, rfl, fun rest => ?_⟩
    rw [Reader.ofText, String.toList_ofList]
    rfl
  · refine ⟨[], c :: cs, rfl, fun rest => ?_⟩
    rw [Reader.ofText, String.toList_ofList]
    split
    next hCons => exact absurd (List.cons.inj hCons).1 hMark
    next => rfl

/-- A document does not begin with a comment that stands in an element. -/
theorem CommentAt.before_ne_nil {document : String} {tokens : List Token}
    {before text after : List Char} (h : CommentAt document tokens before text after) :
    before ≠ [] := by
  rintro rfl
  obtain ⟨r, gap, hReads, hOpened, -, hRest⟩ := h.reached
  have hStart : Reader.ofText document = ⟨commented text after, 0, []⟩ := by
    rw [Reader.ofText, h.split]
    rfl
  rw [hStart] at hReads
  obtain ⟨taken, hTaken, hNone, -⟩ := hReads.local_run
  have hLength := congrArg List.length hTaken
  rw [hRest] at hLength
  simp only [List.length_append] at hLength
  obtain rfl := hNone (List.eq_nil_of_length_eq_zero (by omega))
  cases hReads
  exact hOpened rfl

section

variable {front text after gap : List Char} {tokens : List Token} {r : Reader} {root : Element}
  {opened : List String}

/-- The comment adds nothing to the tree. -/
theorem build_behind_comment (hClosed : ¬ ['-', '-', '>'] <:+: text)
    (hGap : ∀ c ∈ gap, isSpace c = true) (hRest : r.rest = gap ++ commented text after)
    {r₀ : Reader} {b₀ : Builder} (hReads : Reads r₀ tokens r) (hBuild : build r₀ b₀ = .ok root) :
    ∃ b, tokens.foldlM Builder.add b₀ = .ok b ∧
      ∃ offset, build ⟨after, offset, r.opened⟩ b = .ok root := by
  rw [build_of_reads hReads] at hBuild
  obtain ⟨b, hFold, hBuild⟩ := bind_eq_ok_iff.mp hBuild
  obtain ⟨rest, offset, opened⟩ := r
  dsimp only at hRest
  subst hRest
  rw [build_space hGap] at hBuild
  obtain ⟨behind, hStep⟩ : ∃ behind,
      Reader.step ⟨commented text after, offset + gap.length, opened⟩ =
        .token .skipped ⟨after, behind, opened⟩ := Reader.step_comment hClosed
  rw [build_of_token hStep] at hBuild
  exact ⟨b, hFold, behind, hBuild⟩

/-- Where the reader has come to a comment without reading a text, it comes to what stands behind
the comment. -/
theorem reads_without_comment (hReads : Reads ⟨front ++ commented text after, 0, opened⟩ tokens r)
    (hRest : r.rest = gap ++ commented text after)
    (hMarkup : ∀ earlier raw, tokens ≠ earlier ++ [.text raw]) :
    ∃ behind, Reads ⟨front ++ after, 0, opened⟩ tokens ⟨gap ++ after, behind, r.opened⟩ := by
  obtain ⟨taken, hTaken, -, hRun⟩ := hReads.local_run
  obtain rfl : front = taken ++ gap := by
    dsimp only at hTaken
    rw [hRest, ← List.append_assoc] at hTaken
    exact List.append_cancel_right hTaken
  have hMore : r.rest = [] → gap ++ after = [] := by
    rw [hRest]
    intro hNil
    simp [commented] at hNil
  obtain ⟨behind, hMoved⟩ := hRun (gap ++ after) hMore
    (fun earlier raw hLast => absurd hLast (hMarkup earlier raw)) 0
  rw [List.append_assoc]
  exact ⟨behind, hMoved⟩

/-- A text before a comment is followed by white space at most, and up to there the document is
read the same without the comment. -/
theorem reads_to_text {earlier : List Token} {raw : List Char}
    (hReads : Reads ⟨front ++ commented text after, 0, opened⟩ (earlier ++ [.text raw]) r)
    (hGap : ∀ c ∈ gap, isSpace c = true) (hRest : r.rest = gap ++ commented text after) :
    ∃ taken lead trail, front = taken ++ (lead ++ raw ++ trail) ∧ (∀ c ∈ lead, isSpace c = true) ∧
      (∀ c ∈ trail, isSpace c = true) ∧ IsPiece raw ∧ ∀ other, ∃ behind,
        Reads ⟨front ++ other, 0, opened⟩ earlier
          ⟨lead ++ (raw ++ trail ++ other), behind, r.opened⟩ := by
  have hNext := hReads.head?_of_text
  obtain rfl : gap = [] := by
    cases gap with
    | nil => rfl
    | cons c gap =>
        obtain rfl := hNext c (by rw [hRest]; rfl)
        cases hGap '<' List.mem_cons_self
  obtain ⟨middle, hEarlier, hLast⟩ := hReads.of_append
  cases hLast with
  | step hStep hRefl =>
      cases hRefl
      obtain ⟨lead, body, hBody, hLead, hCases⟩ := Reader.step_eq_token hStep
      rcases hCases with ⟨_, -, _, hMarkup⟩ | ⟨_, trail, hRaw, rfl, hTrail, hPiece, -, hOpened⟩
      · exact absurd ⟨raw, rfl⟩ (Reader.local_markup hMarkup).2.not_isText
      · cases hRaw
        obtain ⟨taken, hTaken, -, hRun⟩ := hEarlier.local_run
        obtain rfl : front = taken ++ (lead ++ raw ++ trail) := by
          dsimp only at hTaken
          rw [hBody, hRest] at hTaken
          simp only [List.nil_append, ← List.append_assoc] at hTaken ⊢
          exact List.append_cancel_right hTaken
        refine ⟨taken, lead, trail, rfl, hLead, hTrail, hPiece, fun other => ?_⟩
        obtain ⟨first, others, hFirst⟩ := List.exists_cons_of_ne_nil
          (show lead ++ raw ≠ [] by simp [hPiece.ne_nil])
        have hHead : ∀ more, (lead ++ (raw ++ trail ++ more)).head? = some first := by
          intro more
          rw [← List.append_assoc, ← List.append_assoc, hFirst]
          rfl
        have hSame : (lead ++ (raw ++ trail ++ other)).head? = middle.rest.head? := by
          rw [hBody, hHead, hHead]
        have hMore : middle.rest = [] → lead ++ (raw ++ trail ++ other) = [] := by
          intro hNil
          rw [hNil, hHead] at hSame
          cases hSame
        obtain ⟨behind, hMoved⟩ := hRun (lead ++ (raw ++ trail ++ other)) hMore
          (fun us raw hLast => by rw [hSame]; exact (hLast ▸ hEarlier).head?_of_text) 0
        refine ⟨behind, ?_⟩
        rw [hOpened]
        simpa only [List.append_assoc] using hMoved

theorem IsPiece.join {first second : List Char} (hFirst : IsPiece first) (hSecond : IsPiece second)
    (hGap : ∀ c ∈ gap, isSpace c = true) : IsPiece (first ++ gap ++ second) where
  ne_nil := by simp [hFirst.ne_nil]
  no_lt := by
    intro hIn
    rcases List.mem_append.mp hIn with hIn | hIn
    · rcases List.mem_append.mp hIn with hIn | hIn
      · exact hFirst.no_lt hIn
      · cases hGap _ hIn
    · exact hSecond.no_lt hIn
  head := by
    rw [List.append_assoc, List.head?_append_of_ne_nil _ hFirst.ne_nil]
    exact hFirst.head
  last := by
    rw [List.getLast?_append_of_ne_nil _ hSecond.ne_nil]
    exact hSecond.last

/-- Where the tokens before the comment stay the same, so does the tree. -/
theorem build_same {body : List Char} {offset behind : Nat} {b₀ b : Builder}
    (hGap : ∀ c ∈ gap, isSpace c = true)
    (hReads : Reads ⟨front ++ after, 0, []⟩ tokens ⟨gap ++ body, behind, opened⟩)
    (hFold : tokens.foldlM Builder.add b₀ = .ok b)
    (hTail : build ⟨body, offset, opened⟩ b = .ok root) :
    build ⟨front ++ after, 0, []⟩ b₀ = .ok root := by
  obtain ⟨ts, hDelivers⟩ := exists_delivers_of_build hTail
  rw [build_of_delivers hDelivers] at hTail
  rw [build_of_reads hReads, hFold]
  change build ⟨gap ++ body, behind, opened⟩ b = .ok root
  rw [build_space hGap, build_of_delivers hDelivers, hTail]

/-- Where text stands on both sides of the comment, it is read as one piece without the comment,
and the white space between its parts is a part of it. -/
theorem build_widened {earlier : List Token} {raw lead trail space cs : List Char} {c : Char}
    {offset behind : Nat} {b₀ b : Builder} (hLead : ∀ c ∈ lead, isSpace c = true)
    (hTrail : ∀ c ∈ trail, isSpace c = true) (hSpace : ∀ c ∈ space, isSpace c = true)
    (hPiece : IsPiece raw) (hc : isSpace c = false) (hLt : c ≠ '<')
    (hReads : Reads ⟨front ++ (space ++ c :: cs), 0, []⟩ earlier
      ⟨lead ++ (raw ++ trail ++ (space ++ c :: cs)), behind, opened⟩)
    (hFold : (earlier ++ [Token.text raw]).foldlM Builder.add b₀ = .ok b) (hOpened : b.opened ≠ [])
    (hTail : build ⟨c :: cs, offset, opened⟩ b = .ok root) :
    ∃ root', build ⟨front ++ (space ++ c :: cs), 0, []⟩ b₀ = .ok root' ∧
      Widened (trail ++ space) root root' := by
  -- The tree so far, without and with the first piece.
  rw [List.foldlM_append] at hFold
  obtain ⟨b₁, hEarlier, hFirst⟩ := bind_eq_ok_iff.mp hFold
  rw [List.foldlM_cons] at hFirst
  obtain ⟨_, hFirst, hSame⟩ := bind_eq_ok_iff.mp hFirst
  cases hSame
  obtain ⟨first, hFirstText, rfl⟩ := Builder.add_text_eq_ok_iff.mp hFirst
  have hOpen : b₁.opened ≠ [] := by
    intro hNil
    have hTags := Builder.tags_addText b₁ first
    rw [hNil, List.map_nil, List.map_eq_nil_iff] at hTags
    exact hOpened hTags
  -- The second piece, and what comes behind it.
  obtain ⟨next, hNext⟩ : ∃ next, Reader.textPiece ⟨c :: cs, offset, opened⟩ = .token _ next :=
    ⟨_, rfl⟩
  obtain ⟨raw₂, trail₂, hText, hSplit, hTrail₂, hPiece₂, hMarkup, hSame⟩ :=
    Reader.textPiece_eq_token rfl hc hLt hNext
  rw [hText, ← Reader.step_of_plain rfl hc hLt] at hNext
  rw [build_of_token hNext] at hTail
  obtain ⟨_, hSecond, hTail⟩ := bind_eq_ok_iff.mp hTail
  obtain ⟨second, hSecondText, rfl⟩ := Builder.add_text_eq_ok_iff.mp hSecond
  obtain ⟨ts, hDelivers⟩ := exists_delivers_of_build hTail
  rw [build_of_delivers hDelivers] at hTail
  obtain ⟨last, hLast, hFinish⟩ := bind_eq_ok_iff.mp hTail
  -- The same with both pieces in one.
  have hGap : ∀ c ∈ trail ++ space, isSpace c = true := List.forall_mem_append.mpr ⟨hTrail, hSpace⟩
  have hJoined : unescape (raw ++ (trail ++ space) ++ raw₂) =
      .ok (first ++ (trail ++ space) ++ second) :=
    unescape_append (unescape_append hFirstText (unescape_space hGap)) hSecondText
  obtain ⟨last', hLast', hWidens⟩ := (Builder.Widens.of_addText hOpen).foldlM hLast
  obtain ⟨root', hFinish', hWidened⟩ := hWidens.finish hFinish
  refine ⟨root', ?_, hWidened⟩
  obtain ⟨beyond, hStep⟩ := Reader.step_piece (hPiece.join hPiece₂ hGap) hTrail₂ hMarkup
    (behind + lead.length) opened
  have hBody : raw ++ trail ++ (space ++ c :: cs) =
      raw ++ (trail ++ space) ++ raw₂ ++ trail₂ ++ next.rest := by
    dsimp only at hSplit
    rw [hSplit]
    simp only [List.append_assoc]
  rw [build_of_reads hReads, hEarlier]
  change build ⟨lead ++ (raw ++ trail ++ (space ++ c :: cs)), behind, opened⟩ b₁ = .ok root'
  rw [build_space hLead, hBody, build_of_token hStep,
    Builder.add_text_eq_ok_iff.mpr ⟨_, hJoined, rfl⟩]
  have hEnd := build_of_delivers hDelivers (beyond + trail₂.length)
    (b₁.addText (first ++ (trail ++ space) ++ second))
  rw [hLast', hSame] at hEnd
  exact hEnd.trans hFinish'

end

theorem takeWhile_gap {space body : List Char} (hSpace : ∀ c ∈ space, isSpace c = true)
    (hBody : ∀ c ∈ body.head?, isSpace c = false) :
    (space ++ body).takeWhile isSpace = space ∧ (space ++ body).dropWhile isSpace = body := by
  have hStop : body.dropWhile isSpace = body := Text.dropWhile_eq_self_iff_head?.mpr hBody
  have hNone : body.takeWhile isSpace = [] := by
    have hSplit := List.takeWhile_append_dropWhile (p := isSpace) (l := body)
    rw [hStop] at hSplit
    exact List.append_left_eq_self.mp hSplit
  rw [List.takeWhile_append_of_pos hSpace, List.dropWhile_append_of_pos hSpace, hStop, hNone,
    List.append_nil]
  exact ⟨rfl, rfl⟩

theorem spaceAround_eq {mark taken lead raw trail space body : List Char} (hRaw : IsPiece raw)
    (hTrail : ∀ c ∈ trail, isSpace c = true) (hSpace : ∀ c ∈ space, isSpace c = true)
    (hBody : ∀ c ∈ body.head?, isSpace c = false) :
    spaceAround (mark ++ (taken ++ (lead ++ raw ++ trail))) (space ++ body) = trail ++ space := by
  have hReverse : (mark ++ (taken ++ (lead ++ raw ++ trail))).reverse =
      trail.reverse ++ (raw.reverse ++ (mark ++ taken ++ lead).reverse) := by simp
  have hLast : ∀ c ∈ (raw.reverse ++ (mark ++ taken ++ lead).reverse).head?, isSpace c = false := by
    rw [List.head?_append_of_ne_nil _ (by simpa using hRaw.ne_nil), List.head?_reverse]
    exact hRaw.last
  have hSpaces : ∀ c ∈ trail.reverse, isSpace c = true :=
    fun c hc => hTrail c (List.mem_reverse.mp hc)
  rw [spaceAround, (takeWhile_gap hSpace hBody).1, List.rtakeWhile, hReverse,
    (takeWhile_gap hSpaces hLast).1, List.reverse_reverse]

/-- A document that is read as a tree is read as one without any of the comments that stand in its
elements. The tree is the same, unless the comment stands between two pieces of text; then the
white space around it, which belongs to neither of them, is put into that text. So the tree is the
same exactly if the comment does not part a text or there is no white space around it. -/
theorem parse_without_comment {document : String} {tokens : List Token}
    {before text after : List Char} {root : Element} (hParse : Element.parse document = .ok root)
    (hComment : CommentAt document tokens before text after) :
    ∃ root', Element.parse (String.ofList (before ++ after)) = .ok root' ∧
      (¬ PartsText tokens after → root' = root) ∧
      (PartsText tokens after → Widened (spaceAround before after) root root') ∧
      (root' = root ↔ ¬ (PartsText tokens after ∧ spaceAround before after ≠ [])) := by
  suffices hRead : ∃ root', Element.parse (String.ofList (before ++ after)) = .ok root' ∧
      (¬ PartsText tokens after → root' = root) ∧
      (PartsText tokens after → Widened (spaceAround before after) root root') by
    obtain ⟨root', hRoot, hSame, hWidened⟩ := hRead
    refine ⟨root', hRoot, hSame, hWidened, ?_⟩
    by_cases hParts : PartsText tokens after
    · rw [(hWidened hParts).eq_iff]
      simp [hParts]
    · simp [hParts, hSame hParts]
  obtain ⟨r, gap, hReads, hOpened, hGap, hRest⟩ := hComment.reached
  obtain ⟨mark, front, hFront, hStart⟩ := exists_front hComment.before_ne_nil
  have hDocument : Reader.ofText document = ⟨front ++ commented text after, 0, []⟩ := by
    rw [← hStart, ← hComment.split, String.ofList_toList]
  rw [Element.parse, hStart]
  rw [hDocument] at hReads
  rw [Element.parse, hDocument] at hParse
  obtain ⟨b, hFold, offset, hTail⟩ := build_behind_comment hComment.closed hGap hRest hReads hParse
  obtain ⟨space, body, rfl, hSpace, hBody⟩ := Reader.exists_gap after
  rw [build_space hSpace] at hTail
  by_cases hText : ∃ earlier raw, tokens = earlier ++ [.text raw]
  · obtain ⟨earlier, raw, rfl⟩ := hText
    obtain ⟨taken, lead, trail, hTaken, hLead, hTrail, hPiece, hEarlier⟩ :=
      reads_to_text hReads hGap hRest
    obtain ⟨behind, hMoved⟩ := hEarlier (space ++ body)
    have hBehind := (takeWhile_gap hSpace hBody).2
    by_cases hNext : ∃ c cs, body = c :: cs ∧ c ≠ '<'
    · obtain ⟨c, cs, rfl, hLt⟩ := hNext
      have hTags := Builder.tags_foldlM hReads hFold rfl
      have hOpen : b.opened ≠ [] := by
        intro hNil
        rw [hNil] at hTags
        exact hOpened hTags.symm
      obtain ⟨root', hRoot, hWidened⟩ := build_widened hLead hTrail hSpace hPiece (hBody c rfl) hLt
        hMoved hFold hOpen hTail
      refine ⟨root', hRoot, fun hNot => ?_, fun _ => ?_⟩
      · exact absurd ⟨⟨earlier, raw, rfl⟩, c, cs, hBehind, hLt⟩ hNot
      · rwa [hFront, hTaken, spaceAround_eq hPiece hTrail hSpace hBody]
    · have hMarkup : ∀ c ∈ body.head?, c = '<' := by
        intro c hc
        obtain ⟨cs, hCons⟩ := List.head?_eq_some_iff.mp hc
        by_contra hLt
        exact hNext ⟨c, cs, hCons, hLt⟩
      obtain ⟨beyond, hStep⟩ := Reader.step_piece hPiece
        (List.forall_mem_append.mpr ⟨hTrail, hSpace⟩) hMarkup (behind + lead.length) r.opened
      rw [← Reader.step_gap hLead] at hStep
      have hLast : Reads ⟨lead ++ (raw ++ trail ++ (space ++ body)), behind, r.opened⟩ [.text raw]
          ⟨body, beyond + (trail ++ space).length, r.opened⟩ := by
        refine .step ?_ (.refl _)
        simpa only [List.append_assoc] using hStep
      have hSame := build_same (List.forall_mem_nil _) (hMoved.append hLast) hFold hTail
      refine ⟨root, hSame, fun _ => rfl, ?_⟩
      rintro ⟨-, c, cs, hCons, hLt⟩
      exact absurd ⟨c, cs, hBehind.symm.trans hCons, hLt⟩ hNext
  · have hMarkup : ∀ earlier raw, tokens ≠ earlier ++ [.text raw] :=
      fun earlier raw hLast => hText ⟨earlier, raw, hLast⟩
    obtain ⟨behind, hMoved⟩ := reads_without_comment hReads hRest hMarkup
    rw [← List.append_assoc gap] at hMoved
    have hSame := build_same (List.forall_mem_append.mpr ⟨hGap, hSpace⟩) hMoved hFold hTail
    exact ⟨root, hSame, fun _ => rfl, fun hParts => absurd hParts.1 hText⟩

/-- A comment behind a text and before markup, with white space on both sides. -/
def notedDocument : String := "<a> x&lt; <!-- > --> <b/></a>"

def notedTree : Element := .mk "a" (some "x<") [.mk "b" none []]

theorem notedDocument_without_comment :
    Element.parse notedDocument = .ok notedTree ∧
      CommentAt notedDocument [.opening "a", .text "x&lt;".toList] "<a> x&lt; ".toList " > ".toList
        " <b/></a>".toList ∧
      Element.parse "<a> x&lt;  <b/></a>" = .ok notedTree := by
  have hParse : Element.parse notedDocument = .ok notedTree := by
    rw [parse_of_reads (.step rfl (.step rfl (.step rfl (.step rfl (.step rfl (.refl _)))))) rfl]
    rfl
  have hComment : CommentAt notedDocument [.opening "a", .text "x&lt;".toList]
      "<a> x&lt; ".toList " > ".toList " <b/></a>".toList := by
    refine ⟨by decide, by decide, _, [], .step rfl (.step rfl (.refl _)), ?_, by simp, rfl⟩
    exact List.cons_ne_nil "a" []
  have hMarkup : ¬ PartsText [.opening "a", .text "x&lt;".toList] " <b/></a>".toList := by
    rintro ⟨-, c, rest, hCons, hLt⟩
    exact hLt (List.cons.inj hCons).1.symm
  obtain ⟨root', hRoot, hSame, -⟩ := parse_without_comment hParse hComment
  rw [hSame hMarkup] at hRoot
  exact ⟨hParse, hComment, hRoot⟩

/-- A comment in code can join two words: the space before it belongs to neither piece of text. -/
theorem parse_joins_words :
    CommentAt "<code>return <!-- c -->x;</code>" [.opening "code", .text "return".toList]
        "<code>return ".toList " c ".toList "x;</code>".toList ∧
      Element.parse "<code>return <!-- c -->x;</code>" = .ok (.mk "code" (some "returnx;") []) ∧
      Element.parse (String.ofList ("<code>return ".toList ++ "x;</code>".toList)) =
        .ok (.mk "code" (some "return x;") []) := by
  refine ⟨⟨by decide, by decide, _, [], .step rfl (.step rfl (.refl _)), ?_, by simp, rfl⟩, ?_, ?_⟩
  · exact List.cons_ne_nil "code" []
  · rw [parse_of_reads (.step rfl (.step rfl (.step rfl (.step rfl (.step rfl (.refl _)))))) rfl]
    rfl
  · rw [parse_of_reads (.step rfl (.step rfl (.step rfl (.refl _)))) rfl]
    rfl

end Simgen.Markup
