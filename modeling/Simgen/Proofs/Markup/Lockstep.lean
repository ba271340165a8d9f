import Simgen.Proofs.Markup.Comment

/-! The reader and the tree under construction both keep the elements that are open. They agree on
them at every token, so that the tree never has to refuse a closing tag: the reader has compared its
name with that of the innermost open element before. -/
namespace Simgen.Markup

/-- Without a condition the cut is made at the first `>`. -/
theorem cutAt_first_eq_some {before cs content rest : List Char}
    (h : cutAt (fun _ => true) before cs = some (content, rest)) :
    ∃ inner, content = before.reverse ++ inner ∧ cs = inner ++ '>' :: rest ∧ '>' ∉ inner := by
  induction cs generalizing before with
  | nil => cases h
  | cons c cs ih =>
      rw [cutAt, Bool.and_true] at h
      split at h
      next hEnd =>
        cases h
        obtain rfl := of_decide_eq_true hEnd
        exact ⟨[], (List.append_nil _).symm, rfl, List.not_mem_nil⟩
      next hGoOn =>
        obtain ⟨inner, rfl, rfl, hInner⟩ := ih h
        have hc : c ≠ '>' := by simpa using hGoOn
        refine ⟨c :: inner, by simp, rfl, ?_⟩
        rw [List.mem_cons, not_or]
        exact ⟨Ne.symm hc, hInner⟩

theorem cutAt_first_eq_none {before cs : List Char} (h : cutAt (fun _ => true) before cs = none) :
    '>' ∉ cs := by
  induction cs generalizing before with
  | nil => exact List.not_mem_nil
  | cons c cs ih =>
      rw [cutAt, Bool.and_true] at h
      split at h
      · cases h
      next hGoOn =>
        have hc : c ≠ '>' := by simpa using hGoOn
        rw [List.mem_cons, not_or]
        exact ⟨Ne.symm hc, ih h⟩

/-- The text begins with a closing tag of this name. Blanks may stand behind the name, and the end
of the document may cut the tag off. -/
def ClosesAt (text : List Char) (name : String) : Prop :=
  ∃ content behind, text = '<' :: '/' :: content ++ behind ∧ '>' ∉ content ∧
    (behind = [] ∨ ∃ rest, behind = '>' :: rest) ∧
    String.ofList (Reader.closingName content) = name

namespace Reader

variable {r next : Reader}

theorem piece_eq (r : Reader) :
    ∃ behind, r.rest = r.piece.1 ++ behind ∧ '>' ∉ r.piece.1 ∧
      (behind = [] ∨ ∃ rest, behind = '>' :: rest) := by
  unfold piece
  split
  next content rest hCut =>
    obtain ⟨inner, hContent, hSplit, hInner⟩ := cutAt_first_eq_some hCut
    rw [List.reverse_nil, List.nil_append] at hContent
    subst hContent
    exact ⟨_, hSplit, hInner, Or.inr ⟨rest, rfl⟩⟩
  next hNone => exact ⟨[], (List.append_nil _).symm, cutAt_first_eq_none hNone, Or.inl rfl⟩

theorem exists_accept_of_bang {construct : String} {ends : List Char → Bool}
    {accept : List Char → Except ReadFault Token} {t : Token}
    (h : r.bang construct ends accept = .token t next) : ∃ content, accept content = .ok t := by
  unfold bang at h
  split at h
  · cases h
  · dsimp only at h
    split at h
    next hAccept =>
      cases h
      exact ⟨_, hAccept⟩
    · cases h

theorem declaration_ne_closing : r.declaration ≠ .token .closing next := by
  intro h
  unfold declaration at h
  split at h
  · obtain ⟨content, hAccept⟩ := exists_accept_of_bang h
    cases marks_of_acceptCharacterData content _ [] hAccept
  · obtain ⟨content, hAccept⟩ := exists_accept_of_bang h
    cases marks_of_acceptComment content _ [] hAccept
  · obtain ⟨content, hAccept⟩ := exists_accept_of_bang h
    cases marks_of_acceptDoctype content _ [] hAccept
  · obtain ⟨content, hAccept⟩ := exists_accept_of_bang h
    cases marks_of_acceptDoctype content _ [] hAccept
  · cases h
  · cases h

theorem closingTag_eq_token {more : List Char} {t : Token} (hRest : r.rest = '/' :: more)
    (h : r.closingTag = .token t next) :
    ∃ name, ClosesAt ('<' :: r.rest) name ∧ r.opened = name :: next.opened := by
  obtain ⟨behind, hSplit, hContent, hBehind⟩ := r.piece_eq
  unfold closingTag at h
  generalize r.piece = p at h hSplit hContent
  obtain ⟨content, after⟩ := p
  dsimp only at h hSplit hContent
  split at h
  · cases h
  next expected outer hOpened =>
    split at h
    next hName =>
      cases h
      obtain ⟨name, rfl⟩ : ∃ name, content = '/' :: name := by
        cases content with
        | nil =>
            rw [hRest, List.nil_append] at hSplit
            rcases hBehind with rfl | ⟨rest, rfl⟩
            · cases hSplit
            · exact absurd (List.cons.inj hSplit).1 (by decide)
        | cons c name =>
            rw [hRest] at hSplit
            exact ⟨name, by rw [← (List.cons.inj hSplit).1]⟩
      refine ⟨expected, ⟨name, behind, ?_, ?_, hBehind, hName⟩, hOpened⟩
      · rw [hSplit]
        rfl
      · exact fun hIn => hContent (List.mem_cons_of_mem _ hIn)
    · cases h

/-- Closing is what the reader makes of a closing tag, if it has the name of the innermost open
element. -/
theorem step_eq_closing (h : r.step = .token .closing next) :
    ∃ lead body name, r.rest = lead ++ body ∧ (∀ c ∈ lead, isSpace c = true) ∧
      ClosesAt body name ∧ r.opened = name :: next.opened := by
  obtain ⟨lead, body, hSplit, hLead, hCases⟩ := step_eq_token h
  rcases hCases with ⟨inner, rfl, offset, hMarkup⟩ | ⟨raw, _, hText, -⟩
  · unfold markup at hMarkup
    split at hMarkup
    · cases hMarkup
    · exact absurd hMarkup declaration_ne_closing
    next more hRest =>
      obtain ⟨name, hCloses, hOpened⟩ := closingTag_eq_token hRest hMarkup
      exact ⟨lead, _, name, hSplit, hLead, hCloses, hOpened⟩
    · unfold instruction at hMarkup
      dsimp only at hMarkup
      split at hMarkup <;> cases hMarkup
    · unfold tag at hMarkup
      split at hMarkup
      · cases hMarkup
      · dsimp only at hMarkup
        split at hMarkup <;> cases hMarkup
  · cases hText

end Reader

/-- How many elements end outside all others, when so many are open at first. -/
def rootsAmong : Nat → List Token → Nat
  | _, [] => 0
  | depth, .opening _ :: ts => rootsAmong (depth + 1) ts
  | depth, .closing :: ts => (if depth = 1 then 1 else 0) + rootsAmong (depth - 1) ts
  | depth, .empty _ :: ts => (if depth = 0 then 1 else 0) + rootsAmong depth ts
  | depth, .text _ :: ts => rootsAmong depth ts
  | depth, .characterData _ :: ts => rootsAmong depth ts
  | depth, .skipped :: ts => rootsAmong depth ts

namespace Builder

variable {b next : Builder}

theorem length_addText (b : Builder) (added : List Char) :
    (b.addText added).opened.length = b.opened.length ∧ (b.addText added).root = b.root := by
  obtain ⟨opened, root⟩ := b
  cases opened with
  | nil => exact ⟨rfl, rfl⟩
  | cons first outer =>
      cases first
      exact ⟨rfl, rfl⟩

theorem roots_hang {e : Element} (h : b.hang e = .ok next) :
    next.opened.length = b.opened.length ∧
      next.root.toList.length = (if b.opened.length = 0 then 1 else 0) + b.root.toList.length := by
  obtain ⟨opened, root⟩ := b
  cases opened with
  | nil =>
      cases root with
      | none =>
          cases h
          exact ⟨rfl, rfl⟩
      | some other => cases h
  | cons first outer =>
      cases first
      cases h
      exact ⟨rfl, by simp⟩

/-- A run adds a root for each element that ends outside all others. -/
theorem roots_foldlM {ts : List Token} (h : ts.foldlM Builder.add b = .ok next) :
    next.root.toList.length = rootsAmong b.opened.length ts + b.root.toList.length := by
  induction ts generalizing b with
  | nil =>
      cases h
      exact (Nat.zero_add _).symm
  | cons t ts ih =>
      rw [List.foldlM_cons] at h
      obtain ⟨between, hAdd, hRest⟩ := bind_eq_ok_iff.mp h
      rw [ih hRest]
      cases t with
      | opening name =>
          cases hAdd
          rfl
      | closing =>
          obtain ⟨opened, root⟩ := b
          cases opened with
          | nil => cases hAdd
          | cons first outer =>
              obtain ⟨hLength, hRoots⟩ := roots_hang hAdd
              rw [hLength, hRoots]
              simp only [rootsAmong, List.length_cons, Nat.add_sub_cancel, Nat.add_eq_right]
              omega
      | empty name =>
          obtain ⟨hLength, hRoots⟩ := roots_hang hAdd
          rw [hLength, hRoots, rootsAmong]
          omega
      | text raw =>
          obtain ⟨text, -, rfl⟩ := add_text_eq_ok_iff.mp hAdd
          rw [(length_addText b text).1, (length_addText b text).2, rootsAmong]
      | characterData raw =>
          cases hAdd
          rw [(length_addText b raw).1, (length_addText b raw).2, rootsAmong]
      | skipped =>
          cases hAdd
          rfl

/-- A token is refused as unbalanced only if it closes and nothing is open. -/
theorem add_eq_unbalanced {t : Token} (h : b.add t = .error .unbalanced) :
    t = .closing ∧ b.opened = [] := by
  have hHang : ∀ (b : Builder) (e : Element), b.hang e ≠ .error .unbalanced := by
    rintro ⟨opened, root⟩ e hHang
    cases opened with
    | nil => cases root <;> cases hHang
    | cons first outer =>
        cases first
        cases hHang
  cases t with
  | opening name => cases h
  | closing =>
      obtain ⟨opened, root⟩ := b
      cases opened with
      | nil => exact ⟨rfl, rfl⟩
      | cons first outer => exact absurd h (hHang _ _)
  | empty name => exact absurd h (hHang _ _)
  | text raw =>
      rw [add] at h
      split at h <;> cases h
  | characterData raw => cases h
  | skipped => cases h

theorem finish_eq_ok_iff {root : Element} :
    b.finish = .ok root ↔ b.opened = [] ∧ b.root = some root := by
  obtain ⟨opened, found⟩ := b
  cases opened with
  | nil =>
      cases found with
      | none => simp [finish]
      | some other => simp [finish]
  | cons first outer => simp [finish]

end Builder

/-- While the two agree, no closing tag is refused as unbalanced. -/
theorem build_ne_unbalanced {r : Reader} {b : Builder} (h : b.opened.map Element.tag = r.opened) :
    build r b ≠ .error .unbalanced := by
  induction hLength : r.rest.length using Nat.strong_induction_on generalizing r b with
  | _ n ih =>
      intro hBuild
      cases hStep : r.step with
      | ended =>
          rw [build_of_ended hStep] at hBuild
          obtain ⟨opened, root⟩ := b
          cases opened with
          | nil => cases root <;> cases hBuild
          | cons first outer => cases hBuild
      | failed offset fault =>
          rw [build] at hBuild
          split at hBuild
          next hEnded => rw [hStep] at hEnded; cases hEnded
          next => cases hBuild
          next hToken => rw [hStep] at hToken; cases hToken
      | token t next =>
          rw [build_of_token hStep] at hBuild
          cases hAdd : b.add t with
          | error fault =>
              rw [hAdd] at hBuild
              cases hBuild
              obtain ⟨rfl, hNone⟩ := Builder.add_eq_unbalanced hAdd
              obtain ⟨_, _, name, -, -, -, hOpened⟩ := Reader.step_eq_closing hStep
              rw [hNone, hOpened] at h
              cases h
          | ok between =>
              rw [hAdd] at hBuild
              have hShorter := Reader.step_rest_length hStep
              exact ih _ (hLength ▸ hShorter) (Builder.tags_add hStep hAdd h) rfl hBuild

theorem opened_ofText (document : String) : (Reader.ofText document).opened = [] := by
  unfold Reader.ofText
  split
  · rfl
  · rfl

/-- After every token of a document the elements that are open in the tree have the names that the
reader keeps, in the same order. So a closing tag is never refused as unbalanced, and each one
closes an element of its own name. The document is read as a tree exactly if it is read to its end,
nothing is open there for the reader or in the tree, and one element has ended outside all
others: the root. -/
theorem open_elements_agree (document : String) :
    (∀ ts r b, Reads (Reader.ofText document) ts r →
      ts.foldlM Builder.add Builder.start = .ok b →
        b.opened.map Element.tag = r.opened ∧
        ∀ next, r.step = .token .closing next →
          ∃ lead body e outer, r.rest = lead ++ body ∧ (∀ c ∈ lead, isSpace c = true) ∧
            b.opened = e :: outer ∧ ClosesAt body e.tag ∧ next.opened = outer.map Element.tag) ∧
    Element.parse document ≠ .error .unbalanced ∧
    ∀ root, Element.parse document = .ok root ↔
      ∃ ts last b, Reads (Reader.ofText document) ts last ∧ last.step = .ended ∧
        ts.foldlM Builder.add Builder.start = .ok b ∧ last.opened = [] ∧ b.opened = [] ∧
        b.root = some root ∧ rootsAmong 0 ts = 1 := by
  have hStart : Builder.start.opened.map Element.tag = (Reader.ofText document).opened :=
    (opened_ofText document).symm
  refine ⟨fun ts r b hReads hFold => ?_, build_ne_unbalanced hStart, fun root => ?_⟩
  · have hTags := Builder.tags_foldlM hReads hFold hStart
    refine ⟨hTags, fun next hStep => ?_⟩
    obtain ⟨lead, body, name, hSplit, hLead, hCloses, hOpened⟩ := Reader.step_eq_closing hStep
    rw [hOpened] at hTags
    obtain ⟨e, outer, hTop, rfl, hOuter⟩ := List.map_eq_cons_iff.mp hTags
    exact ⟨lead, body, e, outer, hSplit, hLead, hTop, hCloses, hOuter.symm⟩
  · constructor
    · intro hParse
      obtain ⟨ts, last, hReads, hEnded⟩ := exists_reads_of_build hParse
      have hTree := hParse
      rw [parse_of_reads hReads hEnded] at hTree
      obtain ⟨b, hFold, hFinish⟩ := bind_eq_ok_iff.mp hTree
      obtain ⟨hNone, hRoot⟩ := Builder.finish_eq_ok_iff.mp hFinish
      have hTags := Builder.tags_foldlM hReads hFold hStart
      have hRoots := Builder.roots_foldlM hFold
      rw [hRoot] at hRoots
      rw [hNone] at hTags
      exact ⟨ts, last, b, hReads, hEnded, hFold, hTags.symm, hNone, hRoot, hRoots.symm⟩
    · rintro ⟨ts, last, b, hReads, hEnded, hFold, -, hNone, hRoot, -⟩
      rw [parse_of_reads hReads hEnded, hFold]
      exact Builder.finish_eq_ok_iff.mpr ⟨hNone, hRoot⟩

/-- A document with a blank in one closing tag, and with an end that cuts off the other. -/
def looseDocument : String := "<a>x<b></b ></a"

theorem looseDocument_agrees :
    ∃ r b next, Reads (Reader.ofText looseDocument) [.opening "a", .text ['x'], .opening "b"] r ∧
      [.opening "a", .text ['x'], .opening "b"].foldlM Builder.add Builder.start = .ok b ∧
      r.step = .token .closing next ∧ b.opened.map Element.tag = ["b", "a"] ∧
      ClosesAt "</b ></a".toList "b" ∧ next.opened = ["a"] ∧
      Element.parse looseDocument = .ok (.mk "a" (some "x") [.mk "b" none []]) := by
  obtain ⟨hMoments, -, hTree⟩ := open_elements_agree looseDocument
  have hReads : Reads (Reader.ofText looseDocument) [.opening "a", .text ['x'], .opening "b"]
      ⟨"</b ></a".toList, 7, ["b", "a"]⟩ := .step rfl (.step rfl (.step rfl (.refl _)))
  obtain ⟨hTags, hClosing⟩ := hMoments _ _ _ hReads rfl
  obtain ⟨lead, body, e, outer, hSplit, hLead, hTop, hCloses, hOuter⟩ := hClosing _ rfl
  -- No blank stands before the tag, so that the closing tag is all that is left.
  obtain rfl : lead = [] := by
    cases lead with
    | nil => rfl
    | cons c lead =>
        obtain ⟨rfl, -⟩ := List.cons.inj hSplit
        exact absurd (hLead '<' List.mem_cons_self) (by decide)
  obtain rfl : body = "</b ></a".toList := hSplit.symm
  obtain ⟨rfl, rfl⟩ := List.cons.inj hTop
  refine ⟨_, _, _, hReads, rfl, rfl, hTags, hCloses, hOuter, (hTree _).mpr ?_⟩
  exact ⟨_, _, _, hReads.append (.step rfl (.step rfl (.refl _))), rfl, rfl, rfl, rfl, rfl, rfl⟩

end Simgen.Markup
