import Simgen.Markup.Writer
import Simgen.Proofs.Markup.Reader

/-! Reading what was written. Every element is read back where it was written, whatever
comes behind it, so that a document is read as the tree it was written from. -/
namespace Simgen.Markup

theorem build_of_step {r next : Reader} {b b' : Builder} {t : Token}
    (hStep : r.step = .token t next) (hAdd : b.add t = .ok b') : build r b = build next b' := by
  rw [build]
  split
  next hEnded => rw [hStep] at hEnded; cases hEnded
  next hFailed => rw [hStep] at hFailed; cases hFailed
  next t' next' hToken =>
    rw [hStep] at hToken
    cases hToken
    rw [hAdd]

theorem build_of_ended {r : Reader} (hStep : r.step = .ended) (b : Builder) :
    build r b = b.finish := by
  rw [build]
  split
  next => rfl
  next hFailed => rw [hStep] at hFailed; cases hFailed
  next hToken => rw [hStep] at hToken; cases hToken

/-- An element that reading can give back: its tag is a name, and its text stands by
itself between two tags. -/
inductive Writable : Element → Prop where
  | mk {tag : String} {text : Option String} {children : List Element} (hTag : IsTag tag)
      (hText : ∀ t ∈ text, IsPiece (escape t.toList)) (hChildren : ∀ e ∈ children, Writable e) :
      Writable (.mk tag text children)

theorem not_isSpace_of_not_isBlank {c : Char} (h : Text.isBlank c = false) :
    isSpace c = false := by
  rw [← Bool.not_eq_true]
  intro hSpace
  simp only [isSpace, Bool.or_eq_true, beq_iff_eq] at hSpace
  rcases hSpace with ((rfl | rfl) | rfl) | rfl <;> revert h <;> decide

theorem isPiece_of_solid {text : String} (h : Text.Solid text) : IsPiece (escape text.toList) := by
  obtain ⟨hEmpty, hTrimmed⟩ := h
  obtain ⟨hHead, hLast⟩ := Text.trimChars_eq_self_iff.mp (Text.trimmed_iff.mp hTrimmed)
  refine isPiece_escape ?_ (fun c hc => not_isSpace_of_not_isBlank (hHead c hc))
    fun c hc => not_isSpace_of_not_isBlank (hLast c hc)
  intro hNil
  exact hEmpty (String.toList_injective (by simpa using hNil))

theorem writable_ofText {tag text : String} (hTag : IsTag tag) (hText : Text.Trimmed text) :
    Writable (.ofText tag text) := by
  refine .mk hTag (fun t ht => ?_) (List.forall_mem_nil _)
  split at ht
  · cases ht
  next hEmpty =>
    cases ht
    exact isPiece_of_solid ⟨hEmpty, hText⟩

theorem writable_ofChildren {tag : String} {children : List Element} (hTag : IsTag tag)
    (hChildren : ∀ e ∈ children, Writable e) : Writable (.ofChildren tag children) :=
  .mk hTag (by simp) hChildren

/-- Where an element stands written, reading hangs it into the tree and goes on behind it. -/
def ReadBack (e : Element) : Prop :=
  ∀ rest offset opened b b', Builder.hang b e = .ok b' →
    ∃ behind, build ⟨e.render ++ rest, offset, opened⟩ b = build ⟨rest, behind, opened⟩ b'

section

variable {tag : String} {text : Option String} {outer : List Element} {root : Option Element}

theorem build_opening (hTag : IsTag tag) (rest : List Char) (offset : Nat) (opened : List String)
    (b : Builder) :
    ∃ behind, build ⟨'<' :: tag.toList ++ '>' :: rest, offset, opened⟩ b =
      build ⟨rest, behind, tag :: opened⟩ ⟨.mk tag none [] :: b.opened, b.root⟩ := by
  obtain ⟨behind, hStep⟩ := Reader.step_opening hTag
  exact ⟨behind, build_of_step hStep rfl⟩

theorem build_text (hText : ∀ t ∈ text, IsPiece (escape t.toList)) (rest : List Char)
    (offset : Nat) (opened : List String) :
    ∃ behind, build ⟨escape (text.getD "").toList ++ '<' :: rest, offset, opened⟩
        ⟨.mk tag none [] :: outer, root⟩ =
      build ⟨'<' :: rest, behind, opened⟩ ⟨.mk tag text [] :: outer, root⟩ := by
  cases text with
  | none => exact ⟨offset, rfl⟩
  | some t =>
      obtain ⟨behind, hStep⟩ := Reader.step_text (hText t rfl)
      refine ⟨behind, build_of_step hStep ?_⟩
      rw [Builder.add, unescape_escape]
      simp [Builder.addText]

theorem build_children {children : List Element} (hChildren : ∀ e ∈ children, ReadBack e)
    (rest : List Char) (offset : Nat) (opened : List String) (done : List Element) :
    ∃ behind, build ⟨renderAll children ++ rest, offset, opened⟩
        ⟨.mk tag text done :: outer, root⟩ =
      build ⟨rest, behind, opened⟩ ⟨.mk tag text (done ++ children) :: outer, root⟩ := by
  induction children generalizing done offset with
  | nil => exact ⟨offset, by simp [renderAll]⟩
  | cons e children ih =>
      obtain ⟨hFirst, hRest⟩ := List.forall_mem_cons.mp hChildren
      obtain ⟨middle, hRead⟩ := hFirst (renderAll children ++ rest) offset opened
        ⟨.mk tag text done :: outer, root⟩ _ rfl
      obtain ⟨behind, hMore⟩ := ih hRest middle (done ++ [e])
      refine ⟨behind, ?_⟩
      rw [renderAll, List.append_assoc, hRead, hMore, List.append_assoc, List.singleton_append]

theorem build_closing (hTag : IsTag tag) (rest : List Char) (offset : Nat) (opened : List String)
    {e : Element} {b b' : Builder} (hHang : b.hang e = .ok b') :
    ∃ behind, build ⟨'<' :: '/' :: tag.toList ++ '>' :: rest, offset, tag :: opened⟩
        ⟨e :: b.opened, b.root⟩ = build ⟨rest, behind, opened⟩ b' := by
  obtain ⟨behind, hStep⟩ := Reader.step_closing hTag
  exact ⟨behind, build_of_step hStep hHang⟩

end

/-- Children begin with markup. -/
theorem exists_lt_renderAll (children : List Element) (rest : List Char) :
    ∃ more, renderAll children ++ '<' :: rest = '<' :: more := by
  cases children with
  | nil => exact ⟨rest, rfl⟩
  | cons e children =>
      cases e with
      | mk tag text inner =>
          simp only [renderAll, Element.render, List.cons_append]
          exact ⟨_, rfl⟩

/-- An element is read in four parts: its opening tag, its text, its children, and its
closing tag. -/
theorem readBack_of_writable {e : Element} (h : Writable e) : ReadBack e := by
  induction h with
  | @mk tag text children hTag hText _ ih =>
      intro rest offset opened b b' hHang
      -- Behind the text stands markup: the first child or the closing tag.
      obtain ⟨more, hMore⟩ := exists_lt_renderAll children ('/' :: tag.toList ++ '>' :: rest)
      obtain ⟨afterTag, hOpening⟩ := build_opening hTag
        (escape (text.getD "").toList ++ '<' :: more) offset opened b
      obtain ⟨afterText, hPiece⟩ := build_text hText more afterTag (tag :: opened)
      obtain ⟨afterChildren, hInner⟩ := build_children ih
        ('<' :: '/' :: tag.toList ++ '>' :: rest) afterText (tag :: opened) []
      obtain ⟨behind, hClosing⟩ := build_closing hTag rest afterChildren opened hHang
      have hRender : Element.render (.mk tag text children) ++ rest =
          '<' :: tag.toList ++ '>' :: (escape (text.getD "").toList ++ '<' :: more) := by
        rw [← hMore]
        simp [Element.render]
      refine ⟨behind, ?_⟩
      rw [hRender, hOpening, hPiece, ← hMore]
      exact hInner.trans hClosing

/-- A document is read as the element it was written from. -/
theorem parse_render {e : Element} (h : Writable e) :
    Element.parse (String.ofList e.render) = .ok e := by
  have hStart : Reader.ofText (String.ofList e.render) = ⟨e.render ++ [], 0, []⟩ := by
    cases e with
    | mk tag text children => simp [Reader.ofText, Element.render]
  obtain ⟨behind, hRead⟩ := readBack_of_writable h [] 0 [] Builder.start ⟨[], some e⟩ rfl
  rw [Element.parse, hStart, hRead, build_of_ended rfl]
  rfl

end Simgen.Markup
