import Simgen.Proofs.Source.TypeText

/-! What stands between the parameters of a function and its body is read to its end. -/
namespace Simgen.Source

/-- A piece of a result type behind an arrow. -/
def isResult : Piece → Bool
  | .word w => w ≠ "requires" && w ≠ "try" && w ≠ "namespace"
  | .symbol s => ["::", "*", "&"].contains s
  | .arguments => true
  | .group .round _ => true
  | .group .square _ => true
  | _ => false

/-- The initializers of members, in parentheses or braces; if `isOpen`, then up to the
name of one that lacks its value. -/
inductive Initializers : (isOpen : Bool) → List Piece → Prop where
  | named {q w args} : Qualifier q → IsName w → args ∈ optionalArguments →
      Initializers true (q ++ .word w :: args)
  | last {q w args b inside} : Qualifier q → IsName w → args ∈ optionalArguments → b ≠ .square →
      Initializers false (q ++ .word w :: (args ++ [.group b inside]))
  | cons {isOpen q w args b inside ps} : Qualifier q → IsName w → args ∈ optionalArguments →
      b ≠ .square → Initializers isOpen ps →
      Initializers isOpen (q ++ .word w :: (args ++ .group b inside :: .symbol "," :: ps))

/-- What may stand between the parameters of a function and its body; if `isOpen`, then up
to a member that lacks its value. -/
inductive Trailing : (isOpen : Bool) → List Piece → Prop where
  | nil : Trailing false []
  | qualifier {isOpen w ps} : w ∈ ["const", "volatile", "override", "final"] →
      Trailing isOpen ps → Trailing isOpen (.word w :: ps)
  | reference {isOpen ps} : Trailing isOpen ps → Trailing isOpen (.symbol "&" :: ps)
  | attributes {isOpen inside ps} : holdsAttributes inside = true → Trailing isOpen ps →
      Trailing isOpen (.group .square inside :: ps)
  | exceptions {isOpen w ps} : w ∈ ["noexcept", "throw"] → Trailing isOpen ps →
      Trailing isOpen (.word w :: ps)
  | exceptionsIf {isOpen w inside ps} : w ∈ ["noexcept", "throw"] → Trailing isOpen ps →
      Trailing isOpen (.word w :: .group .round inside :: ps)
  | result {ps} : (∀ p ∈ ps, isResult p = true) → Trailing false (.symbol "->" :: ps)
  | initializers {isOpen ps} : Initializers isOpen ps → Trailing isOpen (.symbol ":" :: ps)

section Trailing

variable {isOpen : Bool} {ps : List Piece}

/-- Pieces that are read from a state on, behind which braces are the body, or, if
`isOpen`, are not. -/
def ReadsFrom (isOpen : Bool) (state : Trailer) (ps : List Piece) : Prop :=
  ∃ t : Trailer, ps.foldlM (Trailer.step false) state = some t ∧ t.endsHeader = !isOpen

theorem readsFrom_nil {state : Trailer} (h : state.endsHeader = !isOpen) :
    ReadsFrom isOpen state [] :=
  ⟨state, rfl, h⟩

theorem readsFrom_cons {state next : Trailer} {p : Piece}
    (hStep : Trailer.step false state p = some next) (h : ReadsFrom isOpen next ps) :
    ReadsFrom isOpen state (p :: ps) := by
  obtain ⟨t, hRead, hEnds⟩ := h
  refine ⟨t, ?_, hEnds⟩
  rw [List.foldlM_cons, hStep]
  exact hRead

theorem readsFrom_result (h : ∀ p ∈ ps, isResult p = true) : ReadsFrom false .result ps := by
  induction ps with
  | nil => exact readsFrom_nil rfl
  | cons p ps ih =>
      obtain ⟨hp, hMore⟩ := List.forall_mem_cons.mp h
      refine readsFrom_cons ?_ (ih hMore)
      show Trailer.stepResult p = some .result
      unfold isResult at hp
      split at hp
      next w =>
        rw [Trailer.stepResult]
        rintro rfl
        exact absurd hp (by decide)
      next s =>
        simp only [List.contains_eq_mem, List.mem_cons, List.not_mem_nil, or_false,
          decide_eq_true_eq] at hp
        rcases hp with rfl | rfl | rfl <;> rfl
      next => rfl
      next => rfl
      next => rfl
      next => cases hp

/-- A name, perhaps with arguments, where the name of a member is due. -/
theorem readsFrom_name {w : String} (hw : IsName w) {args : List Piece}
    (hArgs : args ∈ optionalArguments) (h : ReadsFrom isOpen .value ps) :
    ReadsFrom isOpen .member (.word w :: (args ++ ps)) := by
  have hStep : Trailer.step false .member (.word w) = some .value := by
    rw [Trailer.step]
    exact hw.ne (by decide)
  refine readsFrom_cons hStep ?_
  simp only [optionalArguments, List.mem_cons, List.not_mem_nil, or_false] at hArgs
  rcases hArgs with rfl | rfl
  · exact h
  · exact readsFrom_cons rfl h

theorem readsFrom_qualifier {q : List Piece} (hq : Qualifier q) (h : ReadsFrom isOpen .member ps) :
    ReadsFrom isOpen .member (q ++ ps) := by
  induction hq with
  | nil => exact h
  | cons hw hArgs _ ih =>
      simp only [List.cons_append, List.append_assoc]
      exact readsFrom_name hw hArgs (readsFrom_cons rfl ih)

theorem step_value {b : Bracket} (hb : b ≠ .square) (inside : List Lexeme) :
    Trailer.step false .value (.group b inside) = some .initialized := by
  cases b with
  | round => rfl
  | square => exact absurd rfl hb
  | brace => rfl

theorem readsFrom_initializers (h : Initializers isOpen ps) : ReadsFrom isOpen .member ps := by
  induction h with
  | named hq hw hArgs =>
      have hValue : ReadsFrom true .value [] := readsFrom_nil rfl
      simpa using readsFrom_qualifier hq (readsFrom_name hw hArgs hValue)
  | last hq hw hArgs hb =>
      exact readsFrom_qualifier hq
        (readsFrom_name hw hArgs (readsFrom_cons (step_value hb _) (readsFrom_nil rfl)))
  | cons hq hw hArgs hb _ ih =>
      exact readsFrom_qualifier hq
        (readsFrom_name hw hArgs (readsFrom_cons (step_value hb _) (readsFrom_cons rfl ih)))

/-- Specifiers may have parentheses, and go on like qualifiers without them. -/
theorem readsFrom_plain {state next : Trailer} (hState : state ∈ [.plain, .called]) {p : Piece}
    (hStep : Trailer.stepPlain p = some next) (h : ReadsFrom isOpen next ps) :
    ReadsFrom isOpen state (p :: ps) := by
  refine readsFrom_cons ?_ h
  simp only [List.mem_cons, List.not_mem_nil, or_false] at hState
  rcases hState with rfl | rfl
  · exact hStep
  · rw [Trailer.step]
    · exact hStep
    · rintro inside rfl
      cases hStep

theorem readsFrom_trailing (h : Trailing isOpen ps) {state : Trailer}
    (hState : state ∈ [.plain, .called]) : ReadsFrom isOpen state ps := by
  have hExceptions : ∀ w ∈ ["noexcept", "throw"], Trailer.stepPlain (.word w) = some .called := by
    decide
  induction h generalizing state with
  | nil =>
      have hEnds : ∀ state ∈ [Trailer.plain, .called], state.endsHeader = true := by decide
      exact readsFrom_nil (hEnds state hState)
  | @qualifier _ w _ hw _ ih =>
      have hWords : ∀ w ∈ ["const", "volatile", "override", "final"],
          Trailer.stepPlain (.word w) = some .plain := by
        decide
      exact readsFrom_plain hState (hWords w hw) (ih (by decide))
  | reference _ ih => exact readsFrom_plain hState rfl (ih (by decide))
  | attributes _ _ ih => exact readsFrom_plain hState rfl (ih (by decide))
  | @exceptions _ w _ hw _ ih => exact readsFrom_plain hState (hExceptions w hw) (ih (by decide))
  | @exceptionsIf _ w _ _ hw _ ih =>
      exact readsFrom_plain hState (hExceptions w hw) (readsFrom_cons rfl (ih (by decide)))
  | result hResult => exact readsFrom_plain hState rfl (readsFrom_result hResult)
  | initializers hInitializers =>
      exact readsFrom_plain hState rfl (readsFrom_initializers hInitializers)

/-- What may follow the parameters of a function is read to its end. -/
theorem read?_of_trailing (h : Trailing isOpen ps) :
    ∃ t : Trailer, Trailer.read? false ps = some t ∧ t.endsHeader = !isOpen :=
  readsFrom_trailing h (by decide)

/-- Nothing that follows the parameters makes the declarator go on. -/
theorem head_of_trailing (h : Trailing isOpen ps) : ps.head?.any isSuffix = false := by
  cases h with
  | attributes hInside => simp [isSuffix, hInside]
  | _ => rfl

theorem dropWhile_of_trailing (h : Trailing isOpen ps) : ps.dropWhile isSuffix = ps := by
  have hHead := head_of_trailing h
  cases ps with
  | nil => rfl
  | cons p ps =>
      rw [List.dropWhile_cons, if_neg]
      simpa using hHead

end Trailing

end Simgen.Source
