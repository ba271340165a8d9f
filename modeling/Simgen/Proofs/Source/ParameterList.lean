import Simgen.Source.Parameters
import Simgen.Proofs.Source.Folding
import Simgen.Proofs.Source.Nesting

/-! Lists of parameters are not taken for the arguments of a call. -/
namespace Simgen.Source

/-- The contents of parentheses, as pieces. -/
def Contents (inside : List Lexeme) (ps : List Piece) : Prop :=
  ∃ raw, Nests false inside raw ∧ Folds raw ps

theorem fold_pieces_of_contents {inside : List Lexeme} {ps : List Piece} (h : Contents inside ps) :
    fold (pieces inside) = ps := by
  obtain ⟨raw, hRaw, hFolds⟩ := h
  have hPieces : pieces inside = raw := by simpa [pieces] using pieces_of_nests hRaw []
  rw [hPieces, fold_of_folds hFolds]

/-- What stands in further parentheses is shorter. -/
theorem length_of_contents {inside inner : List Lexeme} {ps : List Piece} {b : Bracket}
    (h : Contents inside ps) (hMem : .group b inner ∈ ps) : inner.length < inside.length := by
  obtain ⟨raw, hRaw, hFolds⟩ := h
  exact length_of_nests hRaw (mem_of_folds hFolds hMem (by simp))

/-- What may stand in a list of parameters; `atStart` says that a parameter begins. Marks
of pointers and parentheses may begin one only in further parentheses, which enclose its
declarator. -/
inductive Parameters : (isOuter atStart : Bool) → List Piece → Prop where
  | nil {isOuter atStart} : Parameters isOuter atStart []
  | comma {isOuter atStart ps} : Parameters isOuter true ps →
      Parameters isOuter atStart (.symbol "," :: ps)
  | ellipsis {isOuter atStart ps} : Parameters isOuter false ps →
      Parameters isOuter atStart (.symbol "." :: .symbol "." :: .symbol "." :: ps)
  | word {isOuter atStart w ps} : w ∉ valueWords → Parameters isOuter false ps →
      Parameters isOuter atStart (.word w :: ps)
  | scope {isOuter atStart ps} : Parameters isOuter false ps →
      Parameters isOuter atStart (.symbol "::" :: ps)
  | arguments {isOuter atStart ps} : Parameters isOuter false ps →
      Parameters isOuter atStart (.arguments :: ps)
  | mark {isOuter atStart s ps} : s ∈ ["*", "&"] → (isOuter && atStart) = false →
      Parameters isOuter false ps → Parameters isOuter atStart (.symbol s :: ps)
  | square {isOuter atStart inside ps} : (atStart = true → holdsAttributes inside = true) →
      Parameters isOuter false ps → Parameters isOuter atStart (.group .square inside :: ps)
  | round {isOuter atStart inside inner ps} : (isOuter && atStart) = false →
      Contents inside inner → Parameters false true inner → Parameters isOuter false ps →
      Parameters isOuter atStart (.group .round inside :: ps)
  | default {isOuter atStart value} : .symbol "," ∉ value →
      Parameters isOuter atStart (.symbol "=" :: value)
  | defaultThen {isOuter atStart value ps} : .symbol "," ∉ value → Parameters isOuter true ps →
      Parameters isOuter atStart (.symbol "=" :: value ++ .symbol "," :: ps)

section scanList

variable {inner : List Lexeme → ListKind} {isOuter : Bool} {place : ListPlace} {ps : List Piece}

theorem scanList_default_cons {p : Piece} (hp : p ≠ .symbol ",") (ps : List Piece) :
    scanList inner isOuter .default (p :: ps) = scanList inner isOuter .default ps := by
  by_cases hDots : ∃ rest, p :: ps = .symbol "." :: .symbol "." :: .symbol "." :: rest
  · -- Three dots are passed at once, which comes to the same as one after the other.
    obtain ⟨rest, hEq⟩ := hDots
    cases hEq
    rw [scanList_default_cons (by simp) (.symbol "." :: rest),
      scanList_default_cons (by simp) rest, scanList]
    simp
  · rw [scanList.eq_def]
    split <;> simp_all
  termination_by ps.length

/-- A default value goes on up to a comma. -/
theorem scanList_default_append {value : List Piece} (h : .symbol "," ∉ value) (ps : List Piece) :
    scanList inner isOuter .default (value ++ ps) = scanList inner isOuter .default ps := by
  induction value with
  | nil => rfl
  | cons p value ih =>
      rw [List.mem_cons, not_or] at h
      rw [List.cons_append, scanList_default_cons (Ne.symm h.1), ih h.2]

theorem scanList_mark {s : String} (hPlace : place ≠ .default) (hs : s ∈ ["*", "&"])
    (hOuter : (isOuter && place = .start) = false) :
    scanList inner isOuter place (.symbol s :: ps) = scanList inner isOuter .mark ps := by
  simp only [List.mem_cons, List.not_mem_nil, or_false] at hs
  rcases hs with rfl | rfl
  · rw [scanList.eq_def]
    simp [hPlace, hOuter]
  · rw [scanList.eq_def]
    simp [hPlace, hOuter]

theorem scanList_square {inside : List Lexeme} (hPlace : place ≠ .default)
    (hStart : place = .start → holdsAttributes inside = true) :
    ∃ next, next ≠ .start ∧ next ≠ .default ∧
      scanList inner isOuter place (.group .square inside :: ps) =
        scanList inner isOuter next ps := by
  refine ⟨if place = .name then .name else .other, ?_, ?_, ?_⟩
  · split <;> decide
  · split <;> decide
  · have hAttributes : (place = .start && !holdsAttributes inside) = false := by
      by_cases hEq : place = .start
      · simp [hStart hEq]
      · simp [hEq]
    rw [scanList.eq_def]
    simp [hPlace, hAttributes]

theorem scanList_round {inside : List Lexeme} (hPlace : place ≠ .default)
    (hOuter : (isOuter && place = .start) = false) (hInner : inner inside ≠ .arguments) :
    scanList inner isOuter place (.group .round inside :: ps) =
      scanList inner isOuter .other ps := by
  rw [scanList.eq_def]
  simp [hPlace, hOuter, hInner]

/-- A word of a parameter, where a type may go on behind it. -/
theorem scanList_word {w : String} (hPlace : place ≠ .default) (hw : w ∉ valueWords)
    (h : ∀ next, next ≠ .start → next ≠ .default → scanList inner isOuter next ps ≠ .arguments) :
    scanList inner isOuter place (.word w :: ps) ≠ .arguments := by
  have hName := h .name (by decide) (by decide)
  have hOther := h .other (by decide) (by decide)
  rw [scanList.eq_def]
  dsimp only
  rw [if_neg hPlace]
  by_cases hDeclaring : place = .name || declaringWords.contains w
  · rw [if_pos hDeclaring]
    decide
  rw [if_neg hDeclaring]
  by_cases hMark : place = .mark
  · rwa [if_pos hMark]
  rw [if_neg hMark, if_neg (by simpa using hw)]
  split
  next =>
    -- A type is complete here, so only braces or a call could make it a value.
    split
    next => simp [scanList] at hOther
    next inside rest =>
      by_cases hInner : inner inside = .arguments
      · simp [scanList, hInner] at hOther
      · rw [if_neg hInner]
        decide
    next => decide
  next => exact hName

end scanList

theorem outer_start {isOuter atStart : Bool} {place : ListPlace} (h : (isOuter && atStart) = false)
    (hStart : place = .start → atStart = true) : (isOuter && place = .start) = false := by
  by_cases hEq : place = .start
  · simpa [hEq, hStart hEq] using h
  · simp [hEq]

/-- No list of parameters shows arguments. -/
theorem scanList_of_parameters {isOuter atStart : Bool} {ps : List Piece}
    (h : Parameters isOuter atStart ps) (fuel : Nat) {place : ListPlace} (hPlace : place ≠ .default)
    (hStart : place = .start → atStart = true) :
    scanList (listKind fuel false) isOuter place ps ≠ .arguments := by
  induction h generalizing fuel place with
  | nil =>
      rw [scanList]
      decide
  | comma _ ih =>
      rw [scanList]
      exact ih fuel (by decide) (by simp)
  | ellipsis _ ih =>
      rw [scanList, if_neg hPlace]
      split
      next => decide
      next => exact ih fuel (by decide) (by simp)
  | word hw _ ih =>
      exact scanList_word hPlace hw fun next hNext hDefault =>
        ih fuel hDefault fun hEq => absurd hEq hNext
  | scope _ ih =>
      rw [scanList, if_neg hPlace]
      exact ih fuel (by decide) (by simp)
  | arguments _ ih =>
      rw [scanList, if_neg hPlace]
      exact ih fuel (by decide) (by simp)
  | mark hs hOuter _ ih =>
      rw [scanList_mark hPlace hs]
      · exact ih fuel (by decide) (by simp)
      · exact outer_start hOuter hStart
  | square hAttributes _ ih =>
      obtain ⟨next, hNext, hDefault, hEq⟩ :=
        scanList_square hPlace fun hEq => hAttributes (hStart hEq)
      rw [hEq]
      exact ih fuel hDefault fun hEq => absurd hEq hNext
  | round hOuter hInside _ _ ihInner ih =>
      rw [scanList_round hPlace]
      · exact ih fuel (by decide) (by simp)
      · exact outer_start hOuter hStart
      · cases fuel with
        | zero =>
            rw [listKind]
            decide
        | succ fuel =>
            rw [listKind, fold_pieces_of_contents hInside]
            exact ihInner fuel (by decide) (by simp)
  | @default _ _ value hValue =>
      rw [scanList, if_neg hPlace, ← List.append_nil value, scanList_default_append hValue,
        scanList]
      decide
  | defaultThen hValue _ ih =>
      rw [List.cons_append, scanList, if_neg hPlace, scanList_default_append hValue, scanList]
      exact ih fuel (by decide) (by simp)

/-- What may be a list of parameters is not read as the arguments of a call. -/
theorem listKindOf_of_parameters {inside : List Lexeme} {ps : List Piece} (h : Contents inside ps)
    (hParameters : Parameters true true ps) : listKindOf inside ≠ .arguments := by
  rw [listKindOf, listKind, fold_pieces_of_contents h]
  exact scanList_of_parameters hParameters _ (by decide) (by simp)

end Simgen.Source
