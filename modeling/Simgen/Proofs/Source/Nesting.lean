import Simgen.Source.Conditional

/-! Sources whose brackets and conditional groups are nested in each other. Such a source
needs no balancing, and its pieces are those of its parts. -/
namespace Simgen.Source

namespace Bracket

/-- The lexeme that opens a bracket. -/
def opener (b : Bracket) : Lexeme := { kind := .symbol, text := b.opening }

/-- The lexeme that closes a bracket. -/
def closer (b : Bracket) : Lexeme := { kind := .symbol, text := b.closing }

end Bracket

/-- A lexeme that neither opens nor closes a bracket. -/
def Lexeme.IsPlain (l : Lexeme) : Prop :=
  l.kind ≠ .missing ∧ (l.kind = .symbol → ∀ b : Bracket, l.text ≠ b.opening ∧ l.text ≠ b.closing)

/-- The directive that a lexeme is, as a piece. -/
def directivePiece (l : Lexeme) : Piece := .directive (directiveName l.text)

/-- Lexemes in which brackets and conditional groups are nested in each other, and their
pieces at the outermost level. Directives that divide a group stand right in it, that is
where `inGroup` holds. -/
inductive Nests : (inGroup : Bool) → List Lexeme → List Piece → Prop where
  | nil {inGroup} : Nests inGroup [] []
  | leaf {inGroup l ls ps} : l.IsPlain → boundaryOf? l = none → Nests inGroup ls ps →
      Nests inGroup (l :: ls) ((leaf? l).toList ++ ps)
  | bracket {inGroup inside inner ls ps} (b : Bracket) : Nests false inside inner →
      Nests inGroup ls ps →
      Nests inGroup (b.opener :: inside ++ b.closer :: ls) (.group b inside :: ps)
  | conditional {inGroup first last inside inner ls ps} : boundaryOf? first = some .opening →
      boundaryOf? last = some .closing → Nests true inside inner → Nests inGroup ls ps →
      Nests inGroup (first :: inside ++ last :: ls)
        (directivePiece first :: inner ++ directivePiece last :: ps)
  | dividing {l ls ps} : boundaryOf? l = some .dividing → Nests true ls ps →
      Nests true (l :: ls) (directivePiece l :: ps)

section lexemes

variable {l : Lexeme} {boundary : Boundary}

theorem kind_of_boundaryOf? (h : boundaryOf? l = some boundary) : l.kind = .directive := by
  unfold boundaryOf? at h
  split at h
  next hKind => exact hKind
  next => cases h

theorem isPlain_of_boundaryOf? (h : boundaryOf? l = some boundary) : l.IsPlain := by
  have hKind := kind_of_boundaryOf? h
  constructor
  · rw [hKind]
    decide
  · intro hSymbol
    rw [hKind] at hSymbol
    cases hSymbol

theorem Lexeme.IsPlain.opens (h : l.IsPlain) (b : Bracket) : b.opens l = false := by
  by_cases hKind : l.kind = .symbol
  · simp [Bracket.opens, hKind, (h.2 hKind b).1]
  · simp [Bracket.opens, hKind]

theorem Lexeme.IsPlain.closes (h : l.IsPlain) (b : Bracket) : b.closes l = false := by
  by_cases hKind : l.kind = .symbol
  · simp [Bracket.closes, hKind, (h.2 hKind b).2]
  · simp [Bracket.closes, hKind, h.1]

theorem Lexeme.IsPlain.opened? (h : l.IsPlain) : Bracket.opened? l = none := by
  unfold Bracket.opened?
  split
  next hKind =>
    rw [List.find?_eq_none]
    intro b _
    simpa using fun hEq => (h.2 hKind b).1 hEq.symm
  next => rfl

theorem Lexeme.IsPlain.depthAfter (h : l.IsPlain) (b : Bracket) (depth : Nat) :
    b.depthAfter depth l = depth := by
  simp [Bracket.depthAfter, h.opens b, h.closes b]

theorem opens_opener (b other : Bracket) : b.opens other.opener = decide (b = other) := by
  cases b <;> cases other <;> decide

theorem closes_opener (b other : Bracket) : b.closes other.opener = false := by
  cases b <;> cases other <;> decide

theorem opens_closer (b other : Bracket) : b.opens other.closer = false := by
  cases b <;> cases other <;> decide

theorem closes_closer (b other : Bracket) : b.closes other.closer = decide (b = other) := by
  cases b <;> cases other <;> decide

theorem opened?_opener (b : Bracket) : Bracket.opened? b.opener = some b := by
  cases b <;> decide

theorem leaf?_of_boundaryOf? (h : boundaryOf? l = some boundary) :
    leaf? l = some (directivePiece l) := by
  simp [leaf?, kind_of_boundaryOf? h, directivePiece]

end lexemes

section balance

variable {l : Lexeme} {ls : List Lexeme} {opened : Nat} {outer : List Nat}

theorem balance_plain (hOpens : Bracket.brace.opens l = false)
    (hCloses : Bracket.brace.closes l = false) (hBoundary : boundaryOf? l = none) :
    balance opened outer (l :: ls) = l :: balance opened outer ls := by
  rw [balance.eq_def]
  simp [hOpens, hCloses, hBoundary]

theorem balance_opener :
    balance opened outer (Bracket.brace.opener :: ls) =
      Bracket.brace.opener :: balance (opened + 1) outer ls := by
  rw [balance.eq_def]
  simp [opens_opener]

theorem balance_closer :
    balance (opened + 1) outer (Bracket.brace.closer :: ls) =
      Bracket.brace.closer :: balance opened outer ls := by
  rw [balance.eq_def]
  simp [opens_closer, closes_closer]

theorem balance_opening (h : boundaryOf? l = some .opening) :
    balance opened outer (l :: ls) = l :: balance 0 (opened :: outer) ls := by
  have hPlain := isPlain_of_boundaryOf? h
  rw [balance.eq_def]
  simp [hPlain.opens, hPlain.closes, h]

theorem balance_dividing (h : boundaryOf? l = some .dividing) (hOuter : outer ≠ []) :
    balance 0 outer (l :: ls) = l :: balance 0 outer ls := by
  have hPlain := isPlain_of_boundaryOf? h
  cases outer with
  | nil => exact absurd rfl hOuter
  | cons n outer =>
      rw [balance.eq_def]
      simp [hPlain.opens, hPlain.closes, h, missingBraces]

theorem balance_closing (h : boundaryOf? l = some .closing) :
    balance 0 (opened :: outer) (l :: ls) = l :: balance opened outer ls := by
  have hPlain := isPlain_of_boundaryOf? h
  rw [balance.eq_def]
  simp [hPlain.opens, hPlain.closes, h, missingBraces]

end balance

/-- Where brackets are nested, no brace is missing. -/
theorem balance_of_nests {inGroup : Bool} {ls : List Lexeme} {ps : List Piece}
    (h : Nests inGroup ls ps) {opened : Nat} {outer : List Nat}
    (hGroup : inGroup = true → opened = 0 ∧ outer ≠ []) (rest : List Lexeme) :
    balance opened outer (ls ++ rest) = ls ++ balance opened outer rest := by
  induction h generalizing opened outer rest with
  | nil => rfl
  | leaf hPlain hBoundary _ ih =>
      rw [List.cons_append, balance_plain (hPlain.opens _) (hPlain.closes _) hBoundary, ih hGroup]
      rfl
  | @bracket inGroup inside inner ls ps b _ _ ihInside ih =>
      simp only [List.cons_append, List.append_assoc]
      cases b with
      | brace => rw [balance_opener, ihInside (by simp), balance_closer, ih hGroup]
      | round =>
          rw [balance_plain rfl rfl rfl, ihInside (by simp), balance_plain rfl rfl rfl, ih hGroup]
      | square =>
          rw [balance_plain rfl rfl rfl, ihInside (by simp), balance_plain rfl rfl rfl, ih hGroup]
  | conditional hFirst hLast _ _ ihInside ih =>
      simp only [List.cons_append, List.append_assoc]
      rw [balance_opening hFirst, ihInside (by simp), balance_closing hLast, ih hGroup]
  | dividing hDividing _ ih =>
      obtain ⟨rfl, hOuter⟩ := hGroup rfl
      rw [List.cons_append, balance_dividing hDividing hOuter, ih hGroup]
      rfl

section enclosed

variable {b other : Bracket} {l : Lexeme} {ls inside : List Lexeme} {depth braces : Nat}

/-- How deep a bracket is open in another one. -/
def innerDepth (b other : Bracket) (depth : Nat) : Nat := if b = other then depth + 1 else depth

theorem enclosed?_plain (hPlain : l.IsPlain) (hBraces : b = .brace → braces = 0) :
    enclosed? b depth braces inside (l :: ls) = enclosed? b depth braces (l :: inside) ls := by
  rw [enclosed?]
  by_cases hb : b = .brace
  · simp [hb, hPlain.closes, hPlain.depthAfter, hBraces hb]
  · simp [hb, hPlain.closes, hPlain.depthAfter]

theorem enclosed?_opener :
    enclosed? b depth braces inside (other.opener :: ls) =
      enclosed? b (innerDepth b other depth)
        (if b = .brace then 0 else innerDepth .brace other braces) (other.opener :: inside) ls := by
  rw [enclosed?]
  simp only [closes_opener, Bracket.depthAfter, opens_opener, innerDepth]
  by_cases hb : b = .brace
  · simp [hb]
  · simp [hb]

theorem enclosed?_closer (hBraces : b = .brace → braces = 0) :
    enclosed? b (innerDepth b other depth)
        (if b = .brace then 0 else innerDepth .brace other braces) inside (other.closer :: ls) =
      enclosed? b depth braces (other.closer :: inside) ls := by
  rw [enclosed?]
  simp only [closes_closer, Bracket.depthAfter, opens_closer, innerDepth]
  cases b with
  | brace =>
      obtain rfl := hBraces rfl
      cases other <;> simp
  | round => cases other <;> simp
  | square => cases other <;> simp

theorem enclosed?_of_nests {inGroup : Bool} {contents : List Lexeme} {ps : List Piece}
    (h : Nests inGroup contents ps) (hBraces : b = .brace → braces = 0) (ls : List Lexeme) :
    enclosed? b depth braces inside (contents ++ ls) =
      enclosed? b depth braces (contents.reverse ++ inside) ls := by
  induction h generalizing depth braces inside ls with
  | nil => rfl
  | leaf hPlain _ _ ih =>
      rw [List.cons_append, enclosed?_plain hPlain hBraces, ih hBraces]
      simp
  | @bracket _ contents _ _ _ other _ _ ihInside ih =>
      have hInner : b = .brace →
          (if b = .brace then 0 else innerDepth .brace other braces) = 0 := fun hb => if_pos hb
      simp only [List.cons_append, List.append_assoc]
      rw [enclosed?_opener, ihInside hInner, enclosed?_closer hBraces, ih hBraces]
      simp
  | conditional hFirst hLast _ _ ihInside ih =>
      simp only [List.cons_append, List.append_assoc]
      rw [enclosed?_plain (isPlain_of_boundaryOf? hFirst) hBraces, ihInside hBraces,
        enclosed?_plain (isPlain_of_boundaryOf? hLast) hBraces, ih hBraces]
      simp
  | dividing hDividing _ ih =>
      rw [List.cons_append, enclosed?_plain (isPlain_of_boundaryOf? hDividing) hBraces, ih hBraces]
      simp

/-- A bracket around nested lexemes holds just these. -/
theorem enclosed?_closed {inGroup : Bool} {contents : List Lexeme} {ps : List Piece}
    (h : Nests inGroup contents ps) (b : Bracket) (ls : List Lexeme) :
    enclosed? b 0 0 [] (contents ++ b.closer :: ls) = some (.group b contents, ls) := by
  have hKind : b.closer.kind = .symbol := rfl
  rw [enclosed?_of_nests h fun _ => rfl, enclosed?]
  cases b <;> simp [closes_closer, hKind]

end enclosed

theorem pieces_boundary {l : Lexeme} {boundary : Boundary} (h : boundaryOf? l = some boundary)
    (ls : List Lexeme) : pieces (l :: ls) = directivePiece l :: pieces ls := by
  rw [pieces.eq_def]
  simp [(isPlain_of_boundaryOf? h).opened?, leaf?_of_boundaryOf? h]

/-- The pieces of nested lexemes do not depend on what follows. -/
theorem pieces_of_nests {inGroup : Bool} {ls : List Lexeme} {ps : List Piece}
    (h : Nests inGroup ls ps) (rest : List Lexeme) : pieces (ls ++ rest) = ps ++ pieces rest := by
  induction h generalizing rest with
  | nil => rfl
  | leaf hPlain _ _ ih =>
      rw [List.cons_append, pieces.eq_def]
      simp [hPlain.opened?, ih]
  | @bracket _ contents _ ls _ b hContents _ _ ih =>
      simp only [List.cons_append, List.append_assoc]
      rw [pieces.eq_def]
      simp only [opened?_opener]
      split
      next p more hEnclosed =>
        rw [enclosed?_closed hContents] at hEnclosed
        cases hEnclosed
        rw [ih]
      next hNone =>
        rw [enclosed?_closed hContents] at hNone
        cases hNone
  | conditional hFirst hLast _ _ ihInside ih =>
      simp only [List.cons_append, List.append_assoc]
      rw [pieces_boundary hFirst, ihInside, pieces_boundary hLast, ih]
  | dividing hDividing _ ih =>
      rw [List.cons_append, pieces_boundary hDividing, ih, List.cons_append]

theorem leaf?_ne_group (l : Lexeme) (b : Bracket) (inside : List Lexeme) :
    leaf? l ≠ some (.group b inside) := by
  unfold leaf?
  split <;> simp

/-- What stands in a bracket is shorter than the text around it. -/
theorem length_of_nests {inGroup : Bool} {ls inside : List Lexeme} {ps : List Piece} {b : Bracket}
    (h : Nests inGroup ls ps) (hMem : .group b inside ∈ ps) : inside.length < ls.length := by
  induction h with
  | nil => simp at hMem
  | leaf _ _ _ ih =>
      rcases List.mem_append.mp hMem with hLeaf | hMore
      · exact absurd (Option.mem_toList.mp hLeaf) (leaf?_ne_group _ b inside)
      · exact Nat.lt_succ_of_lt (ih hMore)
  | bracket other _ _ _ ih =>
      simp only [List.cons_append, List.length_cons, List.length_append]
      rcases List.mem_cons.mp hMem with hEq | hMore
      · cases hEq
        omega
      · have := ih hMore
        omega
  | conditional _ _ _ _ ihInside ih =>
      simp only [directivePiece, List.cons_append, List.mem_cons, List.mem_append, reduceCtorEq,
        false_or] at hMem
      simp only [List.cons_append, List.length_cons, List.length_append]
      rcases hMem with hInside | hMore
      · have := ihInside hInside
        omega
      · have := ih hMore
        omega
  | dividing _ _ ih =>
      simp only [directivePiece, List.mem_cons, reduceCtorEq, false_or] at hMem
      exact Nat.lt_succ_of_lt (ih hMem)

end Simgen.Source
