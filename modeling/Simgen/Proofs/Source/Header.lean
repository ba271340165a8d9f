import Simgen.Source.Item
import Simgen.Proofs.Source.Trailing

/-! Headers of function definitions, as C++ writes them, and what they are read as. -/
namespace Simgen.Source

/-- A declarator of a function: its name right in front of its parameters, with marks and
parentheses around both. -/
inductive FunctionDeclarator (name : String) : (isPlain : Bool) → List Piece → Prop where
  | function {isPlain parameters ps trailer} : Contents parameters ps → Parameters true true ps →
      Trailing false trailer →
      FunctionDeclarator name isPlain (.word name :: .group .round parameters :: trailer)
  | mark {isPlain p ps} : p ∈ marks → FunctionDeclarator name false ps →
      FunctionDeclarator name isPlain (p :: ps)
  | enclosed {isPlain inside ps} : (isPlain = true → beginsDeclarator inside = true) →
      Contents inside ps → FunctionDeclarator name false ps →
      FunctionDeclarator name isPlain [.group .round inside]

/-- The header of a function with an unqualified name. -/
inductive FunctionHeader (name : String) : List Piece → Prop where
  | intro {leading isPlain core declarator} : IsName name → (∀ p ∈ leading, isLeading p = true) →
      CoreType isPlain core → FunctionDeclarator name isPlain declarator →
      FunctionHeader name (leading ++ (core ++ declarator))

/-- The header of a function with a qualified name; if `isOpen`, then up to a member that
lacks its value. Constructors and destructors have no type. -/
inductive MemberHeader (isOpen : Bool) : List Piece → Prop where
  | typed {leading isPlain core stars q name parameters ps trailer} :
      (∀ p ∈ leading, isLeading p = true) → CoreType isPlain core → (∀ p ∈ stars, p ∈ marks) →
      Qualifier q → q ≠ [] → IsName name → Contents parameters ps → Parameters true true ps →
      Trailing isOpen trailer →
      MemberHeader isOpen (leading ++ (core ++ (stars ++ (q ++
        .word name :: .group .round parameters :: trailer))))
  | untyped {leading q tilde name parameters ps trailer} :
      (∀ p ∈ leading, isLeading p = true) → Qualifier q → q ≠ [] →
      tilde ∈ [[], [Piece.symbol "~"]] → IsName name → beginsDeclarator parameters = false →
      Contents parameters ps → Parameters true true ps → Trailing isOpen trailer →
      MemberHeader isOpen
        (leading ++ (q ++ (tilde ++ .word name :: .group .round parameters :: trailer)))

/-- The header of a function whose name stands in parentheses without its parameters. -/
inductive HiddenHeader : List Piece → Prop where
  | intro {leading isPlain core stars inside parameters trailer} :
      (∀ p ∈ leading, isLeading p = true) → CoreType isPlain core → (∀ p ∈ stars, p ∈ marks) →
      (isPlain = true → stars = [] → beginsDeclarator inside = true) → Trailing false trailer →
      HiddenHeader (leading ++ (core ++ (stars ++
        .group .round inside :: .group .round parameters :: trailer)))

/-! ### The text of a header -/

/-- Pieces that no header of a function has. -/
def foreignPieces : List Piece :=
  [.word "try", .word "namespace", .constant true, .symbol "="]

/-- Whether a piece can stand anywhere in a header. -/
def isQuiet (p : Piece) : Bool := p ∉ foreignPieces ++ [.symbol ",", .symbol ":"]

/-- A part of a header, up to its end. -/
structure HeaderText (ps : List Piece) : Prop where
  plain : ∀ p ∈ ps, p ∉ foreignPieces
  notList : isList ps = false

theorem not_mem_foreignPieces {p : Piece} (h : isQuiet p = true) : p ∉ foreignPieces := by
  simp only [isQuiet, List.mem_append, not_or, decide_eq_true_eq] at h
  exact h.1

theorem headerText_nil : HeaderText [] := ⟨by simp, rfl⟩

theorem headerText_cons {p : Piece} {ps : List Piece} (hp : isQuiet p = true) (h : HeaderText ps) :
    HeaderText (p :: ps) := by
  refine ⟨List.forall_mem_cons.mpr ⟨not_mem_foreignPieces hp, h.plain⟩, ?_⟩
  simp only [isQuiet, foreignPieces, List.cons_append, List.nil_append, List.mem_cons,
    List.not_mem_nil, or_false, not_or, decide_eq_true_eq] at hp
  rw [isList, h.notList]
  · simp [hp]
  · exact hp.2.2.2.2.2

theorem headerText_append {front ps : List Piece} (hFront : ∀ p ∈ front, isQuiet p = true)
    (h : HeaderText ps) : HeaderText (front ++ ps) := by
  induction front with
  | nil => exact h
  | cons p front ih =>
      obtain ⟨hp, hMore⟩ := List.forall_mem_cons.mp hFront
      exact headerText_cons hp (ih hMore)

theorem IsTypePiece.quiet {p : Piece} (h : IsTypePiece p) : isQuiet p = true := by
  have hWords : ∀ w ∈ typeWords, isQuiet (.word w) = true := by decide
  cases h with
  | name hw =>
      have hTry := hw.ne (by decide : Cpp.isKeyword "try" = true)
      have hNamespace := hw.ne (by decide : Cpp.isKeyword "namespace" = true)
      simp [isQuiet, foreignPieces, hTry, hNamespace]
  | @word w hw => exact hWords w hw
  | arguments => decide
  | scope => decide

theorem quiet_of_isLeading {p : Piece} (h : isLeading p = true) : isQuiet p = true := by
  unfold isLeading at h
  split at h
  next w =>
    have hWords : ∀ w ∈ leadingWords, isQuiet (.word w) = true := by decide
    exact hWords w (by simpa using h)
  next => simp [isQuiet, foreignPieces]
  next => cases h

theorem quiet_of_isResult {p : Piece} (h : isResult p = true) : isQuiet p = true := by
  unfold isResult at h
  split at h
  next w =>
    simp only [ne_eq, Bool.and_eq_true, decide_eq_true_eq] at h
    simp [isQuiet, foreignPieces, h]
  next s =>
    simp only [List.contains_eq_mem, List.mem_cons, List.not_mem_nil, or_false,
      decide_eq_true_eq] at h
    rcases h with rfl | rfl | rfl <;> decide
  next => decide
  next => simp [isQuiet, foreignPieces]
  next => simp [isQuiet, foreignPieces]
  next => cases h

theorem quiet_group (b : Bracket) (inside : List Lexeme) : isQuiet (.group b inside) = true := by
  simp [isQuiet, foreignPieces]

theorem Initializers.plain {isOpen : Bool} {ps : List Piece} (h : Initializers isOpen ps) :
    ∀ p ∈ ps, p ∉ foreignPieces := by
  have hType : ∀ {p}, IsTypePiece p → p ∉ foreignPieces := fun h => not_mem_foreignPieces h.quiet
  have hGroup : ∀ b inside, Piece.group b inside ∉ foreignPieces :=
    fun b inside => not_mem_foreignPieces (quiet_group b inside)
  induction h with
  | named hq hw hArgs =>
      simp only [List.forall_mem_append, List.forall_mem_cons]
      exact ⟨fun p hp => hType (hq.isTypePiece p hp), hType (.name hw),
        fun p hp => hType (isTypePiece_of_optionalArguments hArgs p hp)⟩
  | last hq hw hArgs =>
      simp only [List.forall_mem_append, List.forall_mem_cons]
      exact ⟨fun p hp => hType (hq.isTypePiece p hp), hType (.name hw),
        fun p hp => hType (isTypePiece_of_optionalArguments hArgs p hp), hGroup _ _, by simp⟩
  | cons hq hw hArgs _ _ ih =>
      simp only [List.forall_mem_append, List.forall_mem_cons]
      exact ⟨fun p hp => hType (hq.isTypePiece p hp), hType (.name hw),
        fun p hp => hType (isTypePiece_of_optionalArguments hArgs p hp), hGroup _ _, by decide, ih⟩

theorem headerText_of_trailing {isOpen : Bool} {ps : List Piece} (h : Trailing isOpen ps) :
    HeaderText ps := by
  have hExceptions : ∀ w ∈ ["noexcept", "throw"], isQuiet (.word w) = true := by decide
  induction h with
  | nil => exact headerText_nil
  | @qualifier _ w _ hw _ ih =>
      have hWords : ∀ w ∈ ["const", "volatile", "override", "final"], isQuiet (.word w) = true := by
        decide
      exact headerText_cons (hWords w hw) ih
  | reference _ ih => exact headerText_cons (by decide) ih
  | attributes _ _ ih => exact headerText_cons (quiet_group ..) ih
  | @exceptions _ w _ hw _ ih => exact headerText_cons (hExceptions w hw) ih
  | @exceptionsIf _ w _ _ hw _ ih =>
      exact headerText_cons (hExceptions w hw) (headerText_cons (quiet_group ..) ih)
  | @result ps hResult =>
      refine headerText_cons (by decide) ?_
      simpa using headerText_append (fun p hp => quiet_of_isResult (hResult p hp)) headerText_nil
  | initializers hInitializers =>
      have hPlain := hInitializers.plain
      refine ⟨List.forall_mem_cons.mpr ⟨by decide, hPlain⟩, ?_⟩
      rw [isList]
      simpa using fun hMem => hPlain (.symbol "=") hMem (by decide)

theorem headerText_of_declarator {name : String} {isPlain : Bool} {ps : List Piece}
    (hName : IsName name) (h : FunctionDeclarator name isPlain ps) : HeaderText ps := by
  induction h with
  | function _ _ hTrailing =>
      exact headerText_cons (IsTypePiece.name hName).quiet
        (headerText_cons (quiet_group ..) (headerText_of_trailing hTrailing))
  | @mark _ p _ hp _ ih =>
      have hMarks : ∀ p ∈ marks, isQuiet p = true := by decide
      exact headerText_cons (hMarks p hp) ih
  | enclosed => exact headerText_cons (quiet_group ..) headerText_nil

theorem FunctionHeader.text {name : String} {ps : List Piece} (h : FunctionHeader name ps) :
    HeaderText ps := by
  obtain ⟨hName, hLeading, hCore, hDeclarator⟩ := h
  exact headerText_append (fun p hp => quiet_of_isLeading (hLeading p hp))
    (headerText_append (fun p hp => (hCore.isTypePiece p hp).quiet)
      (headerText_of_declarator hName hDeclarator))

theorem MemberHeader.text {isOpen : Bool} {ps : List Piece} (h : MemberHeader isOpen ps) :
    HeaderText ps := by
  have hMarks : ∀ p ∈ marks, isQuiet p = true := by decide
  have hTildes : ∀ tilde ∈ [[], [Piece.symbol "~"]], ∀ p ∈ tilde, isQuiet p = true := by decide
  cases h with
  | typed hLeading hCore hStars hq _ hName _ _ hTrailing =>
      refine headerText_append (fun p hp => quiet_of_isLeading (hLeading p hp)) ?_
      refine headerText_append (fun p hp => (hCore.isTypePiece p hp).quiet) ?_
      refine headerText_append (fun p hp => hMarks p (hStars p hp)) ?_
      refine headerText_append (fun p hp => (hq.isTypePiece p hp).quiet) ?_
      exact headerText_cons (IsTypePiece.name hName).quiet
        (headerText_cons (quiet_group ..) (headerText_of_trailing hTrailing))
  | @untyped _ _ tilde _ _ _ _ hLeading hq _ hTilde hName _ _ _ hTrailing =>
      refine headerText_append (fun p hp => quiet_of_isLeading (hLeading p hp)) ?_
      refine headerText_append (fun p hp => (hq.isTypePiece p hp).quiet) ?_
      refine headerText_append (hTildes tilde hTilde) ?_
      exact headerText_cons (IsTypePiece.name hName).quiet
        (headerText_cons (quiet_group ..) (headerText_of_trailing hTrailing))

theorem HiddenHeader.text {ps : List Piece} (h : HiddenHeader ps) : HeaderText ps := by
  have hMarks : ∀ p ∈ marks, isQuiet p = true := by decide
  obtain ⟨hLeading, hCore, hStars, _, hTrailing⟩ := h
  refine headerText_append (fun p hp => quiet_of_isLeading (hLeading p hp)) ?_
  refine headerText_append (fun p hp => (hCore.isTypePiece p hp).quiet) ?_
  refine headerText_append (fun p hp => hMarks p (hStars p hp)) ?_
  exact headerText_cons (quiet_group ..)
    (headerText_cons (quiet_group ..) (headerText_of_trailing hTrailing))

/-! ### The function that a header declares -/

section declaredBy

variable {inner : List Lexeme → Option String} {before : List Piece} {isOpen : Bool}

/-- Pieces other than parentheses are passed. -/
theorem declaredBy?_append {isLoose isInner : Bool} {ps : List Piece}
    (h : ∀ inside, .group .round inside ∉ ps) (rest : List Piece) :
    declaredBy? inner isLoose isInner before (ps ++ rest) =
      declaredBy? inner isLoose isInner (ps.reverse ++ before) rest := by
  induction ps generalizing before with
  | nil => rfl
  | cons p ps ih =>
      have hp : ∀ inside, p ≠ .group .round inside := by
        rintro inside rfl
        exact h inside (List.mem_cons_self ..)
      rw [List.cons_append, declaredBy?,
        ih fun inside hMem => h inside (List.mem_cons_of_mem _ hMem)]
      · simp
      · exact hp

theorem try_of_trailing {trailer : List Piece} (h : Trailing isOpen trailer) :
    trailer.contains (.word "try") = false := by
  simpa using fun hMem => (headerText_of_trailing h).plain _ hMem (by decide)

/-- Parentheses that hold parameters, or enclose a declarator, end the search. -/
theorem declaredBy?_round {name : Option String} {inside : List Lexeme} {trailer : List Piece}
    (hBefore : ∀ p ∈ before, p ∉ specialPieces)
    (hRole : callRole before inside = .parameters name ∨
      callRole before inside = .enclosing ∧ inner inside = name)
    (hTrailing : Trailing isOpen trailer) :
    ∃ t : Trailer, t.endsHeader = !isOpen ∧
      declaredBy? inner false false before (.group .round inside :: trailer) =
        some { name, trailer := t, isGuarded := false } := by
  obtain ⟨t, hRead, hEnds⟩ := read?_of_trailing hTrailing
  refine ⟨t, hEnds, ?_⟩
  rw [declaredBy?]
  simp only [dropWhile_of_trailing hTrailing, head_of_trailing hTrailing, hRead,
    try_of_trailing hTrailing, declaresTemplate_of_plain hBefore, declaresLinkage_of_plain hBefore]
  rcases hRole with hRole | ⟨hRole, rfl⟩
  · simp [hRole]
  · simp [hRole]

theorem enclosedName?_of_contents {fuel : Nat} {inside : List Lexeme} {ps : List Piece}
    {d : Declared} (h : Contents inside ps)
    (hDeclared : declaredBy? (enclosedName? fuel) false false [.symbol "("] ps = some d) :
    enclosedName? (fuel + 1) inside = d.name := by
  rw [enclosedName?, fold_pieces_of_contents h, hDeclared]
  rfl

/-- A declarator declares its name, however deep the parentheses are in which it stands. -/
theorem declaredBy?_of_declarator {name : String} (hName : IsName name) {isPlain : Bool}
    {ps : List Piece} (h : FunctionDeclarator name isPlain ps)
    (hBefore : PrecedesDeclarator before) (hEncloses : Encloses isPlain before)
    (hInner : ∀ inside, .group .round inside ∈ ps →
      ∃ fuel, inside.length < fuel ∧ inner inside = enclosedName? fuel inside) :
    ∃ t : Trailer, t.endsHeader = true ∧ declaredBy? inner false false before ps =
      some { name := some name, trailer := t, isGuarded := false } := by
  induction h generalizing before inner with
  | function hContents hParameters hTrailing =>
      have hRole := hBefore.callRole_name hName (listKindOf_of_parameters hContents hParameters)
      rw [← List.singleton_append, declaredBy?_append (by simp)]
      exact declaredBy?_round (List.forall_mem_cons.mpr ⟨hName.endsType.plain, hBefore.plain⟩)
        (.inl hRole) hTrailing
  | @mark _ p _ hp _ ih =>
      rw [← List.singleton_append, declaredBy?_append]
      · exact ih (hBefore.mark hp) (hBefore.encloses_mark hp)
          fun inside hMem => hInner inside (List.mem_cons_of_mem _ hMem)
      · intro inside hMem
        rw [List.mem_singleton] at hMem
        subst hMem
        simp [marks] at hp
  | @enclosed _ inside ps hBegins hContents _ ih =>
      obtain ⟨fuel, hLength, hFuel⟩ := hInner inside (List.mem_cons_self ..)
      cases fuel with
      | zero => omega
      | succ fuel =>
          -- What stands in the parentheses is shorter, so the fuel lasts for it.
          obtain ⟨t, _, hDeclared⟩ := ih precedesDeclarator_paren encloses_paren
            fun inner hMem => ⟨fuel, by have := length_of_contents hContents hMem; omega, rfl⟩
          refine declaredBy?_round hBefore.plain (.inr ⟨hEncloses inside hBegins, ?_⟩) .nil
          rw [hFuel, enclosedName?_of_contents hContents hDeclared]

/-- Behind enclosed parentheses, a list of parameters belongs to no name. -/
theorem declaredBy?_hidden {inside parameters : List Lexeme} {trailer : List Piece}
    (hRole : callRole before inside = .enclosing)
    (hTrailing : Trailing isOpen trailer) :
    ∃ t : Trailer, t.endsHeader = !isOpen ∧
      declaredBy? inner false false before
          (.group .round inside :: .group .round parameters :: trailer) =
        some { name := none, trailer := t, isGuarded := false } := by
  obtain ⟨t, hRead, hEnds⟩ := read?_of_trailing hTrailing
  refine ⟨t, hEnds, ?_⟩
  have hSuffix : isSuffix (.group .round parameters) = true := rfl
  have hRest : (Piece.group .round parameters :: trailer).dropWhile isSuffix = trailer := by
    rw [List.dropWhile_cons, if_pos hSuffix, dropWhile_of_trailing hTrailing]
  rw [declaredBy?]
  simp only [hRest, hRead, try_of_trailing hTrailing, hRole]
  simp [hSuffix]

/-- A qualified name is read, but is none at file scope. -/
theorem declaredBy?_of_member {found : List Piece} {name : String} {parameters : List Lexeme}
    {ps trailer : List Piece} (hFound : Precedes found) (hDrop : dropQualifier before = found)
    (hPlain : ∀ p ∈ before, p ∉ specialPieces) (hQualified : isQualified before = true)
    (hName : IsName name)
    (hFirst : found.all isModifier = true → beginsDeclarator parameters = false)
    (hContents : Contents parameters ps) (hParameters : Parameters true true ps)
    (hTrailing : Trailing isOpen trailer) :
    ∃ t : Trailer, t.endsHeader = !isOpen ∧
      declaredBy? inner false false before (.word name :: .group .round parameters :: trailer) =
        some { name := none, trailer := t, isGuarded := false } := by
  have hOperator : .word "operator" ∉ before := fun hMem => hPlain _ hMem (by decide)
  have hRole : callRole (.word name :: before) parameters = .parameters none := by
    rw [callRole, hFound.wordRole hDrop hName hOperator hFirst
      (listKindOf_of_parameters hContents hParameters), hQualified]
    rfl
  rw [← List.singleton_append, declaredBy?_append (by simp)]
  exact declaredBy?_round (List.forall_mem_cons.mpr ⟨hName.endsType.plain, hPlain⟩) (.inl hRole)
    hTrailing

end declaredBy

section header

variable {ps : List Piece}

theorem round_not_mem_leading {leading : List Piece} (h : ∀ p ∈ leading, isLeading p = true)
    (inside : List Lexeme) : .group .round inside ∉ leading :=
  fun hMem => absurd (h _ hMem) (by simp [isLeading])

theorem round_not_mem_type {ps : List Piece} (h : ∀ p ∈ ps, IsTypePiece p) (inside : List Lexeme) :
    .group .round inside ∉ ps :=
  fun hMem => (h _ hMem).ne_group _ _ rfl

theorem round_not_mem_marks {stars : List Piece} (h : ∀ p ∈ stars, p ∈ marks)
    (inside : List Lexeme) : .group .round inside ∉ stars :=
  fun hMem => absurd (h _ hMem) (by simp [marks])

/-- The header of a function declares it. -/
theorem FunctionHeader.declared? {name : String} (h : FunctionHeader name ps) :
    ∃ t : Trailer, t.endsHeader = true ∧
      declared? false ps = some { name := some name, trailer := t, isGuarded := false } := by
  obtain ⟨hName, hLeading, hCore, hDeclarator⟩ := h
  obtain ⟨hBefore, hEncloses⟩ := hCore.precedes hLeading
  rw [Source.declared?, declaredBy?_append (round_not_mem_leading hLeading),
    declaredBy?_append (round_not_mem_type hCore.isTypePiece), List.append_nil]
  exact declaredBy?_of_declarator hName hDeclarator hBefore hEncloses
    fun inside _ => ⟨inside.length + 1, Nat.lt_succ_self _, rfl⟩

/-- The header of a function with a qualified name declares none at file scope. -/
theorem MemberHeader.declared? {isOpen : Bool} (h : MemberHeader isOpen ps) :
    ∃ t : Trailer, t.endsHeader = !isOpen ∧
      declared? false ps = some { name := none, trailer := t, isGuarded := false } := by
  cases h with
  | @typed leading _ core stars q _ _ _ _ hLeading hCore hStars hq hNonempty hName hContents
      hParameters hTrailing =>
      have hBefore := (hCore.precedes hLeading).1.append_marks hStars
      have hDrop := (hq.dropQualifier _).trans hBefore.dropQualifier
      have hPlain : ∀ p ∈ q.reverse ++ (stars.reverse ++ (core.reverse ++ leading.reverse)),
          p ∉ specialPieces :=
        List.forall_mem_append.mpr
          ⟨fun p hp => (hq.isTypePiece p (by simpa using hp)).plain, hBefore.plain⟩
      rw [Source.declared?, declaredBy?_append (round_not_mem_leading hLeading),
        declaredBy?_append (round_not_mem_type hCore.isTypePiece),
        declaredBy?_append (round_not_mem_marks hStars),
        declaredBy?_append (round_not_mem_type hq.isTypePiece), List.append_nil]
      exact declaredBy?_of_member hBefore.toPrecedes hDrop hPlain (hq.isQualified hNonempty _) hName
        (by simp [hBefore.all_isModifier]) hContents hParameters hTrailing
  | @untyped leading q tilde _ _ _ _ hLeading hq hNonempty hTilde hName hFirst hContents
      hParameters hTrailing =>
      have hPlain : ∀ p ∈ q.reverse ++ leading.reverse, p ∉ specialPieces :=
        List.forall_mem_append.mpr ⟨fun p hp => (hq.isTypePiece p (by simpa using hp)).plain,
          (precedes_leading hLeading).plain⟩
      rw [Source.declared?, declaredBy?_append (round_not_mem_leading hLeading),
        declaredBy?_append (round_not_mem_type hq.isTypePiece), List.append_nil]
      simp only [List.mem_cons, List.not_mem_nil, or_false] at hTilde
      rcases hTilde with rfl | rfl
      · have hBefore := precedes_leading hLeading
        have hDrop := (hq.dropQualifier _).trans hBefore.dropQualifier
        exact declaredBy?_of_member hBefore hDrop hPlain (hq.isQualified hNonempty _) hName
          (fun _ => hFirst) hContents hParameters hTrailing
      · have hBefore : Precedes (.symbol "~" :: (q.reverse ++ leading.reverse)) :=
          ⟨by simp [precedesName], List.forall_mem_cons.mpr ⟨by decide, hPlain⟩⟩
        rw [declaredBy?_append (by simp)]
        exact declaredBy?_of_member hBefore hBefore.dropQualifier hBefore.plain rfl hName
          (fun _ => hFirst) hContents hParameters hTrailing

/-- A name that stands in parentheses without its parameters is not found. -/
theorem HiddenHeader.declared? (h : HiddenHeader ps) :
    ∃ t : Trailer, t.endsHeader = true ∧
      declared? false ps = some { name := none, trailer := t, isGuarded := false } := by
  obtain ⟨hLeading, hCore, hStars, hBegins, hTrailing⟩ := h
  obtain ⟨hBefore, hEncloses⟩ := hCore.precedes hLeading
  rw [Source.declared?, declaredBy?_append (round_not_mem_leading hLeading),
    declaredBy?_append (round_not_mem_type hCore.isTypePiece),
    declaredBy?_append (round_not_mem_marks hStars), List.append_nil]
  refine declaredBy?_hidden (hBefore.encloses_append_marks hEncloses hStars _ ?_) hTrailing
  simpa using hBegins

end header

end Simgen.Source
