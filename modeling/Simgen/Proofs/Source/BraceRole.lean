import Simgen.Proofs.Source.Header

/-! The headers of braces at file scope, and the roles of the braces behind them. -/
namespace Simgen.Source

/-- Whether a piece can stand at the beginning of an item. -/
def beginsHeader : Piece → Bool
  | .symbol s => s = "::"
  | _ => true

/-- A header without parentheses: of a class, an enumeration or a variable. -/
structure ObjectText (header : List Piece) : Prop extends HeaderText header where
  nonempty : header ≠ []
  start : ∀ p ∈ header.head?, beginsHeader p = true
  noRound : ∀ inside, .group .round inside ∉ header

/-- Whether a piece may follow another one in an initializer or a list of declarators. A
name does not follow an operand, and a declaration does not begin where an operand is
due. -/
def follows (last : Piece) : Piece → Bool
  | .word w =>
    if endsOperand last then Cpp.isKeyword w && w ∉ declarationWords
    else last ∉ [.symbol "=", .symbol ","] || w ∉ declarationWords
  | _ => true

/-- Whether pieces may follow a piece in an initializer or a list of declarators. -/
def flows (last : Piece) : List Piece → Bool
  | [] => true
  | p :: ps => follows last p && flows p ps

/-- A header with an initializer, or with several declarators. -/
structure InitialText (header : List Piece) : Prop where
  start : ∀ p ∈ header.head?, beginsHeader p = true
  notNamespace : .word "namespace" ∉ header
  last : header.getLast? ≠ some (.constant true)
  list : ∃ front s rest, header = front ++ .symbol s :: rest ∧ s ∈ ["=", ","] ∧
    (∀ p ∈ front, p ∉ [.symbol "=", .symbol ",", .symbol ":"]) ∧ flows (.symbol s) rest = true

/-- The header of braces that are only a part of an item: they hold the members of a class
or an enumeration, or are an initializer. -/
def PartHeader (header : List Piece) : Prop :=
  ∃ ps, Folds header ps ∧ (ObjectText ps ∨ InitialText ps ∨ MemberHeader true ps)

/-- The names of a namespace in namespaces. -/
inductive NamespaceName : List Piece → Prop where
  | last {w} : IsName w → NamespaceName [.word w]
  | cons {w ps} : IsName w → NamespaceName ps → NamespaceName (.word w :: .symbol "::" :: ps)

/-- The header of a namespace or a linkage block. -/
inductive ScopeHeader : List Piece → Prop where
  | unnamed : ScopeHeader [.word "namespace"]
  | named {ps} : NamespaceName ps → ScopeHeader (.word "namespace" :: ps)
  | inlined {ps} : NamespaceName ps → ScopeHeader (.word "inline" :: .word "namespace" :: ps)
  | linkage : ScopeHeader [.word "extern", .constant true]

/-! ### The start of a header -/

section start

variable {ps : List Piece}

theorem start_append {front : List Piece} (hFront : ∀ p ∈ front, beginsHeader p = true)
    (h : ∀ p ∈ ps.head?, beginsHeader p = true) :
    ∀ p ∈ (front ++ ps).head?, beginsHeader p = true := by
  cases front with
  | nil => exact h
  | cons p front => simpa using hFront p (List.mem_cons_self ..)

theorem start_of_ne_nil {front : List Piece} (hNonempty : front ≠ [])
    (hFront : ∀ p ∈ front, beginsHeader p = true) (ps : List Piece) :
    ∀ p ∈ (front ++ ps).head?, beginsHeader p = true := by
  obtain ⟨p, rest, rfl⟩ := List.exists_cons_of_ne_nil hNonempty
  simpa using hFront p (List.mem_cons_self ..)

theorem IsTypePiece.beginsHeader {p : Piece} (h : IsTypePiece p) : beginsHeader p = true := by
  cases h <;> simp [Source.beginsHeader]

theorem beginsHeader_of_isLeading {p : Piece} (h : isLeading p = true) : beginsHeader p = true := by
  unfold isLeading at h
  split at h
  next => rfl
  next => rfl
  next => cases h

theorem CoreType.ne_nil {isPlain : Bool} {core : List Piece} (h : CoreType isPlain core) :
    core ≠ [] := by
  cases h <;> simp_all

theorem FunctionHeader.start {name : String} (h : FunctionHeader name ps) :
    ∀ p ∈ ps.head?, beginsHeader p = true := by
  obtain ⟨_, hLeading, hCore, _⟩ := h
  refine start_append (fun p hp => beginsHeader_of_isLeading (hLeading p hp)) ?_
  exact start_of_ne_nil hCore.ne_nil (fun p hp => (hCore.isTypePiece p hp).beginsHeader) _

theorem HiddenHeader.start (h : HiddenHeader ps) : ∀ p ∈ ps.head?, beginsHeader p = true := by
  obtain ⟨hLeading, hCore, _⟩ := h
  refine start_append (fun p hp => beginsHeader_of_isLeading (hLeading p hp)) ?_
  exact start_of_ne_nil hCore.ne_nil (fun p hp => (hCore.isTypePiece p hp).beginsHeader) _

theorem MemberHeader.start {isOpen : Bool} (h : MemberHeader isOpen ps) :
    ∀ p ∈ ps.head?, beginsHeader p = true := by
  cases h with
  | typed hLeading hCore =>
      refine start_append (fun p hp => beginsHeader_of_isLeading (hLeading p hp)) ?_
      exact start_of_ne_nil hCore.ne_nil (fun p hp => (hCore.isTypePiece p hp).beginsHeader) _
  | untyped hLeading hq hNonempty =>
      refine start_append (fun p hp => beginsHeader_of_isLeading (hLeading p hp)) ?_
      exact start_of_ne_nil hNonempty (fun p hp => (hq.isTypePiece p hp).beginsHeader) _

end start

/-! ### The roles of braces -/

section braceRole

variable {header ps : List Piece}

theorem dropUnfinished_cons {hasColon inList : Bool} {last : Option Piece} {kept : List Piece}
    {p : Piece}
    (h : ∀ w l, p = .word w → last = some l → (inList && beginsNext l w ps.head?) = false) :
    dropUnfinished hasColon inList last kept (p :: ps) =
      dropUnfinished (hasColon || p = .symbol ":")
        (inList || p = .symbol "=" || p = .symbol "," && !hasColon) (some p) (p :: kept) ps := by
  rw [dropUnfinished.eq_def]
  dsimp only
  rw [if_neg]
  split
  next w l => exact Bool.eq_false_iff.mp (h w l rfl rfl)
  next => decide

/-- A header that is no list is kept whole: a comma in it stands behind a colon. -/
theorem dropUnfinished_of_notList {hasColon : Bool} {last : Option Piece} {kept : List Piece}
    (h : if hasColon then .symbol "=" ∉ ps else isList ps = false) :
    dropUnfinished hasColon false last kept ps = kept.reverse ++ ps := by
  induction ps generalizing hasColon last kept with
  | nil => simp [dropUnfinished]
  | cons p ps ih =>
      have hKept : (p :: kept).reverse ++ ps = kept.reverse ++ p :: ps := by simp
      rw [dropUnfinished_cons (by simp), ← hKept]
      cases hasColon with
      | true =>
          simp only [if_true, List.mem_cons, not_or] at h
          rw [decide_eq_false (Ne.symm h.1), Bool.true_or, Bool.not_true, Bool.and_false]
          exact ih h.2
      | false =>
          simp only [Bool.false_eq_true, if_false] at h
          by_cases hColon : p = .symbol ":"
          · subst hColon
            rw [isList] at h
            exact ih (by simpa using h)
          · have hList : isList (p :: ps) = (p = .symbol "=" || p = .symbol "," || isList ps) := by
              rw [isList]
              exact hColon
            rw [hList, Bool.or_eq_false_iff, Bool.or_eq_false_iff] at h
            rw [decide_eq_false hColon, h.1.1, h.1.2]
            exact ih h.2

theorem beginsNext_of_follows {last : Piece} {w : String} (h : follows last (.word w) = true)
    (next : Option Piece) : beginsNext last w next = false := by
  unfold follows at h
  unfold beginsNext
  by_cases hOperand : endsOperand last = true
  · simp only [hOperand, if_true, Bool.and_eq_true, decide_eq_true_eq] at h
    simp [hOperand, beginsItem, h]
  · simp only [hOperand, Bool.false_eq_true, if_false, Bool.or_eq_true, decide_eq_true_eq] at h
    rw [if_neg hOperand]
    rcases h with h | h
    · simp only [List.mem_cons, List.not_mem_nil, or_false, not_or] at h
      simp [h]
    · simp [h]

theorem dropUnfinished_of_flows {hasColon : Bool} {last : Piece} {kept : List Piece}
    (h : flows last ps = true) :
    dropUnfinished hasColon true (some last) kept ps = kept.reverse ++ ps := by
  induction ps generalizing hasColon last kept with
  | nil => simp [dropUnfinished]
  | cons p ps ih =>
      rw [flows, Bool.and_eq_true] at h
      rw [dropUnfinished_cons, Bool.true_or, Bool.true_or, ih h.2]
      · simp
      · intro w l hWord hLast
        cases hLast
        subst hWord
        rw [Bool.true_and]
        exact beginsNext_of_follows h.1 _

/-- A list of declarators in which no other item begins is kept whole. -/
theorem dropUnfinished_of_list {front rest : List Piece} {s : String} (hs : s ∈ ["=", ","])
    (hFront : ∀ p ∈ front, p ∉ [.symbol "=", .symbol ",", .symbol ":"])
    (hFlows : flows (.symbol s) rest = true) (last : Option Piece) (kept : List Piece) :
    dropUnfinished false false last kept (front ++ .symbol s :: rest) =
      kept.reverse ++ (front ++ .symbol s :: rest) := by
  induction front generalizing last kept with
  | nil =>
      simp only [List.mem_cons, List.not_mem_nil, or_false] at hs
      have hList : (false || Piece.symbol s = .symbol "=" ||
          Piece.symbol s = .symbol "," && !false) = true := by
        simpa using hs
      rw [List.nil_append, dropUnfinished_cons (by simp), hList, dropUnfinished_of_flows hFlows]
      simp
  | cons p front ih =>
      obtain ⟨hp, hMore⟩ := List.forall_mem_cons.mp hFront
      simp only [List.mem_cons, List.not_mem_nil, or_false, not_or] at hp
      rw [List.cons_append, dropUnfinished_cons (by simp), decide_eq_false hp.1,
        decide_eq_false hp.2.1, decide_eq_false hp.2.2]
      refine (ih hMore (some p) (p :: kept)).trans ?_
      simp

theorem isList_of_list {front rest : List Piece} {s : String} (hs : s ∈ ["=", ","])
    (hFront : ∀ p ∈ front, p ∉ [.symbol "=", .symbol ",", .symbol ":"]) :
    isList (front ++ .symbol s :: rest) = true := by
  induction front with
  | nil =>
      simp only [List.mem_cons, List.not_mem_nil, or_false] at hs
      rcases hs with rfl | rfl <;> simp [isList]
  | cons p front ih =>
      obtain ⟨hp, hMore⟩ := List.forall_mem_cons.mp hFront
      simp only [List.mem_cons, List.not_mem_nil, or_false, not_or] at hp
      rw [List.cons_append, isList, ih hMore, Bool.or_true]
      exact hp.2.2

theorem opensNamespace_of_not_mem (h : .word "namespace" ∉ ps) : opensNamespace ps = false := by
  fun_induction opensNamespace ps with
  | case1 => rfl
  | case2 ps => exact absurd (List.mem_cons_self ..) h
  | case3 ps ih => simp at h
  | case4 p ps _ _ ih => exact ih fun hMem => h (List.mem_cons_of_mem _ hMem)

theorem opensLinkage_of_getLast? (h : ps.getLast? ≠ some (.constant true)) :
    opensLinkage ps = false := by
  rw [← List.head?_reverse] at h
  unfold opensLinkage
  split
  next hEq =>
    rw [hEq] at h
    exact absurd rfl h
  next => rfl

theorem dropWhile_isStray (hStart : ∀ p ∈ ps.head?, beginsHeader p = true) :
    ps.dropWhile isStray = ps := by
  cases ps with
  | nil => rfl
  | cons p ps =>
      have hp := hStart p rfl
      rw [List.dropWhile_cons, if_neg]
      unfold isStray
      split
      next s =>
        have hs : s = "::" := by simpa [beginsHeader] using hp
        simp [hs]
      next => decide

theorem startsExpression_of_start (hStart : ∀ p ∈ ps.head?, beginsHeader p = true) :
    startsExpression ps = false := by
  unfold startsExpression
  split
  next s ps =>
    have hs : s = "::" := by simpa [beginsHeader] using hStart (.symbol s) rfl
    subst hs
    decide
  next => rfl

theorem HeaderText.opensNamespace (h : HeaderText ps) : opensNamespace ps = false :=
  opensNamespace_of_not_mem fun hMem => h.plain _ hMem (by decide)

theorem HeaderText.opensLinkage (h : HeaderText ps) : opensLinkage ps = false :=
  opensLinkage_of_getLast? fun hLast => h.plain _ (List.mem_of_getLast? hLast) (by decide)

/-- The role of braces behind a header that is no list. -/
theorem braceRole_of_text (hFolds : Folds header ps) (hText : HeaderText ps) (hNonempty : ps ≠ [])
    (hStart : ∀ p ∈ ps.head?, beginsHeader p = true) (isBlock : Bool) :
    braceRole isBlock header =
      match (declared? false ps).or (if isBlock then declared? true ps else none) with
      | none => if endsStatement ps then .scope else .part
      | some d =>
        if !d.trailer.endsHeader then .part
        else if d.isGuarded then .guarded d.name
        else .body d.name := by
  have hKept : dropUnfinished false false none [] ps = ps :=
    dropUnfinished_of_notList (by simpa using hText.notList)
  have hScope : (ps.isEmpty || opensNamespace ps || opensLinkage ps) = false := by
    simp [hNonempty, hText.opensNamespace, hText.opensLinkage]
  unfold braceRole
  rw [fold_of_folds hFolds, dropWhile_isStray hStart, hKept]
  have hList : ¬ isList ps = true := by simp [hText.notList]
  have hExpression : ¬ startsExpression ps = true := by simp [startsExpression_of_start hStart]
  exact (if_neg (by simp [hScope])).trans ((if_neg hList).trans (if_neg hExpression))

/-- Braces behind the header of a function are its body, unless a member lacks its value. -/
theorem braceRole_of_declared (hFolds : Folds header ps) (hText : HeaderText ps)
    (hStart : ∀ p ∈ ps.head?, beginsHeader p = true) {name : Option String} {isOpen : Bool}
    (h : ∃ t : Trailer, t.endsHeader = !isOpen ∧
      declared? false ps = some { name, trailer := t, isGuarded := false }) (isBlock : Bool) :
    braceRole isBlock header = if isOpen then .part else .body name := by
  obtain ⟨t, hEnds, hDeclared⟩ := h
  have hNonempty : ps ≠ [] := by
    rintro rfl
    simp [declared?, declaredBy?] at hDeclared
  rw [braceRole_of_text hFolds hText hNonempty hStart, hDeclared]
  cases isOpen <;> simp [hEnds]

theorem braceRole_of_function {name : String} (hFolds : Folds header ps)
    (h : FunctionHeader name ps) (isBlock : Bool) :
    braceRole isBlock header = .body (some name) := by
  obtain ⟨t, hEnds, hDeclared⟩ := h.declared?
  exact braceRole_of_declared hFolds h.text h.start ⟨t, hEnds.trans Bool.not_false.symm, hDeclared⟩
    isBlock

theorem braceRole_of_hidden (hFolds : Folds header ps) (h : HiddenHeader ps) (isBlock : Bool) :
    braceRole isBlock header = .body none := by
  obtain ⟨t, hEnds, hDeclared⟩ := h.declared?
  exact braceRole_of_declared hFolds h.text h.start ⟨t, hEnds.trans Bool.not_false.symm, hDeclared⟩
    isBlock

theorem braceRole_of_member {isOpen : Bool} (hFolds : Folds header ps) (h : MemberHeader isOpen ps)
    (isBlock : Bool) : braceRole isBlock header = if isOpen then .part else .body none :=
  braceRole_of_declared hFolds h.text h.start h.declared? isBlock

/-- Braces behind a header without parentheses are a part of the item. -/
theorem braceRole_of_object (hFolds : Folds header ps) (h : ObjectText ps) (isBlock : Bool) :
    braceRole isBlock header = .part := by
  have hDeclared : ∀ isLoose, declared? isLoose ps = none := by
    intro isLoose
    rw [declared?, ← List.append_nil ps, declaredBy?_append h.noRound, declaredBy?]
  have hEnds : endsStatement ps = false := by
    have hRound : ∀ inside, .group .round inside ∉ ps.reverse := by simpa using h.noRound
    unfold endsStatement
    split
    next => rfl
    next => rfl
    next inside rest _ _ hEq =>
      rw [hEq] at hRound
      exact absurd (List.mem_cons_self ..) (hRound inside)
    next => rfl
  rw [braceRole_of_text hFolds h.toHeaderText h.nonempty h.start, hDeclared, hDeclared, hEnds]
  simp

/-- Braces in an initializer are a part of the item. -/
theorem braceRole_of_initial (hFolds : Folds header ps) (h : InitialText ps) (isBlock : Bool) :
    braceRole isBlock header = .part := by
  obtain ⟨front, s, rest, hEq, hs, hFront, hFlows⟩ := h.list
  have hKept : dropUnfinished false false none [] ps = ps := by
    rw [hEq]
    exact dropUnfinished_of_list hs hFront hFlows none []
  have hList : isList ps = true := by
    rw [hEq]
    exact isList_of_list hs hFront
  have hScope : (ps.isEmpty || opensNamespace ps || opensLinkage ps) = false := by
    rw [opensNamespace_of_not_mem h.notNamespace, opensLinkage_of_getLast? h.last, hEq]
    simp
  unfold braceRole
  rw [fold_of_folds hFolds, dropWhile_isStray h.start, hKept]
  dsimp only
  rw [hScope, if_neg Bool.false_ne_true, if_pos hList]

theorem braceRole_of_part (h : PartHeader header) (isBlock : Bool) :
    braceRole isBlock header = .part := by
  obtain ⟨ps, hFolds, hObject | hInitial | hMember⟩ := h
  · exact braceRole_of_object hFolds hObject isBlock
  · exact braceRole_of_initial hFolds hInitial isBlock
  · exact braceRole_of_member hFolds hMember isBlock

theorem NamespaceName.isTypePiece (h : NamespaceName ps) : ∀ p ∈ ps, IsTypePiece p := by
  induction h with
  | last hw => simpa using IsTypePiece.name hw
  | cons hw _ ih => simpa using ⟨IsTypePiece.name hw, IsTypePiece.scope, ih⟩

theorem NamespaceName.namesNamespace (h : NamespaceName ps) : namesNamespace false ps = true := by
  induction h with
  | last hw =>
      rw [Source.namesNamespace]
      · simp [hw.1, Source.namesNamespace]
      · simp
      · exact hw.ne (by decide)
  | cons hw _ ih =>
      rw [Source.namesNamespace]
      · simp [hw.1, Source.namesNamespace, ih]
      · simp
      · exact hw.ne (by decide)

theorem IsTypePiece.unfolded {p : Piece} (h : IsTypePiece p) :
    p ∉ [.symbol "<", .word "operator"] := by
  have hOperator : p ≠ .word "operator" := fun hEq => h.plain (hEq ▸ by decide)
  cases h <;> simp_all

theorem NamespaceName.folds (h : NamespaceName ps) : Folds ps ps :=
  folds_self fun p hp => (h.isTypePiece p hp).unfolded

theorem NamespaceName.isList (h : NamespaceName ps) : isList ps = false := by
  have hText := headerText_append (fun p hp => (h.isTypePiece p hp).quiet) headerText_nil
  simpa using hText.notList

/-- The header of a namespace or a linkage has nothing to fold, and is no list. -/
theorem ScopeHeader.text (h : ScopeHeader header) :
    Folds header header ∧ isList header = false ∧ (∀ p ∈ header.head?, beginsHeader p = true) := by
  cases h with
  | unnamed => exact ⟨.leaf (by decide) .nil, rfl, by simp [beginsHeader]⟩
  | named hName =>
      refine ⟨.leaf (by decide) hName.folds, ?_, by simp [beginsHeader]⟩
      simpa [Source.isList] using hName.isList
  | inlined hName =>
      refine ⟨.leaf (by decide) (.leaf (by decide) hName.folds), ?_, by simp [beginsHeader]⟩
      simpa [Source.isList] using hName.isList
  | linkage =>
      exact ⟨.leaf (by decide) (.leaf (by decide) .nil), rfl, by simp [beginsHeader]⟩

theorem ScopeHeader.opens (h : ScopeHeader header) :
    (header.isEmpty || opensNamespace header || opensLinkage header) = true := by
  cases h with
  | unnamed => rfl
  | named hName => simp [opensNamespace, hName.namesNamespace]
  | inlined hName => simp [opensNamespace, hName.namesNamespace]
  | linkage => rfl

/-- Braces behind the header of a namespace or a linkage hold nothing at file scope. -/
theorem braceRole_of_scope (h : ScopeHeader header) (isBlock : Bool) :
    braceRole isBlock header = .scope := by
  obtain ⟨hFolds, hList, hStart⟩ := h.text
  have hKept : dropUnfinished false false none [] header = header :=
    dropUnfinished_of_notList (by simpa using hList)
  unfold braceRole
  rw [fold_of_folds hFolds, dropWhile_isStray hStart, hKept]
  dsimp only
  rw [if_pos h.opens]

end braceRole

end Simgen.Source
