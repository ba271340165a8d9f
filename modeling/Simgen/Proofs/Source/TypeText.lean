import Simgen.Source.Declarator
import Simgen.Proofs.Source.ParameterList

/-! The types of functions, and the roles of parentheses behind them. -/
namespace Simgen.Source

/-! ### Names and types -/

/-- A word that the language leaves to its users. -/
def IsName (w : String) : Prop :=
  Cpp.isKeyword w = false ∧ w ∉ basicTypes ∧ w ∉ callWords ∧ w ∉ specifierWords

theorem IsName.ne {w k : String} (h : IsName w) (hk : Cpp.isKeyword k = true) : w ≠ k := by
  rintro rfl
  rw [h.1] at hk
  cases hk

theorem IsName.not_mem {w : String} (h : IsName w) {ks : List String}
    (hks : ∀ k ∈ ks, Cpp.isKeyword k = true) : w ∉ ks :=
  fun hMem => h.ne (hks w hMem) rfl

/-- Template arguments that may be missing. -/
def optionalArguments : List (List Piece) := [[], [.arguments]]

/-- The qualifier of a name. -/
inductive Qualifier : List Piece → Prop where
  | nil : Qualifier []
  | cons {w args ps} : IsName w → args ∈ optionalArguments → Qualifier ps →
      Qualifier (.word w :: (args ++ .symbol "::" :: ps))

/-- The type of a declaration without what stands around it. Parentheses behind a name
that is not introduced by a keyword (`isPlain`) may hold something else than a
declarator. -/
inductive CoreType : (isPlain : Bool) → List Piece → Prop where
  | basic {ws} : ws ≠ [] → (∀ w ∈ ws, w ∈ "auto" :: basicTypes) → CoreType false (ws.map .word)
  | elaborated {e q w args} : e ∈ elaboratingWords → Qualifier q → IsName w →
      args ∈ optionalArguments → CoreType false (.word e :: (q ++ .word w :: args))
  | named {global q w args} : global ∈ [[], [Piece.symbol "::"]] → Qualifier q → IsName w →
      args ∈ optionalArguments → CoreType true (global ++ (q ++ .word w :: args))
  | wide : CoreType true [.word "wchar_t"]

/-- Words of a type that are no names. -/
def typeWords : List String := "auto" :: "wchar_t" :: (elaboratingWords ++ basicTypes)

/-- What a type consists of. -/
inductive IsTypePiece : Piece → Prop where
  | name {w} : IsName w → IsTypePiece (.word w)
  | word {w} : w ∈ typeWords → IsTypePiece (.word w)
  | arguments : IsTypePiece .arguments
  | scope : IsTypePiece (.symbol "::")

theorem isTypePiece_of_optionalArguments {args : List Piece} (h : args ∈ optionalArguments) :
    ∀ p ∈ args, IsTypePiece p := by
  simp only [optionalArguments, List.mem_cons, List.not_mem_nil, or_false] at h
  rcases h with rfl | rfl
  · simp
  · simpa using IsTypePiece.arguments

theorem Qualifier.isTypePiece {q : List Piece} (h : Qualifier q) : ∀ p ∈ q, IsTypePiece p := by
  induction h with
  | nil => simp
  | cons hw hArgs _ ih =>
      simp only [List.forall_mem_cons, List.forall_mem_append]
      exact ⟨.name hw, isTypePiece_of_optionalArguments hArgs, .scope, ih⟩

theorem CoreType.isTypePiece {isPlain : Bool} {core : List Piece} (h : CoreType isPlain core) :
    ∀ p ∈ core, IsTypePiece p := by
  cases h with
  | basic _ hBasic =>
      intro p hp
      obtain ⟨w, hw, rfl⟩ := List.mem_map.mp hp
      have hMem := hBasic w hw
      refine .word ?_
      simp only [typeWords, List.mem_cons, List.mem_append] at hMem ⊢
      exact hMem.imp_right fun h => .inr (.inr h)
  | elaborated he hq hw hArgs =>
      simp only [List.forall_mem_cons, List.forall_mem_append]
      refine ⟨.word ?_, hq.isTypePiece, .name hw, isTypePiece_of_optionalArguments hArgs⟩
      simp [typeWords, he]
  | named hGlobal hq hw hArgs =>
      simp only [List.forall_mem_cons, List.forall_mem_append]
      refine ⟨?_, hq.isTypePiece, .name hw, isTypePiece_of_optionalArguments hArgs⟩
      simp only [List.mem_cons, List.not_mem_nil, or_false] at hGlobal
      rcases hGlobal with rfl | rfl
      · simp
      · simpa using IsTypePiece.scope
  | wide => simpa using IsTypePiece.word (by decide : "wchar_t" ∈ typeWords)

theorem IsTypePiece.ne_group {p : Piece} (h : IsTypePiece p) (b : Bracket) (inside : List Lexeme) :
    p ≠ .group b inside := by
  cases h <;> simp

/-- Words that may stand in front of the type of a function. -/
def leadingWords : List String :=
  ["static", "inline", "extern", "constexpr", "consteval", "const", "volatile"]

/-- What may stand in front of the type of a function. -/
def isLeading : Piece → Bool
  | .word w => leadingWords.contains w
  | .group .square inside => holdsAttributes inside
  | _ => false

/-- Marks of pointers and references, and their qualifiers. -/
def marks : List Piece := [.symbol "*", .symbol "&", .word "const", .word "volatile"]

/-! ### What stands before a name -/

/-- Whether a name can follow a piece in a declaration. -/
def precedesName : Piece → Bool
  | .word w => w ∉ "template" :: (elaboratingWords ++ expressionWords)
  | .symbol s => s ∈ ["*", "&", "(", "~"]
  | .arguments => true
  | .group .square _ => true
  | _ => false

/-- Pieces that make the name behind them something else than that of a plain function. -/
def specialPieces : List Piece := [.word "operator", .word "template", .constant true]

/-- Pieces, in reverse, behind which the name of a function may stand. -/
structure Precedes (before : List Piece) : Prop where
  last : ∀ p ∈ before.head?, precedesName p = true
  plain : ∀ p ∈ before, p ∉ specialPieces

/-- Pieces, in reverse, that hold the type of a function. -/
structure PrecedesDeclarator (before : List Piece) : Prop extends Precedes before where
  typed : ∃ p ∈ before, isModifier p = false
  notQualified : isQualified before = false
  notMember : hasMemberPointer before = false

theorem dropQualifier_cons {p : Piece} (hScope : p ≠ .symbol "::")
    (hTemplate : p ≠ .word "template") (ps : List Piece) :
    dropQualifier (p :: ps) = p :: ps := by
  rw [dropQualifier.eq_def]
  split <;> simp_all

theorem declaresTemplate_of_plain {before : List Piece} (h : ∀ p ∈ before, p ∉ specialPieces) :
    declaresTemplate before = false := by
  fun_induction declaresTemplate before with
  | case1 ps ih => exact absurd (by decide) (h (.word "template") (List.mem_cons_self ..))
  | case2 ps => exact absurd (by decide) (h (.word "template") (List.mem_cons_self ..))
  | case3 p ps _ _ ih => exact ih (List.forall_mem_cons.mp h).2
  | case4 => rfl

theorem declaresLinkage_of_plain {before : List Piece} (h : ∀ p ∈ before, p ∉ specialPieces) :
    declaresLinkage before = false := by
  fun_induction declaresLinkage before with
  | case1 ps => exact absurd (by decide) (h (.constant true) (List.mem_cons_self ..))
  | case2 p ps _ ih => exact ih (List.forall_mem_cons.mp h).2
  | case3 => rfl

section Precedes

variable {before : List Piece}

theorem Precedes.operator (h : Precedes before) : .word "operator" ∉ before :=
  fun hMem => h.plain _ hMem (by decide)

theorem Precedes.dropQualifier (h : Precedes before) : dropQualifier before = before := by
  cases before with
  | nil => rw [dropQualifier.eq_def]
  | cons p ps =>
      have hp := h.last p rfl
      refine dropQualifier_cons ?_ ?_ ps
      · rintro rfl
        exact absurd hp (by decide)
      · rintro rfl
        exact absurd hp (by decide)

theorem Precedes.notElaborated (h : Precedes before) :
    (elaboratingWords.any fun e => before.head? = some (.word e)) = false := by
  rw [List.any_eq_false]
  intro e he hHead
  have hLast := h.last (.word e) (by simpa using hHead)
  simp [precedesName, he] at hLast

theorem Precedes.inExpression {found : List Piece} (h : Precedes found)
    (hDrop : Source.dropQualifier before = found) : inExpression before = false := by
  rw [Source.inExpression, hDrop]
  split
  next s p rest =>
    have hLast := h.last (.symbol s) rfl
    simp only [precedesName, List.mem_cons, List.not_mem_nil, or_false, decide_eq_true_eq] at hLast
    rcases hLast with rfl | rfl | rfl | rfl <;> rfl
  next w rest =>
    have hLast := h.last (.word w) rfl
    simp_all [precedesName]
  next => rfl

/-- Parentheses behind a name of a function hold its parameters. -/
theorem Precedes.wordRole {name : String} {parameters : List Lexeme} {found : List Piece}
    (h : Precedes found) (hDrop : Source.dropQualifier before = found) (hName : IsName name)
    (hOperator : .word "operator" ∉ before)
    (hFirst : found.all isModifier = true → beginsDeclarator parameters = false)
    (hParameters : listKindOf parameters ≠ .arguments) :
    wordRole name false before parameters =
      .parameters (if isQualified before || hasMemberPointer before then none else some name) := by
  have hKeyword : isKeywordName name before = false := by simp [isKeywordName, hName.1]
  have hDeclarator : (isFirstName before && beginsDeclarator parameters) = false := by
    rw [isFirstName, hDrop]
    by_cases hAll : found.all isModifier = true
    · simp [hFirst hAll]
    · simp [hAll]
  have hWord : name ≠ "operator" := hName.ne (by decide)
  rw [apply_ite CallRole.parameters]
  simp [Source.wordRole, hKeyword, hName.2.2.1, hWord, hOperator, hName.1, hName.2.1, hDrop,
    h.notElaborated, hDeclarator, h.inExpression hDrop, hParameters]

end Precedes

/-- Words that parentheses follow only around a declarator. -/
def completeWords : List String := ["auto", "const", "volatile"] ++ basicTypes

theorem isKeywordName_of_mem {w : String} (h : w ∈ completeWords) (before : List Piece) :
    isKeywordName w before = false := by
  have hWords : ∀ w ∈ ["auto", "const", "volatile"], w ∈ declaratorWords := by decide
  have hw : w ∈ basicTypes ∨ w ∈ declaratorWords := by
    rcases List.mem_append.mp h with hKeyword | hBasic
    · exact .inr (hWords w hKeyword)
    · exact .inl hBasic
  rcases hw with hw | hw
  · simp [isKeywordName, hw]
  · simp [isKeywordName, hw]

theorem wordRole_of_mem {w : String} (h : w ∈ completeWords) {before : List Piece}
    (hOperator : .word "operator" ∉ before) (inside : List Lexeme) :
    wordRole w false before inside = .enclosing := by
  have hWords : ∀ w ∈ completeWords, w ∉ callWords ∧ w ≠ "operator" := by decide
  have hKeywords : ∀ w ∈ ["auto", "const", "volatile"],
      (Cpp.isKeyword w && w ≠ "wchar_t") = true := by
    decide
  have hType : (Cpp.isKeyword w && w ≠ "wchar_t" || basicTypes.contains w) = true := by
    rcases List.mem_append.mp h with hKeyword | hBasic
    · rw [hKeywords w hKeyword, Bool.true_or]
    · simp [hBasic]
  obtain ⟨hCall, hWord⟩ := hWords w h
  unfold wordRole
  rw [isKeywordName_of_mem h, if_neg (by simp), if_neg (by simpa using hCall),
    if_neg (by simp [hWord, hOperator]), if_pos hType]

/-- Parentheses behind the name of a type enclose a declarator if it is introduced by a
keyword, or if they begin like one. -/
theorem wordRole_of_typeName {w : String} (h : IsName w ∨ w = "wchar_t") {before : List Piece}
    {inside : List Lexeme} (hasArguments : Bool) (hOperator : .word "operator" ∉ before)
    (hEnclosing : (∃ e ∈ elaboratingWords, (dropQualifier before).head? = some (.word e)) ∨
      isFirstName before = true ∧ beginsDeclarator inside = true) :
    wordRole w hasArguments before inside = .enclosing := by
  have hKeyword : isKeywordName w before = false := by
    rcases h with h | rfl
    · simp [isKeywordName, h.1]
    · simp only [isKeywordName]
      simp [declaratorWords]
  have hWord : w ∉ callWords ∧ w ≠ "operator" ∧
      (Cpp.isKeyword w && w ≠ "wchar_t" || basicTypes.contains w) = false := by
    rcases h with h | rfl
    · exact ⟨h.2.2.1, h.ne (by decide), by simp [h.1, h.2.1]⟩
    · decide
  unfold wordRole
  rw [hKeyword, if_neg (by simp), if_neg (by simpa using hWord.1),
    if_neg (by simp [hWord.2.1, hOperator]), if_neg (Bool.eq_false_iff.mp hWord.2.2)]
  split
  next => rfl
  next hElaborated =>
    rcases hEnclosing with ⟨e, he, hHead⟩ | ⟨hFirst, hBegins⟩
    · exact absurd (List.any_eq_true.mpr ⟨e, he, by simpa using hHead⟩) hElaborated
    · rw [if_pos (by simp [hFirst, hBegins])]

section PrecedesDeclarator

variable {before : List Piece}

theorem PrecedesDeclarator.all_isModifier (h : PrecedesDeclarator before) :
    before.all isModifier = false := by
  obtain ⟨p, hp, hModifier⟩ := h.typed
  exact List.all_eq_false.mpr ⟨p, hp, by simp [hModifier]⟩

theorem PrecedesDeclarator.callRole_name (h : PrecedesDeclarator before) {name : String}
    (hName : IsName name) {parameters : List Lexeme}
    (hParameters : listKindOf parameters ≠ .arguments) :
    callRole (.word name :: before) parameters = .parameters (some name) := by
  rw [callRole, h.wordRole h.dropQualifier hName h.operator (by simp [h.all_isModifier])
    hParameters, h.notQualified, h.notMember]
  simp

theorem PrecedesDeclarator.mark (h : PrecedesDeclarator before) {p : Piece} (hp : p ∈ marks) :
    PrecedesDeclarator (p :: before) where
  last q hq := by
    obtain rfl : p = q := by simpa using hq
    have hMarks : ∀ p ∈ marks, precedesName p = true := by decide
    exact hMarks p hp
  plain := by
    have hMarks : ∀ p ∈ marks, p ∉ specialPieces := by decide
    exact List.forall_mem_cons.mpr ⟨hMarks p hp, h.plain⟩
  typed := by
    obtain ⟨q, hq, hModifier⟩ := h.typed
    exact ⟨q, List.mem_cons_of_mem _ hq, hModifier⟩
  notQualified := by
    simp only [marks, List.mem_cons, List.not_mem_nil, or_false] at hp
    rcases hp with rfl | rfl | rfl | rfl <;> rfl
  notMember := by
    have hHead : ∀ ps, before ≠ .symbol "::" :: ps := by
      rintro ps rfl
      exact absurd (h.last _ rfl) (by decide)
    simp only [marks, List.mem_cons, List.not_mem_nil, or_false] at hp
    rcases hp with rfl | rfl | rfl | rfl
    · rw [hasMemberPointer, h.notMember]
      exact hHead
    all_goals rw [hasMemberPointer, h.notMember]

theorem PrecedesDeclarator.append_marks (h : PrecedesDeclarator before) {stars : List Piece}
    (hStars : ∀ p ∈ stars, p ∈ marks) : PrecedesDeclarator (stars.reverse ++ before) := by
  induction stars generalizing before with
  | nil => exact h
  | cons p stars ih =>
      obtain ⟨hp, hMore⟩ := List.forall_mem_cons.mp hStars
      simpa using ih (h.mark hp) hMore

/-- Parentheses behind these pieces, in reverse, enclose a declarator; if `isPlain`, then
only such as begin like one. -/
def Encloses (isPlain : Bool) (before : List Piece) : Prop :=
  ∀ inside, (isPlain = true → beginsDeclarator inside = true) →
    callRole before inside = .enclosing

theorem PrecedesDeclarator.encloses_mark (h : PrecedesDeclarator before) {p : Piece}
    (hp : p ∈ marks) : Encloses false (p :: before) := by
  intro inside _
  simp only [marks, List.mem_cons, List.not_mem_nil, or_false] at hp
  rcases hp with rfl | rfl | rfl | rfl
  · rfl
  · rfl
  · exact wordRole_of_mem (by decide) h.operator inside
  · exact wordRole_of_mem (by decide) h.operator inside

theorem PrecedesDeclarator.encloses_append_marks {isPlain : Bool} (h : PrecedesDeclarator before)
    (hEncloses : Encloses isPlain before) {stars : List Piece} (hStars : ∀ p ∈ stars, p ∈ marks) :
    Encloses (isPlain && stars.isEmpty) (stars.reverse ++ before) := by
  rcases List.eq_nil_or_concat stars with rfl | ⟨earlier, p, rfl⟩
  · simpa using hEncloses
  · rw [List.concat_eq_append] at hStars ⊢
    obtain ⟨hEarlier, hp⟩ := List.forall_mem_append.mp hStars
    have hNonempty : (isPlain && (earlier ++ [p]).isEmpty) = false := by simp
    rw [hNonempty]
    simpa using (h.append_marks hEarlier).encloses_mark (hp p (List.mem_singleton_self p))

theorem precedesDeclarator_paren : PrecedesDeclarator [.symbol "("] where
  last := by decide
  plain := by decide
  typed := ⟨.symbol "(", by simp, rfl⟩
  notQualified := rfl
  notMember := rfl

theorem encloses_paren : Encloses false [.symbol "("] := fun _ _ => rfl

end PrecedesDeclarator

/-! ### Types -/

/-- A word with which a type may end. -/
def EndsType (w : String) : Prop := w ∉ specifierWords ∧ w ∉ expressionWords ∧ w ≠ "operator"

theorem IsName.endsType {w : String} (h : IsName w) : EndsType w :=
  ⟨h.2.2.2, h.not_mem (by decide), h.ne (by decide)⟩

theorem endsType_of_mem {w : String} (h : w ∈ "auto" :: basicTypes) : EndsType w := by
  have hWords : ∀ w ∈ "auto" :: basicTypes,
      w ∉ specifierWords ∧ w ∉ expressionWords ∧ w ≠ "operator" := by
    decide
  exact hWords w h

theorem EndsType.ne {w k : String} (h : EndsType w) (hk : k ∈ specifierWords) : w ≠ k :=
  fun hEq => h.1 (hEq ▸ hk)

theorem EndsType.plain {w : String} (h : EndsType w) : Piece.word w ∉ specialPieces := by
  have hTemplate : w ≠ "template" := h.ne (by decide)
  simp [specialPieces, h.2.2, hTemplate]

theorem precedesDeclarator_type {w : String} {args before : List Piece} (hw : EndsType w)
    (hArgs : args ∈ optionalArguments)
    (hBefore : ∀ p ∈ before, p ∉ specialPieces) :
    PrecedesDeclarator (args ++ .word w :: before) := by
  have hTemplate : w ≠ "template" := hw.ne (by decide)
  have hConst : w ≠ "const" := hw.ne (by decide)
  have hVolatile : w ≠ "volatile" := hw.ne (by decide)
  have hElaborating : w ∉ elaboratingWords := by
    intro hMem
    have hWords : ∀ e ∈ elaboratingWords, e ∈ specifierWords := by decide
    exact hw.1 (hWords w hMem)
  have hPlain : ∀ p ∈ Piece.word w :: before, p ∉ specialPieces :=
    List.forall_mem_cons.mpr ⟨hw.plain, hBefore⟩
  have hTyped : isModifier (.word w) = false := by simpa [isModifier] using hw.1
  simp only [optionalArguments, List.mem_cons, List.not_mem_nil, or_false] at hArgs
  rcases hArgs with rfl | rfl
  · refine ⟨⟨?_, hPlain⟩, ⟨.word w, by simp, hTyped⟩, ?_, ?_⟩
    · simp [precedesName, hTemplate, hElaborating, hw.2.1]
    · rw [List.nil_append, isQualified.eq_def]
      split <;> simp_all
    · rw [List.nil_append, hasMemberPointer.eq_def]
      split <;> simp_all
  · refine ⟨⟨?_, ?_⟩, ⟨.word w, by simp, hTyped⟩, rfl, rfl⟩
    · simp [precedesName]
    · exact List.forall_mem_cons.mpr ⟨by decide, hPlain⟩

theorem Qualifier.dropQualifier {q : List Piece} (h : Qualifier q) (before : List Piece) :
    dropQualifier (q.reverse ++ before) = dropQualifier before := by
  induction h generalizing before with
  | nil => rfl
  | @cons w args ps hw hArgs _ ih =>
      simp only [List.reverse_cons, List.reverse_append, List.append_assoc, List.singleton_append]
      rw [ih]
      simp only [optionalArguments, List.mem_cons, List.not_mem_nil, or_false] at hArgs
      rcases hArgs with rfl | rfl
      · simp [Source.dropQualifier, hw.1]
      · simp [Source.dropQualifier]

theorem Qualifier.isQualified {q : List Piece} (h : Qualifier q) (hNonempty : q ≠ [])
    (before : List Piece) : isQualified (q.reverse ++ before) = true := by
  induction h generalizing before with
  | nil => exact absurd rfl hNonempty
  | @cons w args ps _ _ _ ih =>
      simp only [List.reverse_cons, List.reverse_append, List.append_assoc, List.singleton_append]
      by_cases hps : ps = []
      · subst hps
        rfl
      · exact ih hps _

theorem IsTypePiece.plain {p : Piece} (h : IsTypePiece p) : p ∉ specialPieces := by
  have hWords : ∀ w ∈ typeWords, Piece.word w ∉ specialPieces := by decide
  cases h with
  | name hw => exact hw.endsType.plain
  | @word w hw => exact hWords w hw
  | arguments => decide
  | scope => decide

section leading

variable {leading : List Piece}

theorem isLeading_eq_true {p : Piece} (h : isLeading p = true) :
    precedesName p = true ∧ isModifier p = true ∧ p ∉ specialPieces := by
  unfold isLeading at h
  split at h
  next w =>
    have hWords : ∀ w ∈ leadingWords, precedesName (.word w) = true ∧
        isModifier (.word w) = true ∧ Piece.word w ∉ specialPieces := by
      decide
    exact hWords w (by simpa using h)
  next inside => simp [precedesName, isModifier, specialPieces]
  next => cases h

theorem precedes_leading (h : ∀ p ∈ leading, isLeading p = true) : Precedes leading.reverse where
  last p hp := (isLeading_eq_true (h p (by simpa using List.mem_of_mem_head? hp))).1
  plain p hp := (isLeading_eq_true (h p (by simpa using hp))).2.2

/-- A global name is not qualified by what stands in front of it. -/
theorem dropQualifier_global (h : ∀ p ∈ leading, isLeading p = true) :
    dropQualifier (.symbol "::" :: leading.reverse) = leading.reverse := by
  cases hBefore : leading.reverse with
  | nil => simp [dropQualifier]
  | cons p ps =>
      have hp : isLeading p = true := h p (List.mem_reverse.mp (hBefore ▸ List.mem_cons_self ..))
      unfold isLeading at hp
      split at hp
      next w =>
        have hWords : ∀ w ∈ leadingWords, Cpp.isKeyword w = true := by decide
        rw [dropQualifier, if_pos (hWords w (by simpa using hp))]
      next inside => simp [dropQualifier]
      next => cases hp

theorem isFirstName_of_leading (h : ∀ p ∈ leading, isLeading p = true) {global q : List Piece}
    (hGlobal : global ∈ [[], [Piece.symbol "::"]]) (hq : Qualifier q) :
    isFirstName (q.reverse ++ (global.reverse ++ leading.reverse)) = true := by
  have hDrop : dropQualifier (global.reverse ++ leading.reverse) = leading.reverse := by
    simp only [List.mem_cons, List.not_mem_nil, or_false] at hGlobal
    rcases hGlobal with rfl | rfl
    · exact (precedes_leading h).dropQualifier
    · exact dropQualifier_global h
  rw [isFirstName, hq.dropQualifier, hDrop, List.all_reverse, List.all_eq_true]
  exact fun p hp => (isLeading_eq_true (h p hp)).2.1

theorem callRole_type {w : String} {args : List Piece} (hArgs : args ∈ optionalArguments)
    (before : List Piece) (inside : List Lexeme) :
    ∃ hasArguments, callRole (args ++ .word w :: before) inside =
      wordRole w hasArguments before inside := by
  simp only [optionalArguments, List.mem_cons, List.not_mem_nil, or_false] at hArgs
  rcases hArgs with rfl | rfl
  · exact ⟨false, rfl⟩
  · exact ⟨true, rfl⟩

theorem reverse_of_optionalArguments {args : List Piece} (h : args ∈ optionalArguments) :
    args.reverse = args := by
  simp only [optionalArguments, List.mem_cons, List.not_mem_nil, or_false] at h
  rcases h with rfl | rfl <;> rfl

theorem precedes_typeName {isPlain : Bool} {w : String} {args before : List Piece}
    (hw : IsName w ∨ w = "wchar_t") (hArgs : args ∈ optionalArguments)
    (hBefore : ∀ p ∈ before, p ∉ specialPieces)
    (hEnclosing : (∃ e ∈ elaboratingWords, (dropQualifier before).head? = some (.word e)) ∨
      isFirstName before = true ∧ isPlain = true) :
    PrecedesDeclarator (args ++ .word w :: before) ∧
      Encloses isPlain (args ++ .word w :: before) := by
  have hEnds : EndsType w := by
    rcases hw with hw | rfl
    · exact hw.endsType
    · exact ⟨by decide, by decide +kernel, by decide⟩
  refine ⟨precedesDeclarator_type hEnds hArgs hBefore, ?_⟩
  intro inside hInside
  obtain ⟨hasArguments, hRole⟩ := callRole_type (w := w) hArgs before inside
  have hOperator : .word "operator" ∉ before := fun hMem => hBefore _ hMem (by decide)
  rw [hRole]
  exact wordRole_of_typeName hw hasArguments hOperator
    (hEnclosing.imp_right fun h => ⟨h.1, hInside h.2⟩)

/-- Behind the type of a function stands its declarator. -/
theorem CoreType.precedes {isPlain : Bool} {core : List Piece} (h : CoreType isPlain core)
    (hLeading : ∀ p ∈ leading, isLeading p = true) :
    PrecedesDeclarator (core.reverse ++ leading.reverse) ∧
      Encloses isPlain (core.reverse ++ leading.reverse) := by
  have hPlain : ∀ p ∈ core.reverse ++ leading.reverse, p ∉ specialPieces :=
    List.forall_mem_append.mpr ⟨fun p hp => (h.isTypePiece p (by simpa using hp)).plain,
      (precedes_leading hLeading).plain⟩
  cases h with
  | @basic ws hNonempty hBasic =>
      obtain ⟨w, more, hWords⟩ : ∃ w more, ws.reverse = w :: more :=
        List.exists_cons_of_ne_nil (by simpa using hNonempty)
      have hw : w ∈ "auto" :: basicTypes := by
        refine hBasic w (List.mem_reverse.mp ?_)
        rw [hWords]
        exact List.mem_cons_self ..
      have hComplete : w ∈ completeWords := by
        rw [completeWords]
        grind
      rw [← List.map_reverse, hWords] at hPlain ⊢
      have hBefore := (List.forall_mem_cons.mp hPlain).2
      refine ⟨precedesDeclarator_type (endsType_of_mem hw) (List.mem_cons_self ..) hBefore, ?_⟩
      intro inside _
      exact wordRole_of_mem hComplete (fun hMem => hBefore _ hMem (by decide)) inside
  | @elaborated e q w args he hq hw hArgs =>
      have hTemplate : ∀ e ∈ elaboratingWords, e ≠ "template" := by decide
      have hHead : (dropQualifier (q.reverse ++ .word e :: leading.reverse)).head? =
          some (.word e) := by
        rw [hq.dropQualifier, dropQualifier_cons (by simp) (by simpa using hTemplate e he)]
        rfl
      simp only [List.reverse_cons, List.reverse_append, List.append_assoc,
        reverse_of_optionalArguments hArgs, List.singleton_append] at hPlain ⊢
      have hBefore := (List.forall_mem_cons.mp (List.forall_mem_append.mp hPlain).2).2
      exact precedes_typeName (.inl hw) hArgs hBefore (.inl ⟨e, he, hHead⟩)
  | @named global q w args hGlobal hq hw hArgs =>
      have hFirst := isFirstName_of_leading hLeading hGlobal hq
      simp only [List.reverse_cons, List.reverse_append, List.append_assoc,
        reverse_of_optionalArguments hArgs, List.singleton_append] at hPlain ⊢
      have hBefore := (List.forall_mem_cons.mp (List.forall_mem_append.mp hPlain).2).2
      exact precedes_typeName (.inl hw) hArgs hBefore (.inr ⟨hFirst, rfl⟩)
  | wide =>
      have hFirst := isFirstName_of_leading hLeading (List.mem_cons_self ..) .nil
      have hBefore := (List.forall_mem_cons.mp hPlain).2
      exact precedes_typeName (.inr rfl) (List.mem_cons_self ..) hBefore (.inr ⟨hFirst, rfl⟩)

end leading

end Simgen.Source
