import Simgen.Source.Piece

/-! Template arguments in a text, as the angle brackets around them are nested. -/
namespace Simgen.Source

/-- What stands between the angle brackets of template arguments. No name follows further
arguments directly. -/
inductive Arguments : List Piece → Prop where
  | nil : Arguments []
  | leaf {p ps} : p ∉ [.symbol "<", .symbol ">", .word "operator"] → Arguments ps →
      Arguments (p :: ps)
  | nested {w inner ps} : w ≠ "operator" → Arguments inner →
      (∀ v, ps.head? = some (.word v) → Cpp.isKeyword v = true) → Arguments ps →
      Arguments (.word w :: .symbol "<" :: inner ++ .symbol ">" :: ps)

/-- A text, and the same with its template arguments put together. -/
inductive Folds : List Piece → List Piece → Prop where
  | nil : Folds [] []
  | leaf {p ps qs} : p ∉ [.symbol "<", .word "operator"] → Folds ps qs → Folds (p :: ps) (p :: qs)
  | arguments {w args ps qs} : w ∉ ["operator", "template"] → Arguments args → Folds ps qs →
      Folds (.word w :: .symbol "<" :: args ++ .symbol ">" :: ps) (.word w :: .arguments :: qs)

section arguments

variable {p : Piece} {ps tail found : List Piece} {depth : Nat} {context : AngleContext}

theorem afterArguments?_word {w : String} (h : context = .closed → Cpp.isKeyword w = true) :
    afterArguments? false depth context (.word w :: ps) = afterArguments? false depth .name ps := by
  rw [afterArguments?]
  by_cases hClosed : context = .closed
  · simp [h hClosed]
  · simp [hClosed]

theorem afterArguments?_other (hSymbol : p ∉ [.symbol "<", .symbol ">"])
    (hWord : ∀ w, p ≠ .word w) :
    afterArguments? false depth context (p :: ps) = afterArguments? false depth .other ps := by
  simp only [List.mem_cons, List.not_mem_nil, or_false, not_or] at hSymbol
  rw [afterArguments?]
  · exact hSymbol.2
  · exact hSymbol.1
  · exact hWord

/-- An angle bracket behind a name opens further arguments if there are enough others to
close them all. -/
theorem afterArguments?_nested (hCount : depth + 1 < ps.count (.symbol ">"))
    (h : afterArguments? false (depth + 1) .other ps = some found) :
    afterArguments? false depth .name (.symbol "<" :: ps) = some found := by
  rw [afterArguments?]
  simp [hCount, h]

theorem afterArguments?_of_arguments {args : List Piece} (h : Arguments args)
    (hContext : context = .closed → ∀ w, args.head? = some (.word w) → Cpp.isKeyword w = true)
    (hCount : depth < (Piece.symbol ">" :: tail).count (.symbol ">"))
    (hTail : ∀ context, afterArguments? false depth context (.symbol ">" :: tail) = some found) :
    afterArguments? false depth context (args ++ .symbol ">" :: tail) = some found := by
  induction h generalizing depth context tail with
  | nil => exact hTail context
  | @leaf p ps hp _ ih =>
      rw [List.cons_append]
      by_cases hWord : ∃ w, p = .word w
      · obtain ⟨w, rfl⟩ := hWord
        rw [afterArguments?_word fun hClosed => hContext hClosed w rfl]
        exact ih (by simp) hCount hTail
      · simp only [List.mem_cons, List.not_mem_nil, or_false, not_or] at hp
        rw [afterArguments?_other (by simp [hp]) (not_exists.mp hWord)]
        exact ih (by simp) hCount hTail
  | @nested w inner ps _ _ hNext _ ihInner ih =>
      -- The inner arguments are closed by a bracket of their own, behind which the outer go on.
      have hOuter : afterArguments? false depth .closed (ps ++ .symbol ">" :: tail) = some found :=
        ih (fun _ => hNext) hCount hTail
      have hMore : depth + 1 <
          (Piece.symbol ">" :: (ps ++ .symbol ">" :: tail)).count (.symbol ">") := by
        rw [List.count_cons_self, List.count_append]
        omega
      have hInner : afterArguments? false (depth + 1) .other
          (inner ++ .symbol ">" :: (ps ++ .symbol ">" :: tail)) = some found :=
        ihInner (by simp) hMore fun context => by
          rw [afterArguments?]
          exact hOuter
      simp only [List.cons_append, List.append_assoc]
      rw [afterArguments?_word fun hClosed => hContext hClosed w rfl]
      refine afterArguments?_nested ?_ hInner
      rw [List.count_append]
      omega

/-- Arguments end with their closing bracket. -/
theorem afterArguments?_closed {args : List Piece} (h : Arguments args) (tail : List Piece) :
    afterArguments? false 0 .other (args ++ .symbol ">" :: tail) = some tail :=
  afterArguments?_of_arguments h (by simp) (by simp) fun context => by rw [afterArguments?]

end arguments

theorem foldOperators_of_forall {ps : List Piece} (h : ∀ p ∈ ps, p ≠ .word "operator") :
    foldOperators ps = ps := by
  induction ps with
  | nil => rw [foldOperators]
  | cons p ps ih =>
      obtain ⟨hp, hMore⟩ := List.forall_mem_cons.mp h
      rw [foldOperators, ih hMore]
      exact hp

theorem Arguments.ne_operator {args : List Piece} (h : Arguments args) :
    ∀ p ∈ args, p ≠ .word "operator" := by
  induction h with
  | nil => simp
  | leaf hp _ ih =>
      simp only [List.mem_cons, List.not_mem_nil, or_false, not_or] at hp
      exact List.forall_mem_cons.mpr ⟨hp.2.2, ih⟩
  | nested hw _ _ _ ihInner ih =>
      simp only [List.cons_append, List.forall_mem_cons, List.forall_mem_append]
      exact ⟨by simpa using hw, by simp, ihInner, by simp, ih⟩

theorem Folds.ne_operator {ps qs : List Piece} (h : Folds ps qs) :
    ∀ p ∈ ps, p ≠ .word "operator" := by
  induction h with
  | nil => simp
  | leaf hp _ ih =>
      simp only [List.mem_cons, List.not_mem_nil, or_false, not_or] at hp
      exact List.forall_mem_cons.mpr ⟨hp.2, ih⟩
  | arguments hw hArgs _ ih =>
      simp only [List.mem_cons, List.not_mem_nil, or_false, not_or] at hw
      simp only [List.cons_append, List.forall_mem_cons, List.forall_mem_append]
      exact ⟨by simpa using hw.1, by simp, hArgs.ne_operator, by simp, ih⟩

theorem foldArguments_leaf {p : Piece} (h : p ≠ .symbol "<") (last : Option String)
    (ps : List Piece) :
    ∃ next, foldArguments last (p :: ps) = p :: foldArguments next ps := by
  rw [foldArguments.eq_def]
  dsimp only
  split
  case h_1 => exact absurd rfl h
  case h_2 w => exact ⟨some w, rfl⟩
  case h_3 => exact ⟨none, rfl⟩

theorem foldArguments_arguments {w : String} {args : List Piece} (hw : w ≠ "template")
    (h : Arguments args) (ps : List Piece) :
    foldArguments (some w) (.symbol "<" :: (args ++ .symbol ">" :: ps)) =
      .arguments :: foldArguments none ps := by
  have hEnd : afterArguments? (w = "template") 0 .other (args ++ .symbol ">" :: ps) = some ps := by
    rw [decide_eq_false hw]
    exact afterArguments?_closed h ps
  rw [foldArguments]
  split
  next rest hRest =>
    rw [hEnd] at hRest
    cases hRest
    rfl
  next hRest =>
    rw [hEnd] at hRest
    cases hRest

theorem foldArguments_of_folds {ps qs : List Piece} (h : Folds ps qs) (last : Option String) :
    foldArguments last ps = qs := by
  induction h generalizing last with
  | nil => rw [foldArguments]
  | @leaf p ps qs hp _ ih =>
      simp only [List.mem_cons, List.not_mem_nil, or_false, not_or] at hp
      obtain ⟨next, hNext⟩ := foldArguments_leaf hp.1 last ps
      rw [hNext, ih]
  | @arguments w args ps qs hw hArgs _ ih =>
      simp only [List.mem_cons, List.not_mem_nil, or_false, not_or] at hw
      have hWord : foldArguments last (.word w :: .symbol "<" :: (args ++ .symbol ">" :: ps)) =
          .word w :: foldArguments (some w) (.symbol "<" :: (args ++ .symbol ">" :: ps)) := by
        rw [foldArguments.eq_def]
      rw [List.cons_append, List.cons_append, hWord, foldArguments_arguments hw.2 hArgs, ih]

theorem folds_self {ps : List Piece} (h : ∀ p ∈ ps, p ∉ [.symbol "<", .word "operator"]) :
    Folds ps ps := by
  induction ps with
  | nil => exact .nil
  | cons p ps ih =>
      obtain ⟨hp, hMore⟩ := List.forall_mem_cons.mp h
      exact .leaf hp (ih hMore)

/-- Folding puts together the template arguments of a text. -/
theorem fold_of_folds {ps qs : List Piece} (h : Folds ps qs) : fold ps = qs := by
  rw [fold, foldOperators_of_forall h.ne_operator, foldArguments_of_folds h]

theorem mem_of_folds {ps qs : List Piece} {p : Piece} (h : Folds ps qs) (hp : p ∈ qs)
    (hArguments : p ≠ .arguments) : p ∈ ps := by
  induction h with
  | nil => exact hp
  | leaf _ _ ih =>
      rcases List.mem_cons.mp hp with rfl | hMore
      · exact List.mem_cons_self ..
      · exact List.mem_cons_of_mem _ (ih hMore)
  | arguments _ _ _ ih =>
      simp only [List.mem_cons, hArguments, false_or] at hp
      simp only [List.cons_append, List.mem_cons, List.mem_append]
      rcases hp with rfl | hMore
      · exact .inl rfl
      · exact .inr (.inr (.inr (.inr (ih hMore))))

end Simgen.Source
