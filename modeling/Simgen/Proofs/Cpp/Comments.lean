import Simgen.Proofs.Cpp.Identifiers
import Simgen.Proofs.Design.Comments
import Simgen.Proofs.Source.Tokens

/-! Comments in generated headers. A header is code with comments in between. A comment ends where
its block was meant to end exactly if none of its texts holds the end of a comment. Then it adds
nothing to the tokens of the header, and other comments in its place would not either. -/
namespace Simgen.Cpp

open Source (Closes StandsAlone Silent tokens)

/-- A part of a header. -/
inductive Stretch where
  | code (lines : List Line)
  | comment (depth : Nat) (doc : Doc)

namespace Stretch

def lines : Stretch → List Line
  | code ls => ls
  | comment depth doc => doc.lines.map fun text => { depth, text }

def code? : Stretch → Option (List Line)
  | code ls => some ls
  | comment .. => none

end Stretch

namespace Piece

def doc? : Piece → Option (Nat × Doc)
  | comment depth doc => some (depth, doc)
  | _ => none

/-- The piece with an empty comment in the place of a comment. -/
def uncommented : Piece → Piece
  | comment depth _ => comment depth .none
  | piece => piece

end Piece

/-- Pieces as stretches of code with comments in between; `before` is the code since the last
comment. -/
def stretches (before : List Line) : List Piece → List Stretch
  | [] => [.code before]
  | piece :: pieces => match piece.doc? with
    | some (depth, doc) => .code before :: .comment depth doc :: stretches [] pieces
    | none => stretches (before ++ piece.lines) pieces

/-- The parts of a header in order. -/
def headerStretches (style : Style) (c : Combine) : List Stretch :=
  stretches [] (headerPieces style c)

/-- The code of a header, in the pieces that comments part it into. -/
def headerCode (style : Style) (c : Combine) : List (List Line) :=
  (headerStretches style c).filterMap Stretch.code?

/-- Lines as they stand in a file. -/
def written (indent : Nat) (ls : List Line) : List Char := (render indent ls).toList

theorem Piece.eq_comment_of_doc? {piece : Piece} {depth : Nat} {doc : Doc}
    (h : piece.doc? = some (depth, doc)) : piece = .comment depth doc := by
  cases piece with
  | comment depth' doc' =>
      cases h
      rfl
  | silent lines => cases h
  | declaration depth d => cases h
  | struct name members => cases h
  | opening depth name => cases h
  | constructor className argument => cases h
  | definition className m => cases h

theorem Piece.uncommented_of_doc? {piece : Piece} (h : piece.doc? = none) :
    piece.uncommented = piece := by
  cases piece with
  | comment depth doc => cases h
  | silent lines => rfl
  | declaration depth d => rfl
  | struct name members => rfl
  | opening depth name => rfl
  | constructor className argument => rfl
  | definition className m => rfl

theorem lines_stretches (before : List Line) (pieces : List Piece) :
    (stretches before pieces).flatMap Stretch.lines = before ++ pieces.flatMap Piece.lines := by
  induction pieces generalizing before with
  | nil => rw [stretches, List.flatMap_singleton, List.flatMap_nil, List.append_nil, Stretch.lines]
  | cons piece pieces ih =>
      rw [stretches, List.flatMap_cons]
      cases hDoc : piece.doc? with
      | none => rw [ih, List.append_assoc]
      | some comment =>
          obtain ⟨depth, doc⟩ := comment
          rw [List.flatMap_cons, List.flatMap_cons, ih, Piece.eq_comment_of_doc? hDoc]
          rfl

theorem comment_mem_of_mem_stretches {before : List Line} {pieces : List Piece} {depth : Nat}
    {doc : Doc} (h : .comment depth doc ∈ stretches before pieces) :
    .comment depth doc ∈ pieces := by
  induction pieces generalizing before with
  | nil => cases List.mem_singleton.mp h
  | cons piece pieces ih =>
      rw [stretches] at h
      cases hDoc : piece.doc? with
      | none =>
          rw [hDoc] at h
          exact List.mem_cons_of_mem _ (ih h)
      | some comment =>
          rw [hDoc, List.mem_cons, List.mem_cons] at h
          rcases h with hCode | hHere | hMore
          · cases hCode
          · cases hHere
            exact List.mem_cons.mpr (Or.inl (Piece.eq_comment_of_doc? hDoc).symm)
          · exact List.mem_cons_of_mem _ (ih hMore)

/-- What the comments say does not change the code around them. -/
theorem code_stretches_uncommented (before : List Line) (pieces : List Piece) :
    (stretches before (pieces.map Piece.uncommented)).filterMap Stretch.code? =
      (stretches before pieces).filterMap Stretch.code? := by
  induction pieces generalizing before with
  | nil => rfl
  | cons piece pieces ih =>
      rw [List.map_cons, stretches, stretches]
      cases hDoc : piece.doc? with
      | none =>
          rw [Piece.uncommented_of_doc? hDoc, hDoc]
          exact ih _
      | some comment =>
          rw [Piece.eq_comment_of_doc? hDoc]
          exact congrArg (before :: ·) (ih [])

theorem lines_headerStretches (style : Style) (c : Combine) :
    (headerStretches style c).flatMap Stretch.lines = classHeader style c := by
  rw [headerStretches, lines_stretches, List.nil_append, lines_headerPieces]

/-- The comment on the class stands behind the prologue and nowhere else. -/
theorem headerPieces_comment (style : Style) (c : Combine) (own : String) :
    headerPieces style { c with comment := own } =
      .silent (prologue (commonHeaders ++ combineHeaders ++ style.includes)) ::
        .comment 0 (.line own) :: (headerPieces style c).drop 2 := rfl

theorem written_append (indent : Nat) (first second : List Line) :
    written indent (first ++ second) = written indent first ++ written indent second := by
  rw [written, render_append, String.toList_append, written, written]

theorem written_nil (indent : Nat) : written indent [] = [] := rfl

/-- What stands in front of a line. -/
def margin (indent depth : Nat) : List Char := List.replicate (indent * depth) ' '

theorem written_cons (indent : Nat) (l : Line) (ls : List Line) :
    written indent (l :: ls) =
      margin indent l.depth ++ l.text.toList ++ '\n' :: written indent ls := by
  simp [written, render, Line.render, margin, String.join_cons]

section docs

variable {indent depth : Nat}

/-- The texts in a comment that are given from outside. -/
def Doc.comments : Doc → List String
  | none => []
  | line comment => [comment]
  | block comment params => comment :: params.map Param.comment

/-- The parameters that a comment names. -/
def Doc.params : Doc → List Param
  | block _ params => params
  | _ => []

def paramLine (p : Param) : String := Text.trimEnd (" * @param " ++ p.name ++ ": " ++ p.comment)

/-- A comment between its opening and the blank in front of its end. -/
def Doc.inside (edge : List Char) : Doc → List Char
  | none => []
  | line comment => ' ' :: comment.toList
  | block comment params =>
    '\n' :: edge ++ " * ".toList ++ comment.toList ++
      (params.flatMap fun p => '\n' :: edge ++ (paramLine p).toList) ++ '\n' :: edge

/-- Lines with their line ends in front of them. -/
theorem lineFeed_written (texts : List String) :
    '\n' :: written indent (texts.map fun text => { depth, text }) =
      (texts.flatMap fun text => '\n' :: margin indent depth ++ text.toList) ++ ['\n'] := by
  induction texts with
  | nil => rfl
  | cons text texts ih =>
      rw [List.map_cons, written_cons, ih, List.flatMap_cons]
      simp

theorem written_comment {doc : Doc} (h : doc ≠ .none) :
    written indent (Stretch.comment depth doc).lines =
      margin indent depth ++ ('/' :: '*' :: doc.inside (margin indent depth) ++ [' ', '*', '/']) ++
        ['\n'] := by
  cases doc with
  | none => exact absurd rfl h
  | line comment =>
      have hLines : (Stretch.comment depth (.line comment)).lines =
          [{ depth, text := "/* " ++ comment ++ " */" }] := rfl
      rw [hLines, written_cons, written_nil]
      simp [Doc.inside]
  | block comment params =>
      have hLines : (Doc.block comment params).lines =
          "/*" :: ((" * " ++ comment) :: (params.map paramLine ++ [" */"])) := rfl
      rw [Stretch.lines, hLines, List.map_cons, written_cons, lineFeed_written]
      simp [Doc.inside, List.flatMap_map]

theorem closes_edge {edge : List Char} (hEdge : '/' ∉ edge) (front back : List Char) :
    Closes (front ++ '\n' :: edge ++ ' ' :: back) ↔ Closes front ∨ Closes back := by
  have hLine : '/' ∉ '\n' :: edge := by simpa using hEdge
  rw [Source.closes_append_space, Source.closes_append_of_not_mem hLine]

/-- The line on a parameter begins with a blank, and only its comment can hold the end of the
block. -/
theorem exists_paramLine {p : Param} (h : '/' ∉ p.name.toList) :
    ∃ tail, (paramLine p).toList = ' ' :: tail ∧ (Closes tail ↔ Closes p.comment.toList) := by
  obtain ⟨whole, hWhole⟩ : ∃ whole, whole = '*' :: ' ' :: ("@param".toList ++ ' ' ::
      ((p.name.toList ++ [':']) ++ ' ' :: p.comment.toList)) := ⟨_, rfl⟩
  have hText : (" * @param " ++ p.name ++ ": " ++ p.comment).toList = ' ' :: whole := by
    simp [hWhole]
  have hCloses : Closes whole ↔ Closes p.comment.toList := by
    have hName : ¬ Closes (p.name.toList ++ [':']) :=
      Source.not_closes_of_not_mem (by simpa using h)
    rw [hWhole, ← List.singleton_append, Source.closes_append_space, Source.closes_append_space,
      Source.closes_append_space, or_iff_right (by decide), or_iff_right (by decide),
      or_iff_right hName]
  have hSplit : ' ' :: whole = Text.dropEndWhile Text.isBlank (' ' :: whole) ++
      (' ' :: whole).rtakeWhile Text.isBlank :=
    List.rdropWhile_append_rtakeWhile.symm
  have hBlank : ∀ c ∈ (' ' :: whole).rtakeWhile Text.isBlank, Text.isBlank c = true :=
    fun c hc => List.mem_rtakeWhile_imp hc
  generalize (' ' :: whole).rtakeWhile Text.isBlank = trail at hSplit hBlank
  have hTrimmed : (paramLine p).toList = Text.dropEndWhile Text.isBlank (' ' :: whole) := by
    rw [paramLine, Text.trimEnd, hText, String.toList_ofList]
  have hTrail : '/' ∉ trail := fun hMem => absurd (hBlank _ hMem) (by decide)
  cases hLine : Text.dropEndWhile Text.isBlank (' ' :: whole) with
  | nil =>
      -- Something is left, since the star is no blank.
      rw [hLine, List.nil_append] at hSplit
      have hStar : '*' ∈ trail := by
        rw [← hSplit, hWhole]
        simp
      exact absurd (hBlank _ hStar) (by decide)
  | cons c tail =>
      rw [hLine, List.cons_append, List.cons_eq_cons] at hSplit
      obtain ⟨rfl, hRest⟩ := hSplit
      refine ⟨tail, hTrimmed.trans hLine, ?_⟩
      rw [← hCloses, hRest, Source.closes_append_of_not_mem hTrail]

theorem closes_paramLines {edge : List Char} (hEdge : '/' ∉ edge) (front : List Char)
    {params : List Param} (h : ∀ p ∈ params, '/' ∉ p.name.toList) :
    Closes (front ++ params.flatMap fun p => '\n' :: edge ++ (paramLine p).toList) ↔
      Closes front ∨ ∃ p ∈ params, Closes p.comment.toList := by
  induction params generalizing front with
  | nil => simp
  | cons p params ih =>
      obtain ⟨hp, hMore⟩ := List.forall_mem_cons.mp h
      obtain ⟨tail, hTail, hCloses⟩ := exists_paramLine hp
      have hStep : Closes (front ++ ('\n' :: edge ++ (paramLine p).toList)) ↔
          Closes front ∨ Closes p.comment.toList := by
        rw [hTail, ← hCloses, ← closes_edge hEdge]
        simp
      rw [List.flatMap_cons, ← List.append_assoc, ih _ hMore, hStep]
      simp only [List.mem_cons, exists_eq_or_imp, or_assoc]

/-- A block ends early exactly if one of its texts holds the end of a comment. -/
theorem closes_inside {edge : List Char} (hEdge : '/' ∉ edge) {doc : Doc}
    (h : ∀ p ∈ doc.params, '/' ∉ p.name.toList) :
    Closes (doc.inside edge) ↔ ∃ t ∈ doc.comments, Closes t.toList := by
  cases doc with
  | none => simp [Doc.inside, Doc.comments, Source.not_closes_of_not_mem]
  | line comment =>
      have hEmpty : ¬ Closes [] := by decide
      rw [Doc.inside, ← List.nil_append (' ' :: _), Source.closes_append_space]
      simp [Doc.comments, hEmpty]
  | block comment params =>
      have hNames : ∀ p ∈ params, '/' ∉ p.name.toList := h
      have hLine : '/' ∉ '\n' :: edge := by simpa using hEdge
      have hShape : '\n' :: edge ++ " * ".toList ++ comment.toList =
          [] ++ '\n' :: edge ++ ' ' :: (['*'] ++ ' ' :: comment.toList) := by
        simp
      have hFirst : Closes ('\n' :: edge ++ " * ".toList ++ comment.toList) ↔
          Closes comment.toList := by
        rw [hShape, closes_edge hEdge, Source.closes_append_space, or_iff_right (by decide),
          or_iff_right (by decide)]
      rw [Doc.inside, Source.closes_append_of_not_mem hLine, closes_paramLines hEdge _ hNames,
        hFirst]
      simp [Doc.comments]

/-- A comment that holds no end of a comment leaves no trace in the tokens. -/
theorem silent_doc {doc : Doc} (hNames : ∀ p ∈ doc.params, '/' ∉ p.name.toList)
    (h : ∀ t ∈ doc.comments, ¬ Closes t.toList) :
    Silent (written indent (Stretch.comment depth doc).lines) := by
  by_cases hNone : doc = .none
  · subst hNone
    exact fun _ => rfl
  · have hEdge : '/' ∉ margin indent depth := by simp [margin]
    have hInside : ¬ Closes (doc.inside (margin indent depth)) := by
      rw [closes_inside hEdge hNames]
      rintro ⟨t, ht, hCloses⟩
      exact h t ht hCloses
    have hMargin : Silent (margin indent depth) := Source.silent_separators fun c hc => by
      rw [List.eq_of_mem_replicate hc]
      decide
    rw [written_comment hNone]
    exact (hMargin.append (Source.silent_comment hInside)).append Source.silent_lineFeed

/-- Comments that leave no trace leave the tokens of the code around them, each stretch of which
stands alone. -/
theorem tokens_stretches {stretches : List Stretch}
    (hCode : ∀ ls ∈ stretches.filterMap Stretch.code?, StandsAlone (written indent ls))
    (hComments : ∀ depth doc, .comment depth doc ∈ stretches →
      Silent (written indent (Stretch.comment depth doc).lines)) :
    tokens (written indent (stretches.flatMap Stretch.lines)) =
      (stretches.filterMap Stretch.code?).flatMap fun ls => tokens (written indent ls) := by
  induction stretches with
  | nil => exact Source.tokens_nil
  | cons s stretches ih =>
      have hRest : ∀ depth doc, .comment depth doc ∈ stretches →
          Silent (written indent (Stretch.comment depth doc).lines) :=
        fun depth doc hMem => hComments depth doc (List.mem_cons_of_mem _ hMem)
      rw [List.flatMap_cons, written_append]
      cases s with
      | code ls =>
          have hAll : (Stretch.code ls :: stretches).filterMap Stretch.code? =
              ls :: stretches.filterMap Stretch.code? := rfl
          rw [hAll] at hCode ⊢
          obtain ⟨hHere, hMore⟩ := List.forall_mem_cons.mp hCode
          rw [List.flatMap_cons, ← ih hMore hRest]
          exact hHere _
      | comment depth doc =>
          have hAll : (Stretch.comment depth doc :: stretches).filterMap Stretch.code? =
              stretches.filterMap Stretch.code? := rfl
          rw [hAll] at hCode ⊢
          rw [hComments depth doc List.mem_cons_self, ih hCode hRest]

end docs

section uncommented

theorem parameters_uncommented (s : Signature) : parameters s.uncommented = parameters s := by
  simp only [parameters, Signature.uncommented, List.map_map]
  rfl

/-- What a part of a class consists of besides comments. -/
def Part.code (q : Part) : Option Injected × List Declaration :=
  (q.injected, q.members.map Member.declaration)

/-- Comments only turn into comments in the class. -/
theorem code_parts_uncommented (c : Combine) :
    (parts c.uncommented).map Part.code = (parts c).map Part.code := by
  have hRequest : ∀ r : Request, (requestPart r.uncommented).code = (requestPart r).code := by
    intro r
    simp only [Part.code, requestPart, Request.uncommented, parameters_uncommented]
    rfl
  have hOperation : ∀ f : Operation,
      (operationPart f.uncommented).code = (operationPart f).code := by
    intro f
    simp only [Part.code, operationPart, Operation.uncommented, parameters_uncommented]
    rfl
  have hStorage : ∀ s : Storage, (storagePart s.uncommented).code = (storagePart s).code := by
    intro s
    cases s <;> rfl
  have hPipes : ∀ direction, c.uncommented.pipes.filter (fun p => p.direction = direction) =
      (c.pipes.filter fun p => p.direction = direction).map Pipe.uncommented := by
    intro direction
    rw [Combine.uncommented, List.filter_map]
    rfl
  simp only [parts, List.map_append, Combine.inputs, Combine.outputs, hPipes]
  simp only [Combine.uncommented, List.map_map, Function.comp_def, hRequest, hOperation, hStorage]
  rfl

theorem injections_uncommented (c : Combine) : injections c.uncommented = injections c := by
  have hAll : ∀ qs : List Part,
      qs.filterMap Part.injected = (qs.map Part.code).filterMap Prod.fst := by
    intro qs
    rw [List.filterMap_map]
    rfl
  rw [injections, injections, hAll, hAll, code_parts_uncommented]

theorem declarations_uncommented (c : Combine) :
    (classMembers c.uncommented).map Member.declaration =
      (classMembers c).map Member.declaration := by
  have hAll : ∀ qs : List Part, (qs.flatMap Part.members).map Member.declaration =
      (qs.map Part.code).flatMap Prod.snd := by
    intro qs
    rw [List.map_flatMap, List.flatMap_map]
    rfl
  rw [classMembers, classMembers, hAll, hAll, code_parts_uncommented]

theorem headerCode_uncommented (style : Style) (c : Combine) :
    headerCode style c.uncommented = headerCode style c := by
  have hMembers : ∀ c : Combine, ((classMembers c).flatMap fun m =>
      [Piece.comment 1 m.doc, .declaration 1 m.declaration]).map Piece.uncommented =
        ((classMembers c).map Member.declaration).flatMap fun d =>
          [.comment 1 .none, .declaration 1 d] := by
    intro c
    rw [List.map_flatMap, List.flatMap_map]
    rfl
  have hPieces : (headerPieces style c.uncommented).map Piece.uncommented =
      (headerPieces style c).map Piece.uncommented := by
    simp only [headerPieces, argumentPieces, constructorPieces, memberPieces, List.map_append,
      hMembers, injections_uncommented, declarations_uncommented]
    rfl
  rw [headerCode, headerCode, headerStretches, headerStretches, ← code_stretches_uncommented,
    hPieces, code_stretches_uncommented]

/-- Comments are not part of sources. -/
theorem classSource_uncommented (c : Combine) : classSource c.uncommented = classSource c := by
  have hOperations : operationDefinitions c.uncommented = operationDefinitions c := by
    simp only [operationDefinitions, Combine.uncommented, List.map_map, Function.comp_def,
      Operation.uncommented, parameters_uncommented]
  have hPlan : c.uncommented.commitPlan = c.commitPlan := by
    simp only [Combine.commitPlan, Combine.uncommented, List.filterMap_map]
    refine congrArg₂ (· ++ ·) (congrArg₂ (· ++ ·) ?_ ?_) rfl
    · refine List.filterMap_congr fun s _ => ?_
      cases s <;> rfl
    · refine List.filterMap_congr fun s _ => ?_
      cases s <;> rfl
  have hLifecycle : lifecycleDefinitions c.uncommented = lifecycleDefinitions c := by
    rw [lifecycleDefinitions, lifecycleDefinitions, hPlan]
    rfl
  rw [classSource, classSource, hOperations, hLifecycle]
  rfl

theorem checkKeywords_uncommented (d : Design) :
    checkKeywords d.uncommented = checkKeywords d := by
  have hParams : ∀ c : Combine,
      (c.uncommented.signatures.flatMap fun s => s.all.map Param.name) =
        c.signatures.flatMap fun s => s.all.map Param.name := by
    intro c
    have hSignatures : c.uncommented.signatures = c.signatures.map Signature.uncommented := by
      simp only [Combine.signatures, Combine.uncommented, List.map_append, List.map_map]
      rfl
    rw [hSignatures, List.flatMap_map]
    congr 1
    funext s
    exact Combine.names_uncommented s
  have hCombine : ∀ c : Combine, combineOffender? c.uncommented = combineOffender? c := by
    intro c
    rw [combineOffender?, combineOffender?, Combine.ownNames_uncommented, hParams]
    rfl
  rw [checkKeywords, checkKeywords, Design.uncommented, List.findSome?_map]
  simp only [Function.comp_def, hCombine]

end uncommented

section origins

variable {style : Style} {c : Combine}

/-- The comments of a header are those on the class, its pipes, requests, operations, storage and
configuration. -/
theorem forall_docs {Q : Doc → Prop} (hNone : Q .none) (hOwn : Q (.line c.comment))
    (hPipes : ∀ p ∈ c.pipes, Q (.line p.comment))
    (hRequests : ∀ r ∈ c.requests, Q (.block r.comment r.signature.all))
    (hOperations : ∀ f ∈ c.operations, Q (.block f.comment f.signature.all))
    (hStorage : ∀ s ∈ c.storage, Q (.line s.comment))
    (hConfigs : ∀ t ∈ c.configs, Q (.line t.comment)) {depth : Nat} {doc : Doc}
    (hDoc : .comment depth doc ∈ headerStretches style c) : Q doc := by
  have hParts : ∀ q ∈ parts c, ∀ m ∈ q.members, Q m.doc := by
    simp only [parts, List.forall_mem_append, List.forall_mem_map]
    refine ⟨⟨⟨⟨⟨⟨?_, ?_⟩, ?_⟩, ?_⟩, ?_⟩, ?_⟩, ?_⟩
    · intro p hp
      have hLine := hPipes p (List.mem_of_mem_filter hp)
      simp [inputPart, bare, documented, hNone, hLine]
    · intro p hp
      have hLine := hPipes p (List.mem_of_mem_filter hp)
      simp [outputPart, bare, documented, hNone, hLine]
    · intro r hr
      simp [requestPart, bare, hNone, hRequests r hr]
    · intro f hf
      simp [operationPart, hOperations f hf]
    · intro s hs
      have hLine := hStorage s hs
      cases s with
      | plain name type default comment =>
          simpa [storagePart, storageMembers, documented, Storage.comment] using hLine
      | next name type default comment =>
          simpa [storagePart, storageMembers, documented, bare, hNone, Storage.comment] using hLine
      | tick name type default comment =>
          simpa [storagePart, storageMembers, documented, Storage.comment] using hLine
    · intro t ht
      simp [configPart, documented, hConfigs t ht]
    · split_ifs
      · simp [stallPart, bare, hNone]
      · exact List.forall_mem_nil _
  have hPiece := comment_mem_of_mem_stretches hDoc
  simp only [headerPieces, openingPieces, argumentPieces, constructorPieces, memberPieces,
    List.mem_append, List.mem_cons, List.not_mem_nil, or_false, List.mem_flatMap, List.mem_map,
    reduceCtorEq, and_false, exists_false, false_or, Piece.comment.injEq] at hPiece
  rcases hPiece with ⟨-, rfl⟩ | ⟨m, hm, -, rfl⟩
  · exact hOwn
  · obtain ⟨q, hq, hMember⟩ := List.mem_flatMap.mp hm
    exact hParts q hq m hMember

theorem comments_of_mem_headerStretches {P : String → Prop} (h : c.Commented P) {depth : Nat}
    {doc : Doc} (hDoc : .comment depth doc ∈ headerStretches style c) :
    ∀ t ∈ doc.comments, P t := by
  have hBlock : ∀ comment, P comment → ∀ s ∈ c.signatures,
      ∀ t ∈ (Doc.block comment s.all).comments, P t := by
    intro comment hComment s hs
    rw [Doc.comments, List.forall_mem_cons, List.forall_mem_map]
    exact ⟨hComment, h.params s hs⟩
  refine forall_docs (Q := fun doc => ∀ t ∈ doc.comments, P t) (List.forall_mem_nil _)
    (List.forall_mem_singleton.mpr h.own) ?_ ?_ ?_ ?_ ?_ hDoc
  · exact fun p hp => List.forall_mem_singleton.mpr (h.pipes p hp)
  · exact fun r hr => hBlock r.comment (h.requests r hr) r.signature
      (List.mem_append_left _ (List.mem_map_of_mem hr))
  · exact fun f hf => hBlock f.comment (h.operations f hf) f.signature
      (List.mem_append_right _ (List.mem_map_of_mem hf))
  · exact fun s hs => List.forall_mem_singleton.mpr (h.storage s hs)
  · exact fun t ht => List.forall_mem_singleton.mpr (h.configs t ht)

/-- The parameters that a comment names have valid names, in which no comment ends. -/
theorem params_of_mem_headerStretches (h : c.Named (Ident.isValid · = true)) {depth : Nat}
    {doc : Doc} (hDoc : .comment depth doc ∈ headerStretches style c) :
    ∀ p ∈ doc.params, '/' ∉ p.name.toList := by
  have hBlock : ∀ s ∈ c.signatures, ∀ p ∈ s.all, '/' ∉ p.name.toList :=
    fun s hs p hp => Ident.no_slash (h.params s hs p hp)
  refine forall_docs (Q := fun doc => ∀ p ∈ doc.params, '/' ∉ p.name.toList)
    (List.forall_mem_nil _) (List.forall_mem_nil _) ?_ ?_ ?_ ?_ ?_ hDoc
  · exact fun _ _ => List.forall_mem_nil _
  · exact fun r hr => hBlock r.signature (List.mem_append_left _ (List.mem_map_of_mem hr))
  · exact fun f hf => hBlock f.signature (List.mem_append_right _ (List.mem_map_of_mem hf))
  · exact fun _ _ => List.forall_mem_nil _
  · exact fun _ _ => List.forall_mem_nil _

/-- The tokens of a header are those of its code, if no comment holds the end of a comment. -/
theorem tokens_classHeader (hNamed : c.Named (Ident.isValid · = true))
    (hComments : c.Commented fun t => ¬ Closes t.toList)
    (hCode : ∀ ls ∈ headerCode style c, StandsAlone (written style.indent ls)) :
    tokens (written style.indent (classHeader style c)) =
      (headerCode style c).flatMap fun ls => tokens (written style.indent ls) := by
  rw [← lines_headerStretches]
  exact tokens_stretches hCode fun depth doc hDoc =>
    silent_doc (params_of_mem_headerStretches hNamed hDoc)
      (comments_of_mem_headerStretches hComments hDoc)

end origins

/-- A comment stands in its header as a block. -/
theorem exists_block {style : Style} {c : Combine} {depth : Nat} {doc : Doc}
    (hDoc : .comment depth doc ∈ headerStretches style c) (h : doc ≠ .none) :
    ∃ above below, written style.indent (classHeader style c) =
      above ++ ('/' :: '*' :: (doc.inside (margin style.indent depth) ++ [' ']) ++ ['*', '/']) ++
        below := by
  obtain ⟨before, behind, hSplit⟩ := List.append_of_mem hDoc
  rw [← lines_headerStretches, hSplit, List.flatMap_append, List.flatMap_cons, written_append,
    written_append, written_comment h]
  exact ⟨written style.indent (before.flatMap Stretch.lines) ++ margin style.indent depth,
    '\n' :: written style.indent (behind.flatMap Stretch.lines), by simp⟩

/-- The block of a comment ends where it was meant to end exactly if none of its texts holds the
end of a comment. -/
theorem blockBody_inside_iff {edge : List Char} (hEdge : '/' ∉ edge) {doc : Doc}
    (h : ∀ p ∈ doc.params, '/' ∉ p.name.toList) :
    Source.BlockBody (Source.joinLines (doc.inside edge ++ [' '])) ↔
      ∀ t ∈ doc.comments, ¬ Closes t.toList := by
  have hInside : Source.BlockBody (Source.joinLines (doc.inside edge ++ [' '])) ↔
      ¬ Closes (doc.inside edge) := by
    rw [Source.joinLines_append_space, Source.BlockBody, List.append_assoc,
      Source.infix_append_iff_of_not_mem (by decide)]
    rfl
  rw [hInside, closes_inside hEdge h]
  push Not
  rfl

/-- Comments of a descriptor that hold no end of a comment remain such in the combine. -/
theorem commented_of_parsed {sources : Sources} {p : Project} {design : Design} (hParsed : p.Parsed)
    (h : (Design.elaborate sources p).outcome = .ok design)
    (hComments : ∀ d ∈ p.combines, ∀ t ∈ d.comments, ¬ Closes t.toList) :
    ∀ c ∈ design.combines, c.Commented fun t => ¬ Closes t.toList := by
  intro c hc
  obtain ⟨-, -, hCombines⟩ := Design.elaborate_eq_ok_iff.mp h
  obtain ⟨d, hd, hBuilt⟩ := Design.exists_descriptor_of_mem_combinesOf hCombines hc
  obtain ⟨document, source, hParse⟩ := hParsed.combines d hd
  have hValid := Descriptor.Combine.isValid_names_of_parse hParse
  refine Combine.commented_of_ofDescriptor (by decide) ?_ (hComments d hd) hBuilt
  intro n hn front hFront
  have hFronts : ∀ front ∈ Combine.defaultComments, '/' ∉ front.toList := by
    decide +kernel
  have hName : Ident.isValid n = true := by
    rw [← List.cons_append, List.forall_mem_append] at hValid
    exact hValid.1 n hn
  rw [String.toList_append]
  refine Source.not_closes_of_not_mem fun hMem => ?_
  rcases List.mem_append.mp hMem with hMem | hMem
  · exact hFronts front hFront hMem
  · exact Ident.no_slash hName hMem

section files

variable {style : Style} {d d' : Design}

theorem name_of_uncommented_eq {c c' : Combine} (h : c.uncommented = c'.uncommented) :
    c.name = c'.name := by
  simp only [Combine.uncommented, Combine.mk.injEq] at h
  exact h.1

/-- Designs that differ in comments only have the same files, apart from the headers of
combines. -/
theorem forall₂_files {R : File → File → Prop} (h : d.uncommented = d'.uncommented)
    (hSame : ∀ f, R f f)
    (hHeader : ∀ c ∈ d.combines, ∀ c' ∈ d'.combines, c.uncommented = c'.uncommented →
      R ⟨c.name ++ ".h", render style.indent (classHeader style c)⟩
        ⟨c'.name ++ ".h", render style.indent (classHeader style c')⟩) :
    List.Forall₂ R (files style d) (files style d') := by
  have hBundles : bundlesHeader style d = bundlesHeader style d' := by
    have hErased : ∀ d : Design, bundlesHeader style d.uncommented = bundlesHeader style d :=
      fun _ => rfl
    rw [← hErased d, h, hErased]
  have hCombines : d.combines.map Combine.uncommented = d'.combines.map Combine.uncommented :=
    congrArg Design.combines h
  rw [files, files, hBundles]
  refine .cons (hSame _) (List.rel_flatMap (forall₂_of_map_eq hCombines) fun c c' hPair => ?_)
  obtain ⟨hc, hc', hEq⟩ := hPair
  have hSource : classSource c = classSource c' := by
    rw [← classSource_uncommented, hEq, classSource_uncommented]
  rw [combineFiles, combineFiles, hSource, name_of_uncommented_eq hEq]
  have hOne := hHeader c hc c' hc' hEq
  rw [name_of_uncommented_eq hEq] at hOne
  exact .cons hOne (.cons (hSame _) .nil)

/-- Nor do the headers differ in their tokens, if no comment holds the end of a comment. -/
theorem tokens_files (h : d.uncommented = d'.uncommented)
    (hNamed : ∀ c ∈ d.combines ++ d'.combines, c.Named (Ident.isValid · = true))
    (hComments : ∀ c ∈ d.combines ++ d'.combines, c.Commented fun t => ¬ Closes t.toList)
    (hCode : ∀ c ∈ d.combines, ∀ ls ∈ headerCode style c,
      StandsAlone (written style.indent ls)) :
    ((files style d).map fun f => tokens f.contents.toList) =
      (files style d').map fun f => tokens f.contents.toList := by
  have hWritten : ∀ ls, (render style.indent ls).toList = written style.indent ls := fun _ => rfl
  have hAll : List.Forall₂ (fun f g => tokens g.contents.toList = tokens f.contents.toList)
      (files style d) (files style d') := by
    refine forall₂_files h (fun _ => rfl) fun c hc c' hc' hEq => ?_
    have hHere := List.mem_append_left d'.combines hc
    have hThere := List.mem_append_right d.combines hc'
    have hHeader : headerCode style c' = headerCode style c := by
      rw [← headerCode_uncommented, ← hEq, headerCode_uncommented]
    have hCode' : ∀ ls ∈ headerCode style c', StandsAlone (written style.indent ls) := by
      rw [hHeader]
      exact hCode c hc
    have hTokens := tokens_classHeader (hNamed c hHere) (hComments c hHere) (hCode c hc)
    have hTokens' := tokens_classHeader (hNamed c' hThere) (hComments c' hThere) hCode'
    dsimp only
    rw [hWritten, hWritten, hTokens, hTokens', hHeader]
  exact (map_eq_of_forall₂ hAll fun _ _ hEq => hEq).symm

end files

/-- A comment of a header ends where its block was meant to end exactly if none of its texts holds
the end of a comment. Other comments lead to the same files apart from these headers, and even
these have the same tokens, as long as no comment holds the end of a comment and each stretch of
code between comments stands alone. -/
theorem comments_enclosed {sources : Sources} {p q : Project} {design : Design} {style : Style}
    {fs : List File} (hp : p.Parsed) (hq : q.Parsed) (hSame : p.uncommented = q.uncommented)
    (hDesign : (Design.elaborate sources p).outcome = .ok design)
    (hFiles : (generate style design).outcome = .ok fs) :
    (∀ c ∈ design.combines, ∀ depth doc, .comment depth doc ∈ headerStretches style c →
      doc ≠ .none →
      (∃ above below, written style.indent (classHeader style c) = above ++
        ('/' :: '*' :: (doc.inside (margin style.indent depth) ++ [' ']) ++ ['*', '/']) ++ below) ∧
      (Source.BlockBody (Source.joinLines (doc.inside (margin style.indent depth) ++ [' '])) ↔
        ∀ t ∈ doc.comments, ¬ Closes t.toList)) ∧
    ∃ design' fs', (Design.elaborate sources q).outcome = .ok design' ∧
      (generate style design').outcome = .ok fs' ∧
      List.Forall₂ (fun f g => f.name = g.name ∧
        (f.contents = g.contents ∨ ∃ c ∈ design.combines, f.name = c.name ++ ".h")) fs fs' ∧
      ((∀ d ∈ p.combines ++ q.combines, ∀ t ∈ d.comments, ¬ Closes t.toList) →
        (∀ c ∈ design.combines, ∀ ls ∈ headerCode style c,
          StandsAlone (written style.indent ls)) →
        (fs.map fun f => tokens f.contents.toList) =
          fs'.map fun f => tokens f.contents.toList) := by
  obtain ⟨hCheck, rfl⟩ := generate_eq_ok_iff.mp hFiles
  obtain ⟨design', hDesign', hErased⟩ :=
    exists_ok_of_map_eq (Design.map_elaborate hSame sources) hDesign
  have hNamed := (Design.named_of_parsed hp hDesign).2
  have hNamed' := (Design.named_of_parsed hq hDesign').2
  have hCheck' : checkKeywords design' = .ok () := by
    rw [← checkKeywords_uncommented, ← hErased, checkKeywords_uncommented, hCheck]
  constructor
  · intro c hc depth doc hDoc hNone
    have hEdge : '/' ∉ margin style.indent depth := by simp [margin]
    exact ⟨exists_block hDoc hNone,
      blockBody_inside_iff hEdge (params_of_mem_headerStretches (hNamed c hc) hDoc)⟩
  · refine ⟨design', files style design', hDesign', generate_eq_ok_iff.mpr ⟨hCheck', rfl⟩, ?_, ?_⟩
    · refine forall₂_files hErased (fun f => ⟨rfl, Or.inl rfl⟩) fun c hc c' _ hEq => ?_
      exact ⟨congrArg (· ++ ".h") (name_of_uncommented_eq hEq), Or.inr ⟨c, hc, rfl⟩⟩
    · intro hComments hCode
      obtain ⟨hFirst, hSecond⟩ := List.forall_mem_append.mp hComments
      exact tokens_files hErased (List.forall_mem_append.mpr ⟨hNamed, hNamed'⟩)
        (List.forall_mem_append.mpr ⟨commented_of_parsed hp hDesign hFirst,
          commented_of_parsed hq hDesign' hSecond⟩) hCode

section standing

/-- Nothing in the line opens a literal, a comment or a directive. -/
def Line.isInert (l : Line) : Bool := l.text.toList.all Source.isInert

def isHeaderName (name : String) : Bool := name.toList.all Source.isHeaderChar

variable {indent : Nat} {ls : List Line}

theorem standsAlone_lines (h : ∀ l ∈ ls, StandsAlone (written indent [l])) :
    StandsAlone (written indent ls) := by
  induction ls with
  | nil => exact .nil
  | cons l ls ih =>
      obtain ⟨hl, hMore⟩ := List.forall_mem_cons.mp h
      rw [← List.singleton_append, written_append]
      exact hl.append (ih hMore)

theorem standsAlone_inert {l : Line} (h : l.isInert = true) :
    StandsAlone (written indent [l]) := by
  have hAll : ∀ c ∈ margin indent l.depth ++ l.text.toList, Source.isInert c = true := by
    rw [List.forall_mem_append]
    refine ⟨fun c hc => ?_, List.all_eq_true.mp h⟩
    rw [List.eq_of_mem_replicate hc]
    decide
  rw [written_cons]
  exact Source.standsAlone_line hAll

theorem standsAlone_prologue {headers : List String}
    (h : ∀ name ∈ headers, isHeaderName name = true) :
    StandsAlone (written indent (prologue headers)) := by
  have hBlank : StandsAlone (written indent [flush ""]) := standsAlone_inert rfl
  have hFlush : ∀ text, written indent [flush text] = text.toList ++ ['\n'] := by
    intro text
    rw [written_cons, written_nil]
    simp [margin, flush]
  have hInclude : ∀ name ∈ headers, StandsAlone (written indent [includeLine name]) := by
    intro name hName
    rw [includeLine, hFlush]
    simpa using Source.standsAlone_include (List.all_eq_true.mp (h name hName))
  have hPragma : StandsAlone (written indent [flush "#pragma once"]) := by
    rw [hFlush]
    exact Source.standsAlone_pragma
  refine standsAlone_lines ?_
  simp only [prologue, List.forall_mem_append, List.forall_mem_cons, List.forall_mem_map]
  exact ⟨⟨⟨hPragma, hBlank, List.forall_mem_nil _⟩, hInclude⟩, hBlank, List.forall_mem_nil _⟩

theorem isHeaderName_fixed :
    ∀ name ∈ commonHeaders ++ combineHeaders, isHeaderName name = true := by
  decide +kernel

/-- Code in which nothing opens a literal, a comment or a directive stands alone between comments,
so long as what it includes is named properly. -/
theorem standsAlone_headerCode {style : Style} {c : Combine}
    (hIncludes : ∀ name ∈ style.includes, isHeaderName name = true)
    (hLines : ∀ ls ∈ (headerCode style c).tail, ∀ l ∈ ls, l.isInert = true) :
    ∀ ls ∈ headerCode style c, StandsAlone (written style.indent ls) := by
  have hHead : headerCode style c =
      prologue (commonHeaders ++ combineHeaders ++ style.includes) ::
        (headerCode style c).tail := by
    rw [headerCode, headerStretches, headerPieces_comment style c c.comment]
    generalize (headerPieces style c).drop 2 = pieces
    rfl
  rw [hHead, List.forall_mem_cons]
  constructor
  · exact standsAlone_prologue (List.forall_mem_append.mpr ⟨isHeaderName_fixed, hIncludes⟩)
  · exact fun ls hls => standsAlone_lines fun l hl => standsAlone_inert (hLines ls hls l hl)

end standing

/-- A combine with members of several kinds. -/
def countingProject (own report limit count : Option String) : Project where
  cppDir := "cpp"
  bundles := []
  combines := [
    { name := "Counter", comment := own, source := "counter.xml"
      pipeIn := [], pipeOut := []
      requests := [⟨"report", report, [⟨"limit", "uint32", limit⟩], [], none⟩], services := []
      functions := [], storage := [⟨"count", "uint32", some "0", count⟩], storageNext := []
      storageTick := [], configs := [], init := [], tick := [], applyTick := []
      stallable := false }]

/-- The combine that it is elaborated into. -/
def countingCombine (own report limit count : String) : Combine where
  name := "Counter"
  comment := own
  pipes := []
  requests := [⟨"report", ⟨[⟨"limit", .primitive .uint32, limit⟩], []⟩, report⟩]
  operations := []
  storage := [.plain "count" (.primitive .uint32) (some "0") count]
  configs := []
  init := []
  tick := []
  applyTick := []
  stallable := false

theorem countingProject_elaborated (own report limit count : Option String) :
    (Design.elaborate Descriptor.blankSources
      (countingProject own report limit count)).outcome = .ok ⟨[], [], [countingCombine
        (own.getD "Combine Counter") (report.getD "Request report") (limit.getD "")
        (count.getD "Storage count")]⟩ := rfl

theorem countingProject_generated (own report limit count : String) :
    (generate {} ⟨[], [], [countingCombine own report limit count]⟩).outcome =
      .ok (files {} ⟨[], [], [countingCombine own report limit count]⟩) := by
  have hErased : Design.uncommented ⟨[], [], [countingCombine own report limit count]⟩ =
      ⟨[], [], [countingCombine "" "" "" ""]⟩ := rfl
  refine generate_eq_ok_iff.mpr ⟨?_, rfl⟩
  rw [← checkKeywords_uncommented, hErased]
  decide +kernel

theorem countingProject_standsAlone (own report limit count : String) :
    ∀ ls ∈ headerCode {} (countingCombine own report limit count),
      StandsAlone (written 4 ls) := by
  have hErased : headerCode {} (countingCombine own report limit count) =
      headerCode {} (countingCombine "" "" "" "") := by
    rw [← headerCode_uncommented]
    rfl
  rw [hErased]
  exact standsAlone_headerCode (List.forall_mem_nil _) (by decide +kernel)

def uncommentedCounter : Project := countingProject none none none none

/-- Its comments hold stars, slashes, a backslash and an opening, but no end of a comment. -/
def remarkedCounter : Project :=
  countingProject (some "Counts a * b / c") (some "*\\") (some "at most")
    (some "// so far /* no end")

theorem counters_tokens :
    remarkedCounter.Parsed ∧ uncommentedCounter.Parsed ∧
    remarkedCounter.uncommented = uncommentedCounter.uncommented ∧ ∃ design design',
      (Design.elaborate Descriptor.blankSources remarkedCounter).outcome = .ok design ∧
      (generate {} design).outcome = .ok (files {} design) ∧
      (Design.elaborate Descriptor.blankSources uncommentedCounter).outcome = .ok design' ∧
      (generate {} design').outcome = .ok (files {} design') ∧
      ((files {} design).map fun f => tokens f.contents.toList) =
        (files {} design').map fun f => tokens f.contents.toList := by
  have hp : remarkedCounter.Parsed :=
    Project.parsed_of_valid (by decide +kernel) (by decide +kernel)
  have hq : uncommentedCounter.Parsed :=
    Project.parsed_of_valid (by decide +kernel) (by decide +kernel)
  obtain ⟨-, design', fs', hDesign', hFiles', -, hTokens⟩ :=
    comments_enclosed hp hq rfl (countingProject_elaborated ..) (countingProject_generated ..)
  obtain rfl := (generate_eq_ok_iff.mp hFiles').2
  refine ⟨hp, hq, rfl, _, design', countingProject_elaborated .., countingProject_generated ..,
    hDesign', hFiles', hTokens ?_ ?_⟩
  · decide +kernel
  · exact List.forall_mem_singleton.mpr (countingProject_standsAlone _ _ _ _)

/-- Its comment holds the end of a comment. -/
def leakyCounter : Project :=
  countingProject (some "a */\nint leaked;\n/* b") none none none

/-- The code around the comment on the class does not depend on it. -/
theorem exists_written_counter (report limit count : String) :
    ∃ before behind, StandsAlone before ∧ ∀ own,
      written 4 (classHeader {} (countingCombine own report limit count)) =
        before ++ (('/' :: '*' :: (' ' :: own.toList) ++ [' ', '*', '/'] ++ ['\n']) ++ behind) := by
  have hStands : StandsAlone (written 4 (prologue (commonHeaders ++ combineHeaders))) :=
    standsAlone_prologue isHeaderName_fixed
  refine ⟨_, written 4 (((headerPieces {} (countingCombine "" report limit count)).drop 2).flatMap
    Piece.lines), hStands, fun own => ?_⟩
  have hOwn : countingCombine own report limit count =
      { countingCombine "" report limit count with comment := own } := rfl
  have hComment : (Piece.comment 0 (.line own)).lines = (Stretch.comment 0 (.line own)).lines := rfl
  rw [← lines_headerPieces, hOwn, headerPieces_comment, List.append_nil, List.flatMap_cons,
    List.flatMap_cons, written_append, written_append, hComment, written_comment (by simp)]
  simp [Piece.lines, margin, Doc.inside]

theorem silent_commentLine {text : List Char} (h : ¬ Closes text) :
    Silent ('/' :: '*' :: text ++ [' ', '*', '/'] ++ ['\n']) :=
  (Source.silent_comment h).append Source.silent_lineFeed

/-- A comment with the end of a comment in it brings its text into the code of the header. -/
theorem leakyCounter_tokens :
    leakyCounter.Parsed ∧ uncommentedCounter.Parsed ∧
    leakyCounter.uncommented = uncommentedCounter.uncommented ∧ ∃ c c' : Combine,
      (Design.elaborate Descriptor.blankSources leakyCounter).outcome = .ok ⟨[], [], [c]⟩ ∧
      (generate {} ⟨[], [], [c]⟩).outcome = .ok (files {} ⟨[], [], [c]⟩) ∧
      (Design.elaborate Descriptor.blankSources uncommentedCounter).outcome =
        .ok ⟨[], [], [c']⟩ ∧
      (generate {} ⟨[], [], [c']⟩).outcome = .ok (files {} ⟨[], [], [c']⟩) ∧
      ∃ before behind,
        tokens (written 4 (classHeader {} c)) = before ++
          [⟨.word, "int".toList⟩, ⟨.word, "leaked".toList⟩, ⟨.symbol, [';']⟩] ++ behind ∧
        tokens (written 4 (classHeader {} c')) = before ++ behind := by
  have hp : leakyCounter.Parsed := Project.parsed_of_valid (by decide +kernel) (by decide +kernel)
  have hq : uncommentedCounter.Parsed :=
    Project.parsed_of_valid (by decide +kernel) (by decide +kernel)
  obtain ⟨before, behind, hBefore, hWritten⟩ :=
    exists_written_counter "Request report" "" "Storage count"
  have hLine : StandsAlone ("int leaked;".toList ++ ['\n']) :=
    Source.standsAlone_line (List.all_eq_true.mp (by decide))
  have hLeaked : tokens ("int leaked;".toList ++ ['\n']) =
      [⟨.word, "int".toList⟩, ⟨.word, "leaked".toList⟩, ⟨.symbol, [';']⟩] := by
    decide +kernel
  have hFirst : Silent ('/' :: '*' :: " a".toList ++ [' ', '*', '/'] ++ ['\n']) :=
    silent_commentLine (by decide +kernel)
  have hSecond : Silent ('/' :: '*' :: " b".toList ++ [' ', '*', '/'] ++ ['\n']) :=
    silent_commentLine (by decide +kernel)
  have hOnly : Silent ('/' :: '*' :: (' ' :: "Combine Counter".toList) ++ [' ', '*', '/'] ++
      ['\n']) :=
    silent_commentLine (by decide +kernel)
  have hParts : ('/' :: '*' :: (' ' :: "a */\nint leaked;\n/* b".toList) ++ [' ', '*', '/'] ++
      ['\n']) ++ behind =
      ('/' :: '*' :: " a".toList ++ [' ', '*', '/'] ++ ['\n']) ++
        (("int leaked;".toList ++ ['\n']) ++
          (('/' :: '*' :: " b".toList ++ [' ', '*', '/'] ++ ['\n']) ++ behind)) := by
    simp
  refine ⟨hp, hq, rfl,
    countingCombine "a */\nint leaked;\n/* b" "Request report" "" "Storage count",
    countingCombine "Combine Counter" "Request report" "" "Storage count",
    countingProject_elaborated .., countingProject_generated .., countingProject_elaborated ..,
    countingProject_generated .., tokens before, tokens behind, ?_, ?_⟩
  · rw [hWritten, hBefore, hParts, hFirst, hLine, hLeaked, hSecond, List.append_assoc]
  · rw [hWritten, hBefore, hOnly]

end Simgen.Cpp
