import Simgen.Proofs.Compile.Output
import Simgen.Proofs.Cpp.Injection
import Simgen.Proofs.Descriptor.Names
import Simgen.Proofs.Descriptor.RoundTrip
import Simgen.Proofs.Design.Masking

/-! The identifiers of generated code. Only names from descriptors are checked for keywords. What
is generated from them cannot be one, and is as valid as they are. -/
namespace Simgen

/-- Each name that the bundle is given has the property. -/
structure Bundle.Named (P : String → Prop) (b : Bundle) : Prop where
  name : P b.name
  members : ∀ m ∈ b.members, P m.name

/-- Each name that the combine is given has the property: its own, and those of its members and
their parameters. -/
structure Combine.Named (P : String → Prop) (c : Combine) : Prop where
  name : P c.name
  pipes : ∀ p ∈ c.pipes, P p.name
  requests : ∀ r ∈ c.requests, P r.name
  operations : ∀ f ∈ c.operations, P f.name
  storage : ∀ s ∈ c.storage, P s.name
  configs : ∀ t ∈ c.configs, P t.name
  params : ∀ s ∈ c.signatures, ∀ p ∈ s.params ++ s.returns, P p.name

theorem Bundle.named_iff {P : String → Prop} {b : Bundle} :
    b.Named P ↔ ∀ n ∈ b.name :: b.members.map Member.name, P n := by
  rw [List.forall_mem_cons, List.forall_mem_map]
  exact ⟨fun h => ⟨h.name, h.members⟩, fun h => ⟨h.1, h.2⟩⟩

theorem Combine.named_iff {P : String → Prop} {c : Combine} :
    c.Named P ↔
      ∀ n ∈ c.name :: (c.ownNames ++ c.signatures.flatMap fun s => s.all.map Param.name), P n := by
  simp only [ownNames, Signature.all, List.forall_mem_cons, List.forall_mem_append,
    List.forall_mem_map, List.forall_mem_flatMap]
  constructor
  · intro h
    exact ⟨h.name, ⟨⟨⟨⟨h.pipes, h.requests⟩, h.operations⟩, h.storage⟩, h.configs⟩,
      fun s hs => List.forall_mem_append.mp (h.params s hs)⟩
  · rintro ⟨hName, ⟨⟨⟨⟨hPipes, hRequests⟩, hOperations⟩, hStorage⟩, hConfigs⟩, hParams⟩
    exact ⟨hName, hPipes, hRequests, hOperations, hStorage, hConfigs,
      fun s hs => List.forall_mem_append.mpr (hParams s hs)⟩

namespace Cpp

/-- A name that a declaration can have. -/
structure Usable (name : String) : Prop where
  valid : Ident.isValid name = true
  not_keyword : name ∉ keywords

instance (name : String) : Decidable (Usable name) :=
  decidable_of_iff (Ident.isValid name = true ∧ name ∉ keywords)
    ⟨fun h => ⟨h.1, h.2⟩, fun h => ⟨h.valid, h.not_keyword⟩⟩

/-- What generated names begin with. -/
def fronts : List String :=
  ["_pipein_", "_pipeout_", "_request_", "_storagenext_", "pipein_", "pipeout_", "request_"]

/-- What generated names end with. -/
def backs : List String := ["_can_pop", "_top", "_pop", "_can_push", "_push", "_get", "_setnext"]

theorem isValid_append {name rest : String} (hName : Ident.isValid name = true)
    (hRest : rest.toList.all Ident.isRest = true) : Ident.isValid (name ++ rest) = true := by
  unfold Ident.isValid at hName ⊢
  rw [String.toList_append]
  cases hList : name.toList with
  | nil =>
      rw [hList] at hName
      cases hName
  | cons first others =>
      rw [hList] at hName
      rw [Bool.and_eq_true] at hName
      rw [List.cons_append, Bool.and_eq_true, List.all_append, Bool.and_eq_true]
      exact ⟨hName.1, hName.2, hRest⟩

/-- No keyword begins or ends like a generated name. -/
theorem keywords_apart : ∀ word ∈ keywords,
    (∀ front ∈ fronts, ¬ front.toList <+: word.toList) ∧
      ∀ back ∈ backs, ¬ back.toList <:+ word.toList := by
  -- Some keywords have underscores too, so it takes the whole beginning or ending to tell.
  decide +kernel

theorem usable_front {front name : String} (hFront : front ∈ fronts)
    (hName : Ident.isValid name = true) : Usable (front ++ name) := by
  have hFronts : ∀ front ∈ fronts, Ident.isValid front = true := by decide +kernel
  have hRest : name.toList.all Ident.isRest = true :=
    List.all_eq_true.mpr fun ch hch => Ident.isRest_of_mem hName hch
  constructor
  · exact isValid_append (hFronts front hFront) hRest
  · intro hKeyword
    refine (keywords_apart _ hKeyword).1 front hFront ?_
    rw [String.toList_append]
    exact List.prefix_append _ _

theorem usable_back {name back : String} (hName : Ident.isValid name = true)
    (hBack : back ∈ backs) : Usable (name ++ back) := by
  have hBacks : ∀ back ∈ backs, back.toList.all Ident.isRest = true := by decide +kernel
  constructor
  · exact isValid_append hName (hBacks back hBack)
  · intro hKeyword
    refine (keywords_apart _ hKeyword).2 back hBack ?_
    rw [String.toList_append]
    exact List.suffix_append _ _

/-- The line introduces the name: it declares it, opens or closes what has it for a name, or has it
among its parameters. -/
inductive Introduces (name : String) : String → Prop where
  | declared {text : String} (h : Declares name text) : Introduces name text
  | bundle : Introduces name ("\x7d " ++ name ++ ";")
  | opening : Introduces name ("class " ++ name ++ " \x7b")
  | constructor (argument : String) :
      Introduces name (name ++ "(ConstructorArguments & " ++ argument ++ ") \x7b")
  | definition (className parameters : String) :
      Introduces name ("void " ++ className ++ "::" ++ name ++ "(" ++ parameters ++ ") \x7b")
  | parameter (front type : String) {back : String}
      (h : back.toList.head? = some ',' ∨ back.toList.head? = some ')') :
      Introduces name (front ++ type ++ " " ++ name ++ back)

theorem introduces_parameter {ps : List Parameter} {p : Parameter} (hp : p ∈ ps)
    (front rest : String) :
    Introduces p.name (front ++ parameterList ps ++ ")" ++ rest) := by
  induction ps generalizing front with
  | nil => cases hp
  | cons q qs ih =>
      cases qs with
      | nil =>
          obtain rfl := List.mem_singleton.mp hp
          have hBack : (")" ++ rest).toList.head? = some ')' := by simp
          have hText : front ++ parameterList [p] ++ ")" ++ rest =
              front ++ p.type ++ " " ++ p.name ++ (")" ++ rest) := by
            simp [parameterList, Parameter.text, String.append_assoc]
          rw [hText]
          exact .parameter front p.type (Or.inr hBack)
      | cons next others =>
          have hText : front ++ parameterList (q :: next :: others) ++ ")" ++ rest =
              front ++ q.type ++ " " ++ q.name ++
                (", " ++ (parameterList (next :: others) ++ ")" ++ rest)) := by
            simp [parameterList, Parameter.text, String.append_assoc]
          rw [hText]
          rcases List.mem_cons.mp hp with rfl | hOthers
          · exact .parameter front p.type (Or.inl (by simp))
          · have hNext := ih hOthers (front ++ q.type ++ " " ++ q.name ++ ", ")
            simpa only [String.append_assoc] using hNext

theorem introduces_text {d : Declaration} {n : String} (hn : n ∈ d.identifiers) :
    Introduces n d.text := by
  rcases List.mem_cons.mp hn with rfl | hParameter
  · exact .declared (declares_text d)
  · obtain ⟨p, hp, rfl⟩ := List.mem_map.mp hParameter
    have hPrototype : ");" = ")" ++ ";" := rfl
    have hBody : ") \x7b " = ")" ++ " \x7b " := rfl
    cases d with
    | field type name initial => cases hp
    | callback name ps =>
        have hText := introduces_parameter hp ("void (*" ++ name ++ ")(") ";"
        simpa only [Declaration.text, Declaration.parameters, hPrototype,
          String.append_assoc] using hText
    | method type name ps body ending =>
        have hText := introduces_parameter hp (type ++ " " ++ name ++ "(")
          (" \x7b " ++ " ".intercalate (body.map Statement.text) ++ " \x7d" ++ ending)
        simpa only [Declaration.text, Declaration.parameters, hBody,
          String.append_assoc] using hText
    | prototype name ps =>
        have hText := introduces_parameter hp ("void " ++ name ++ "(") ";"
        simpa only [Declaration.text, Declaration.parameters, hPrototype,
          String.append_assoc] using hText

/-- What a piece is said to introduce is introduced by one of its lines. -/
theorem Piece.exists_introduces {piece : Piece} {n : String} (hn : n ∈ piece.identifiers) :
    ∃ line ∈ piece.lines, Introduces n line.text := by
  cases piece with
  | silent lines => cases hn
  | comment depth doc => cases hn
  | declaration depth d => exact ⟨_, List.mem_singleton_self _, introduces_text hn⟩
  | struct name members =>
      rcases List.mem_cons.mp hn with rfl | hMember
      · exact ⟨_, List.mem_append_right _ (List.mem_singleton_self _), .bundle⟩
      · obtain ⟨d, hd, hText⟩ := List.mem_flatMap.mp hMember
        refine ⟨indented d.text, ?_, introduces_text hText⟩
        exact List.mem_append_left _ (List.mem_append_right _ (List.mem_map_of_mem hd))
  | opening depth name =>
      obtain rfl := List.mem_singleton.mp hn
      exact ⟨_, List.mem_singleton_self _, .opening⟩
  | constructor className argument =>
      refine ⟨_, List.mem_singleton_self _, ?_⟩
      rcases List.mem_cons.mp hn with rfl | hArgument
      · exact .constructor argument
      · obtain rfl := List.mem_singleton.mp hArgument
        have hParameter : Introduces n (className ++ "(" ++ "ConstructorArguments &" ++ " " ++ n ++
            ") \x7b") := .parameter _ _ (Or.inr (by decide))
        have hOpening : "(ConstructorArguments & " = "(" ++ "ConstructorArguments &" ++ " " := rfl
        simpa only [indented, hOpening, String.append_assoc] using hParameter
  | definition className m =>
      refine ⟨_, List.mem_append_left _ (List.mem_append_left _ (List.mem_singleton_self _)), ?_⟩
      rcases List.mem_cons.mp hn with rfl | hParameter
      · exact .definition className (parameterList m.parameters)
      · obtain ⟨p, hp, rfl⟩ := List.mem_map.mp hParameter
        have hText :=
          introduces_parameter hp ("void " ++ className ++ "::" ++ m.name ++ "(") " \x7b"
        have hBody : ") \x7b" = ")" ++ " \x7b" := rfl
        simpa only [flush, hBody, String.append_assoc] using hText

/-- A generated file as it is made up of pieces. -/
structure Outline where
  name : String
  pieces : List Piece

namespace Outline

def file (indent : Nat) (o : Outline) : File :=
  { name := o.name, contents := render indent (o.pieces.flatMap Piece.lines) }

def identifiers (o : Outline) : List String := o.pieces.flatMap Piece.identifiers

end Outline

def bundlesOutline (style : Style) (d : Design) : Outline where
  name := "bundle.h"
  pieces := [.silent (prologue (commonHeaders ++ style.includes))] ++
    d.bundlesInOrder.flatMap fun b =>
      [.struct b.name (b.members.map memberDeclaration), .silent [flush ""]]

def headerOutline (style : Style) (c : Combine) : Outline where
  name := c.name ++ ".h"
  pieces := headerPieces style c

def sourceOutline (c : Combine) : Outline where
  name := c.name ++ ".cpp"
  pieces := [.silent [includeLine (c.name ++ ".h"), flush ""]] ++
    ((operationDefinitions c).flatMap fun m => [.definition c.name m, .silent [flush ""]]) ++
    (lifecycleDefinitions c).map fun m => .definition c.name m

/-- All generated files. -/
def outlines (style : Style) (d : Design) : List Outline :=
  bundlesOutline style d :: d.combines.flatMap fun c => [headerOutline style c, sourceOutline c]

variable {c : Combine}

theorem lines_bundlesOutline (style : Style) (d : Design) :
    (bundlesOutline style d).pieces.flatMap Piece.lines = bundlesHeader style d := by
  have hBlock : (fun b : Bundle =>
      [Piece.struct b.name (b.members.map memberDeclaration), .silent [flush ""]].flatMap
        Piece.lines) = bundleBlock := by
    funext b
    simp [Piece.lines, bundleBlock]
  rw [bundlesOutline, bundlesHeader, List.flatMap_append, List.flatMap_assoc, hBlock,
    List.flatMap_singleton]
  rfl

theorem lines_sourceOutline (c : Combine) :
    (sourceOutline c).pieces.flatMap Piece.lines = classSource c := by
  simp [sourceOutline, classSource, Piece.lines, List.flatMap_assoc, List.flatMap_map]

theorem files_eq (style : Style) (d : Design) :
    files style d = (outlines style d).map (Outline.file style.indent) := by
  have hCombine : ∀ c : Combine, [headerOutline style c, sourceOutline c].map
      (Outline.file style.indent) = combineFiles style c := by
    intro c
    have hHeader : (headerOutline style c).pieces.flatMap Piece.lines = classHeader style c :=
      lines_headerPieces style c
    simp only [List.map_cons, List.map_nil, Outline.file, hHeader, lines_sourceOutline,
      combineFiles]
    rfl
  rw [outlines, List.map_cons, List.map_flatMap, Outline.file, lines_bundlesOutline, files]
  simp only [hCombine]
  rfl

/-- The identifiers that a part of a combine brings into its class and into the class of what the
constructor takes. -/
def Part.identifiers (q : Part) : List String :=
  (q.members.flatMap fun m => m.declaration.identifiers) ++
    q.injected.toList.flatMap fun i => i.argument.identifiers

theorem inputPart_identifiers (p : Pipe) :
    (inputPart p).identifiers =
      ["_pipein_" ++ p.name, p.name ++ "_can_pop", p.name ++ "_top", p.name ++ "_pop",
        "pipein_" ++ p.name] := by
  have hMember : "_" ++ ("pipein_" ++ p.name) = "_pipein_" ++ p.name := by
    rw [← String.append_assoc]
    rfl
  rw [← hMember]
  rfl

theorem outputPart_identifiers (p : Pipe) :
    (outputPart p).identifiers =
      ["_pipeout_" ++ p.name, p.name ++ "_can_push", p.name ++ "_push", "value",
        "pipeout_" ++ p.name] := by
  have hMember : "_" ++ ("pipeout_" ++ p.name) = "_pipeout_" ++ p.name := by
    rw [← String.append_assoc]
    rfl
  rw [← hMember]
  rfl

theorem requestPart_identifiers (r : Request) :
    (requestPart r).identifiers =
      ["_request_" ++ r.name] ++ (parameters r.signature).map Parameter.name ++ [r.name] ++
        (parameters r.signature).map Parameter.name ++ ["request_" ++ r.name] ++
        (parameters r.signature).map Parameter.name := by
  have hMember : "_" ++ ("request_" ++ r.name) = "_request_" ++ r.name := by
    rw [← String.append_assoc]
    rfl
  rw [← hMember]
  simp [Part.identifiers, requestPart, bare, accessor, Injected.declaration, Injected.argument,
    Injected.member, Handle.declare, Declaration.identifiers, Declaration.name,
    Declaration.parameters]

section usable

variable (h : c.Named Usable)

include h

theorem usable_parameters {s : Signature} (hs : s ∈ c.signatures) :
    ∀ n ∈ (parameters s).map Parameter.name, Usable n := by
  rw [map_name_parameters, List.forall_mem_map]
  exact h.params s hs

theorem usable_inputPart {p : Pipe} (hp : p ∈ c.pipes) :
    ∀ n ∈ (inputPart p).identifiers, Usable n := by
  -- The name of a pipe appears inside other names only: it could be a keyword itself.
  have hValid := (h.pipes p hp).valid
  rw [inputPart_identifiers]
  simp only [List.forall_mem_cons]
  exact ⟨usable_front (by decide) hValid, usable_back hValid (by decide),
    usable_back hValid (by decide), usable_back hValid (by decide),
    usable_front (by decide) hValid, List.forall_mem_nil _⟩

theorem usable_outputPart {p : Pipe} (hp : p ∈ c.pipes) :
    ∀ n ∈ (outputPart p).identifiers, Usable n := by
  have hValid := (h.pipes p hp).valid
  rw [outputPart_identifiers]
  simp only [List.forall_mem_cons]
  exact ⟨usable_front (by decide) hValid, usable_back hValid (by decide),
    usable_back hValid (by decide), by decide, usable_front (by decide) hValid,
    List.forall_mem_nil _⟩

theorem usable_requestPart {r : Request} (hr : r ∈ c.requests) :
    ∀ n ∈ (requestPart r).identifiers, Usable n := by
  have hName := h.requests r hr
  have hParams := usable_parameters h
    (List.mem_append_left _ (List.mem_map_of_mem (f := Request.signature) hr))
  rw [requestPart_identifiers]
  simp only [List.forall_mem_append, List.forall_mem_singleton]
  exact ⟨⟨⟨⟨⟨usable_front (by decide) hName.valid, hParams⟩, hName⟩, hParams⟩,
    usable_front (by decide) hName.valid⟩, hParams⟩

theorem usable_operationPart {f : Operation} (hf : f ∈ c.operations) :
    ∀ n ∈ (operationPart f).identifiers, Usable n := by
  have hIdentifiers : (operationPart f).identifiers =
      f.name :: (parameters f.signature).map Parameter.name := by
    simp [Part.identifiers, operationPart, Declaration.identifiers, Declaration.name,
      Declaration.parameters]
  rw [hIdentifiers, List.forall_mem_cons]
  exact ⟨h.operations f hf, usable_parameters h
    (List.mem_append_right _ (List.mem_map_of_mem (f := Operation.signature) hf))⟩

theorem usable_storagePart {s : Storage} (hs : s ∈ c.storage) :
    ∀ n ∈ (storagePart s).identifiers, Usable n := by
  have hName := h.storage s hs
  cases s with
  | plain name type default comment => exact List.forall_mem_singleton.mpr hName
  | tick name type default comment => exact List.forall_mem_singleton.mpr hName
  | next name type default comment =>
      have hIdentifiers : (storagePart (.next name type default comment)).identifiers =
          ["_storagenext_" ++ name, name ++ "_get", name ++ "_setnext", "value", "priority"] :=
        rfl
      have hValid : Ident.isValid name = true := hName.valid
      rw [hIdentifiers]
      simp only [List.forall_mem_cons]
      exact ⟨usable_front (by decide) hValid, usable_back hValid (by decide),
        usable_back hValid (by decide), by decide, by decide, List.forall_mem_nil _⟩

/-- Whatever part of a combine an identifier comes from, it is usable. -/
theorem usable_parts : ∀ q ∈ parts c, ∀ n ∈ q.identifiers, Usable n := by
  simp only [parts, List.forall_mem_append, List.forall_mem_map]
  refine ⟨⟨⟨⟨⟨⟨?_, ?_⟩, ?_⟩, ?_⟩, ?_⟩, ?_⟩, ?_⟩
  · intro p hp
    exact usable_inputPart h (List.mem_of_mem_filter hp)
  · intro p hp
    exact usable_outputPart h (List.mem_of_mem_filter hp)
  · exact fun r hr => usable_requestPart h hr
  · exact fun f hf => usable_operationPart h hf
  · exact fun s hs => usable_storagePart h hs
  · exact fun t ht => List.forall_mem_singleton.mpr (h.configs t ht)
  · split_ifs
    · decide +kernel
    · exact List.forall_mem_nil _

theorem usable_classMembers :
    ∀ m ∈ classMembers c, ∀ n ∈ m.declaration.identifiers, Usable n := by
  intro m hm n hn
  obtain ⟨q, hq, hMember⟩ := List.mem_flatMap.mp hm
  exact usable_parts h q hq n (List.mem_append_left _ (List.mem_flatMap.mpr ⟨m, hMember, hn⟩))

theorem usable_injections : ∀ i ∈ injections c, ∀ n ∈ i.argument.identifiers, Usable n := by
  intro i hi n hn
  obtain ⟨q, hq, hInjected⟩ := List.mem_filterMap.mp hi
  refine usable_parts h q hq n (List.mem_append_right _ (List.mem_flatMap.mpr ⟨i, ?_, hn⟩))
  rw [hInjected]
  exact List.mem_singleton_self i

end usable

theorem identifiers_bundlesOutline (style : Style) (d : Design) :
    (bundlesOutline style d).identifiers =
      d.bundlesInOrder.flatMap fun b => b.name :: b.members.map Bundle.Member.name := by
  have hMember : ∀ m : Bundle.Member, (memberDeclaration m).identifiers = [m.name] := fun _ => rfl
  simp [Outline.identifiers, bundlesOutline, Piece.identifiers, List.flatMap_assoc,
    hMember, List.map_eq_flatMap]

theorem identifiers_headerOutline (style : Style) (c : Combine) :
    (headerOutline style c).identifiers =
      [c.name, "ConstructorArguments"] ++
        ((injections c).flatMap fun i => i.argument.identifiers) ++ ["__dummy", c.name, "arg"] ++
        phaseMethods ++ (classMembers c).flatMap fun m => m.declaration.identifiers := by
  have hPhases : phaseMethods.flatMap (fun name => (Declaration.prototype name []).identifiers) =
      phaseMethods := rfl
  have hDummy : (Declaration.field "int32" "__dummy" (some "0")).identifiers = ["__dummy"] := rfl
  simp [Outline.identifiers, headerOutline, headerPieces, openingPieces, argumentPieces,
    constructorPieces, memberPieces, Piece.identifiers, List.flatMap_assoc, List.flatMap_map,
    lifecyclePrototypes, hPhases, hDummy]

theorem identifiers_sourceOutline (c : Combine) :
    (sourceOutline c).identifiers =
      (c.operations.flatMap fun f => f.name :: (parameters f.signature).map Parameter.name) ++
        phaseMethods := by
  simp [Outline.identifiers, sourceOutline, Piece.identifiers, List.flatMap_assoc,
    List.flatMap_map, operationDefinitions, lifecycleDefinitions, phaseMethods]

theorem usable_bundlesOutline (style : Style) {d : Design}
    (h : ∀ b ∈ d.bundles, b.Named Usable) :
    ∀ n ∈ (bundlesOutline style d).identifiers, Usable n := by
  rw [identifiers_bundlesOutline]
  intro n hn
  obtain ⟨b, hb, hName⟩ := List.mem_flatMap.mp hn
  obtain ⟨name, -, hFound⟩ := List.mem_filterMap.mp hb
  exact Bundle.named_iff.mp (h b (List.mem_of_find?_eq_some hFound)) n hName

theorem usable_phaseMethods : ∀ n ∈ phaseMethods, Usable n := by decide +kernel

theorem usable_headerOutline (style : Style) (h : c.Named Usable) :
    ∀ n ∈ (headerOutline style c).identifiers, Usable n := by
  have hFixed : Usable "ConstructorArguments" ∧ Usable "__dummy" ∧ Usable "arg" := by
    decide +kernel
  obtain ⟨hArguments, hDummy, hArg⟩ := hFixed
  rw [identifiers_headerOutline]
  simp only [List.forall_mem_append, List.forall_mem_cons, List.forall_mem_flatMap]
  exact ⟨⟨⟨⟨⟨h.name, hArguments, List.forall_mem_nil _⟩, usable_injections h⟩,
    hDummy, h.name, hArg, List.forall_mem_nil _⟩, usable_phaseMethods⟩, usable_classMembers h⟩

theorem usable_sourceOutline (h : c.Named Usable) :
    ∀ n ∈ (sourceOutline c).identifiers, Usable n := by
  rw [identifiers_sourceOutline, List.forall_mem_append, List.forall_mem_flatMap]
  refine ⟨?_, usable_phaseMethods⟩
  intro f hf
  rw [List.forall_mem_cons]
  exact ⟨h.operations f hf, usable_parameters h
    (List.mem_append_right _ (List.mem_map_of_mem (f := Operation.signature) hf))⟩

/-- The header introduces what the class declares and the fields of the constructor's argument. -/
theorem mem_identifiers_headerOutline (style : Style) {n : String}
    (hn : n ∈ classScope c ++ (injections c).map Injected.field) :
    n ∈ (headerOutline style c).identifiers := by
  have hFirst : ∀ d : Declaration, d.name ∈ d.identifiers := fun d => List.mem_cons_self
  rw [identifiers_headerOutline]
  simp only [List.mem_append]
  rcases List.mem_append.mp hn with hScope | hField
  · rw [classScope, List.mem_cons, scopeDeclarations, List.map_append, List.mem_append,
      List.map_map] at hScope
    rcases hScope with rfl | hPhase | hMember
    · exact Or.inl (Or.inl (Or.inl (Or.inl (by simp))))
    · exact Or.inl (Or.inr hPhase)
    · obtain ⟨m, hm, rfl⟩ := List.mem_map.mp hMember
      exact Or.inr (List.mem_flatMap.mpr ⟨m, hm, hFirst m.declaration⟩)
  · obtain ⟨i, hi, rfl⟩ := List.mem_map.mp hField
    have hName : i.argument.name = i.field := Handle.name_declare i.handle i.field
    refine Or.inl (Or.inl (Or.inl (Or.inr (List.mem_flatMap.mpr ⟨i, hi, ?_⟩))))
    rw [← hName]
    exact hFirst i.argument

/-- What the check of a design looks at is each name that it is given, and the name of each
header. -/
theorem checkKeywords_eq_ok_iff_named {d : Design} :
    checkKeywords d = .ok () ↔
      (∀ b ∈ d.bundles, b.Named (· ∉ keywords)) ∧
        ∀ c ∈ d.combines, c.Named (· ∉ keywords) ∧
          c.name ++ ".h" ∉ ["bundle.h", "global.h", "common.h", "vulsimlib.h"] := by
  have hKeyword : ∀ n, isKeyword n = false ↔ n ∉ keywords := by
    intro n
    rw [isKeyword, List.contains_eq_mem, decide_eq_false_iff_not]
  have hBundle : ∀ b, bundleOffender? b = none ↔ b.Named (· ∉ keywords) := by
    intro b
    rw [bundleOffender?, Bundle.named_iff, List.find?_eq_none]
    simp only [Bool.not_eq_true, hKeyword]
  have hHeader : ∀ c, shadowsHeader c = false ↔
      c.name ++ ".h" ∉ ["bundle.h", "global.h", "common.h", "vulsimlib.h"] := by
    intro c
    rw [shadowsHeader, List.contains_eq_mem, decide_eq_false_iff_not]
    simp only [commonHeaders, combineHeaders, List.cons_append, List.nil_append, List.mem_cons,
      List.not_mem_nil, or_false, not_or]
    tauto
  have hCombine : ∀ c, combineOffender? c = none ↔ c.Named (· ∉ keywords) ∧
      c.name ++ ".h" ∉ ["bundle.h", "global.h", "common.h", "vulsimlib.h"] := by
    intro c
    rw [combineOffender?_eq_none_iff, Combine.named_iff, hHeader, List.forall_mem_cons]
    simp only [hKeyword]
    tauto
  simp only [checkKeywords_eq_ok_iff, hBundle, hCombine]

end Cpp

/-- The project consists of descriptors that are read from documents. -/
structure Project.Parsed (p : Project) : Prop where
  bundles : ∀ b ∈ p.bundles,
    ∃ document source, (Descriptor.Bundle.parse document source).outcome = .ok b
  combines : ∀ d ∈ p.combines,
    ∃ document source, (Descriptor.Combine.parse document source).outcome = .ok d

theorem Project.parsed_of_valid {p : Project} (hBundles : ∀ b ∈ p.bundles, b.Valid)
    (hCombines : ∀ d ∈ p.combines, d.Valid) : p.Parsed := by
  constructor
  · intro b hb
    have hValid := hBundles b hb
    exact ⟨b.write, b.source, Descriptor.Bundle.parse_eq_ok_iff.mpr ⟨b.toElement,
      Markup.parse_render hValid.writable, rfl, Descriptor.Bundle.ofElement_toElement hValid⟩⟩
  · intro d hd
    have hValid := hCombines d hd
    exact ⟨d.write, d.source, Descriptor.Combine.parse_eq_ok_iff.mpr ⟨d.toElement,
      Markup.parse_render hValid.writable, rfl, Descriptor.Combine.ofElement_toElement hValid⟩⟩

namespace Design

variable {sources : Sources} {p : Project} {design : Design}

theorem named_of_parsed (hParsed : p.Parsed) (h : (elaborate sources p).outcome = .ok design) :
    (∀ b ∈ design.bundles, b.Named (Ident.isValid · = true)) ∧
      ∀ c ∈ design.combines, c.Named (Ident.isValid · = true) := by
  obtain ⟨hBundles, -, hCombines⟩ := elaborate_eq_ok_iff.mp h
  constructor
  · rw [(bundlesOf_eq_ok_iff.mp hBundles).2.2, List.forall_mem_map]
    intro b hb
    obtain ⟨document, source, hParse⟩ := hParsed.bundles b hb
    have hNames : (Bundle.described b).name :: (Bundle.described b).members.map Bundle.Member.name =
        b.name :: b.members.map Descriptor.Member.name := by
      simp [Bundle.described, Bundle.memberOf, Function.comp_def]
    rw [Bundle.named_iff, hNames]
    exact Descriptor.Bundle.isValid_names_of_parse hParse
  · intro c hc
    obtain ⟨d, hd, hBuilt⟩ := exists_descriptor_of_mem_combinesOf hCombines hc
    obtain ⟨document, source, hParse⟩ := hParsed.combines d hd
    have hMembers := Combine.hasMembers_of_ofDescriptor hBuilt
    rw [Combine.named_iff, hMembers.ownNames, hMembers.paramNames,
      Combine.name_of_ofDescriptor hBuilt]
    exact Descriptor.Combine.isValid_names_of_parse hParse

/-- For what is elaborated from documents, code is generated exactly if no name that is given to a
bundle, a combine, a member or a parameter is a keyword, and no combine takes the name of a
shared header. Then the files consist of pieces whose identifiers are all valid and not keywords.
They include all that classes declare, among it the accessors and handles, and all fields of what
constructors take. Each is introduced by a line of its piece. -/
theorem generated_identifiers (hParsed : p.Parsed)
    (h : (elaborate sources p).outcome = .ok design) (style : Cpp.Style) :
    ((∃ files, (Cpp.generate style design).outcome = .ok files) ↔
      (∀ b ∈ design.bundles, b.Named (· ∉ Cpp.keywords)) ∧
        ∀ c ∈ design.combines, c.Named (· ∉ Cpp.keywords) ∧
          c.name ++ ".h" ∉ ["bundle.h", "global.h", "common.h", "vulsimlib.h"]) ∧
    ∀ files, (Cpp.generate style design).outcome = .ok files →
      files = (Cpp.outlines style design).map (Cpp.Outline.file style.indent) ∧
      (∀ o ∈ Cpp.outlines style design, ∀ n ∈ o.identifiers,
        Ident.isValid n = true ∧ n ∉ Cpp.keywords) ∧
      (∀ c ∈ design.combines, ∀ n ∈ Cpp.classScope c ++ c.derivedNames.map Prod.fst ++
        (Cpp.injections c).map Cpp.Injected.field, n ∈ (Cpp.headerOutline style c).identifiers) ∧
      ∀ o ∈ Cpp.outlines style design, ∀ piece ∈ o.pieces, ∀ n ∈ piece.identifiers,
        ∃ line ∈ piece.lines, Cpp.Introduces n line.text := by
  obtain ⟨hBundles, hCombines⟩ := named_of_parsed hParsed h
  constructor
  · rw [← Cpp.checkKeywords_eq_ok_iff_named]
    constructor
    · rintro ⟨files, hFiles⟩
      exact (Cpp.generate_eq_ok_iff.mp hFiles).1
    · intro hCheck
      exact ⟨_, Cpp.generate_eq_ok_iff.mpr ⟨hCheck, rfl⟩⟩
  · intro files hFiles
    obtain ⟨hCheck, rfl⟩ := Cpp.generate_eq_ok_iff.mp hFiles
    obtain ⟨hFreeBundles, hFreeCombines⟩ := Cpp.checkKeywords_eq_ok_iff_named.mp hCheck
    have hUsableBundles : ∀ b ∈ design.bundles, b.Named Cpp.Usable := fun b hb =>
      Bundle.named_iff.mpr fun n hn => ⟨Bundle.named_iff.mp (hBundles b hb) n hn,
        Bundle.named_iff.mp (hFreeBundles b hb) n hn⟩
    have hUsable : ∀ c ∈ design.combines, c.Named Cpp.Usable := fun c hc =>
      Combine.named_iff.mpr fun n hn => ⟨Combine.named_iff.mp (hCombines c hc) n hn,
        Combine.named_iff.mp (hFreeCombines c hc).1 n hn⟩
    have hIdentifiers : ∀ o ∈ Cpp.outlines style design, ∀ n ∈ o.identifiers, Cpp.Usable n := by
      simp only [Cpp.outlines, List.forall_mem_cons, List.forall_mem_flatMap]
      refine ⟨Cpp.usable_bundlesOutline style hUsableBundles, ?_⟩
      intro c hc
      exact ⟨Cpp.usable_headerOutline style (hUsable c hc), Cpp.usable_sourceOutline (hUsable c hc),
        List.forall_mem_nil _⟩
    refine ⟨Cpp.files_eq style design, ?_, ?_,
      fun o ho piece hPiece n hn => Cpp.Piece.exists_introduces hn⟩
    · intro o ho n hn
      exact ⟨(hIdentifiers o ho n hn).valid, (hIdentifiers o ho n hn).not_keyword⟩
    · intro c hc n hn
      rw [List.mem_append, List.mem_append] at hn
      refine Cpp.mem_identifiers_headerOutline style (List.mem_append.mpr ?_)
      rcases hn with (hScope | hDerived) | hField
      · exact Or.inl hScope
      · rw [Cpp.classScope_eq]
        exact Or.inl (List.mem_append_right _ (Cpp.mem_declaredNames c hDerived))
      · exact Or.inr hField

/-- A bundle, and a combine for whose members there are generated names of most kinds. -/
def routerProject : Project where
  cppDir := "cpp"
  bundles := [⟨"Packet", [⟨"bits", "uint8", none⟩], "packet.xml"⟩]
  combines := [
    { name := "Router", comment := none, source := "router.xml"
      pipeIn := [⟨"packets", "Packet", none⟩], pipeOut := []
      requests := [⟨"send", none, [⟨"port", "uint8", none⟩], [], none⟩], services := []
      functions := [], storage := [], storageNext := [⟨"credit", "uint8", none, none⟩]
      storageTick := [], configs := [], init := [], tick := [], applyTick := []
      stallable := false }]

theorem routerProject_identifiers :
    routerProject.Parsed ∧
    ∃ design, (elaborate Descriptor.blankSources routerProject).outcome = .ok design ∧
      (∃ files, (Cpp.generate {} design).outcome = .ok files) ∧
      (∀ o ∈ Cpp.outlines {} design, ∀ n ∈ o.identifiers,
        Ident.isValid n = true ∧ n ∉ Cpp.keywords) ∧
      ∀ n ∈ ["Packet", "bits", "Router", "ConstructorArguments", "pipein_packets", "packets_pop",
        "_request_send", "send", "port", "_storagenext_credit", "credit_setnext"],
          ∃ o ∈ Cpp.outlines {} design, n ∈ o.identifiers := by
  have hParsed : routerProject.Parsed :=
    Project.parsed_of_valid (by decide +kernel) (by decide +kernel)
  obtain ⟨design, hDesign, hKeywords, hNames⟩ : ∃ design,
      (elaborate Descriptor.blankSources routerProject).outcome = .ok design ∧
      Cpp.checkKeywords design = .ok () ∧
      ∀ n ∈ ["Packet", "bits", "Router", "ConstructorArguments", "pipein_packets", "packets_pop",
        "_request_send", "send", "port", "_storagenext_credit", "credit_setnext"],
          ∃ o ∈ Cpp.outlines {} design, n ∈ o.identifiers :=
    ⟨_, rfl, by decide +kernel, by decide +kernel⟩
  have hFiles : (Cpp.generate {} design).outcome = .ok (Cpp.files {} design) :=
    Cpp.generate_eq_ok_iff.mpr ⟨hKeywords, rfl⟩
  obtain ⟨-, hAll⟩ := generated_identifiers hParsed hDesign {}
  exact ⟨hParsed, design, hDesign, ⟨_, hFiles⟩, (hAll _ hFiles).2.1, hNames⟩

end Design

end Simgen
