import Simgen.Proofs.Cpp.Injection

/-! The two files of a class. What the header leaves undefined is defined in the source, each
method once and with the same parameters, and nothing else is. The commit phase, which is one
of these methods, acts on the registers that the header declares and on no other member. -/
namespace Simgen.Cpp

/-- The name and the parameters of a method that is declared without a body. -/
def Declaration.prototype? : Declaration → Option (String × List Parameter)
  | prototype name ps => some (name, ps)
  | _ => none

/-- A method as it is defined in a source. -/
structure DefinitionText where
  name : String
  parameters : String
  body : List String
  deriving DecidableEq

def DefinitionText.lines (className : String) (m : DefinitionText) : List String :=
  ["void " ++ className ++ "::" ++ m.name ++ "(" ++ m.parameters ++ ") \x7b"] ++ m.body ++ ["\x7d"]

/-- How a method is declared that is defined elsewhere. -/
def DefinitionText.prototype (m : DefinitionText) : String :=
  "void " ++ m.name ++ "(" ++ m.parameters ++ ");"

/-- The lines define these methods of the class, one after another. Apart from the definitions
there are directives and blank lines only. -/
inductive Defines (className : String) : List String → List DefinitionText → Prop where
  | nil : Defines className [] []
  | blank {lines : List String} {methods : List DefinitionText}
      (rest : Defines className lines methods) : Defines className ("" :: lines) methods
  | directive {lines : List String} {methods : List DefinitionText} (text : String)
      (rest : Defines className lines methods) : Defines className (("#" ++ text) :: lines) methods
  | method {lines : List String} {methods : List DefinitionText} (m : DefinitionText)
      (rest : Defines className lines methods) :
      Defines className (m.lines className ++ lines) (m :: methods)

/-- The line declares the name and leaves nothing to be defined: it declares a variable, or a method
together with its body. -/
inductive SelfContained (name : String) : String → Prop where
  | field (type : String) : SelfContained name (type ++ " " ++ name ++ ";")
  | initialized (type value : String) :
      SelfContained name (type ++ " " ++ name ++ " = " ++ value ++ ";")
  | pointer (parameters : String) :
      SelfContained name ("void (*" ++ name ++ ")(" ++ parameters ++ ");")
  | method (type parameters body ending : String) :
      SelfContained name
        (type ++ " " ++ name ++ "(" ++ parameters ++ ") \x7b " ++ body ++ " \x7d" ++ ending)

/-- The statement of a commit step. -/
def commitLine : CommitStep → String
  | .applyNext name => "_storagenext_" ++ name ++ ".apply_tick();"
  | .resetTick name default => name ++ " = " ++ default ++ ";"
  | .clearStall => "stalled = false;"

/-- The member that a commit step acts on. -/
def committed : CommitStep → String
  | .applyNext name => "_storagenext_" ++ name
  | .resetTick name _ => name
  | .clearStall => "stalled"

/-- The definitions of services and helpers. -/
def operationTexts (c : Combine) : List DefinitionText :=
  c.operations.map fun f =>
    { name := f.name, parameters := signatureText f.signature, body := f.body }

/-- The definitions of the lifecycle methods. -/
def lifecycleTexts (unit : String) (c : Combine) : List DefinitionText :=
  [{ name := "all_current_tick", parameters := "", body := [unit ++ "user_current_tick();"] },
    { name := "all_current_applytick", parameters := ""
      body := (c.commitPlan.map fun step => unit ++ commitLine step) ++
        [unit ++ "user_current_applytick();"] },
    { name := "user_current_tick", parameters := "", body := c.tick.map (unit ++ ·) },
    { name := "user_current_applytick", parameters := "", body := c.applyTick.map (unit ++ ·) }]

/-- The methods that a source defines, in their order. -/
def definitionTexts (unit : String) (c : Combine) : List DefinitionText :=
  operationTexts c ++ lifecycleTexts unit c

/-- The name and the declaration of the register behind a storage field. A plain field has none. -/
def register? : Storage → Option (String × String)
  | .plain .. => none
  | .next name type none _ =>
    some ("_storagenext_" ++ name, "StorageNext<" ++ type.text ++ "> _storagenext_" ++ name ++ ";")
  | .next name type (some value) _ =>
    some ("_storagenext_" ++ name,
      "StorageNext<" ++ type.text ++ "> _storagenext_" ++ name ++
        " = StorageNext<" ++ type.text ++ ">(" ++ value ++ ");")
  | .tick name type default _ => some (name, type.name ++ " " ++ name ++ " = " ++ default ++ ";")

/-- The registers by name and declaration. -/
def registers (c : Combine) : List (String × String) := c.storage.filterMap register?

/-- The stall flag, where there is one. -/
def stallFlag (c : Combine) : List (String × String) :=
  if c.stallable then [("stalled", "bool stalled = false;")] else []

variable {c : Combine}

section header

theorem mem_prototypes_iff {declarations : List Declaration} {name : String}
    {ps : List Parameter} :
    (name, ps) ∈ declarations.filterMap Declaration.prototype? ↔
      .prototype name ps ∈ declarations := by
  rw [List.mem_filterMap]
  constructor
  · intro h
    obtain ⟨d, hd, hPrototype⟩ := h
    cases d with
    | prototype other qs =>
        cases hPrototype
        exact hd
    | field type other initial => cases hPrototype
    | callback other qs => cases hPrototype
    | method type other qs body ending => cases hPrototype
  · intro h
    exact ⟨_, h, rfl⟩

/-- The methods that a part declares without a body. -/
def Part.prototypes (q : Part) : List (String × List Parameter) :=
  (q.members.map Member.declaration).filterMap Declaration.prototype?

theorem storagePart_prototypes (s : Storage) : (storagePart s).prototypes = [] := by
  cases s <;> rfl

/-- Besides the lifecycle methods, only operations are declared without a body. -/
theorem prototypes_eq (c : Combine) :
    (scopeDeclarations c).filterMap Declaration.prototype? =
      (phaseMethods.map fun name => (name, [])) ++
        c.operations.map fun f => (f.name, parameters f.signature) := by
  have hMembers : ((classMembers c).map Member.declaration).filterMap Declaration.prototype? =
      (parts c).flatMap Part.prototypes := by
    rw [classMembers, List.map_flatMap, List.filterMap_flatMap]
    rfl
  have hInputs : c.inputs.flatMap (fun p => (inputPart p).prototypes) = [] :=
    List.flatMap_eq_nil_iff.mpr fun _ _ => rfl
  have hOutputs : c.outputs.flatMap (fun p => (outputPart p).prototypes) = [] :=
    List.flatMap_eq_nil_iff.mpr fun _ _ => rfl
  have hRequests : c.requests.flatMap (fun r => (requestPart r).prototypes) = [] :=
    List.flatMap_eq_nil_iff.mpr fun _ _ => rfl
  have hStorage : c.storage.flatMap (fun s => (storagePart s).prototypes) = [] :=
    List.flatMap_eq_nil_iff.mpr fun s _ => storagePart_prototypes s
  have hConfigs : c.configs.flatMap (fun t => (configPart t).prototypes) = [] :=
    List.flatMap_eq_nil_iff.mpr fun _ _ => rfl
  have hStall : (if c.stallable then stallPart.prototypes else []) = [] := by
    split_ifs <;> rfl
  rw [scopeDeclarations, List.filterMap_append, hMembers, flatMap_parts, hInputs, hOutputs,
    hRequests, hStorage, hConfigs, hStall, List.append_nil, List.append_nil, List.append_nil,
    List.nil_append, List.map_eq_flatMap (l := c.operations)]
  rfl

theorem prototype_mem_scope_iff {name : String} {ps : List Parameter} :
    .prototype name ps ∈ scopeDeclarations c ↔ (name ∈ phaseMethods ∧ ps = []) ∨
      ∃ f ∈ c.operations, name = f.name ∧ ps = parameters f.signature := by
  rw [← mem_prototypes_iff, prototypes_eq, List.mem_append, List.mem_map, List.mem_map]
  constructor
  · intro hIn
    rcases hIn with ⟨phase, hPhase, hEq⟩ | ⟨f, hf, hEq⟩
    · cases hEq
      exact Or.inl ⟨hPhase, rfl⟩
    · cases hEq
      exact Or.inr ⟨f, hf, rfl, rfl⟩
  · intro hIn
    rcases hIn with ⟨hPhase, rfl⟩ | ⟨f, hf, rfl, rfl⟩
    · exact Or.inl ⟨name, hPhase, rfl⟩
    · exact Or.inr ⟨f, hf, rfl⟩

theorem eq_prototype_or_selfContained (d : Declaration) :
    (∃ name ps, d = .prototype name ps) ∨ SelfContained d.name d.text := by
  cases d with
  | field type name initial =>
      cases initial with
      | none => exact Or.inr (.field type)
      | some value => exact Or.inr (.initialized type value)
  | callback name ps => exact Or.inr (.pointer (parameterList ps))
  | method type name ps body ending =>
      exact Or.inr (.method type (parameterList ps) (" ".intercalate (body.map Statement.text))
        ending)
  | prototype name ps => exact Or.inl ⟨name, ps, rfl⟩

theorem exists_prototype_of_mem {unit : String} {m : DefinitionText}
    (hm : m ∈ definitionTexts unit c) :
    ∃ d ∈ scopeDeclarations c, d.name = m.name ∧ d.text = m.prototype := by
  have hPhase : ∀ name ∈ phaseMethods, Declaration.prototype name [] ∈ scopeDeclarations c :=
    fun name hName => prototype_mem_scope_iff.mpr (Or.inl ⟨hName, rfl⟩)
  rcases List.mem_append.mp hm with hOperation | hLifecycle
  · obtain ⟨f, hf, rfl⟩ := List.mem_map.mp hOperation
    refine ⟨_, prototype_mem_scope_iff.mpr (Or.inr ⟨f, hf, rfl, rfl⟩), rfl, ?_⟩
    rw [Declaration.text, parameterList_parameters]
    rfl
  · simp only [lifecycleTexts, List.mem_cons, List.not_mem_nil, or_false] at hLifecycle
    rcases hLifecycle with rfl | rfl | rfl | rfl
    · exact ⟨_, hPhase "all_current_tick" (by decide), rfl, rfl⟩
    · exact ⟨_, hPhase "all_current_applytick" (by decide), rfl, rfl⟩
    · exact ⟨_, hPhase "user_current_tick" (by decide), rfl, rfl⟩
    · exact ⟨_, hPhase "user_current_applytick" (by decide), rfl, rfl⟩

/-- What is declared without a body is one of the methods of the source. -/
theorem exists_definition_of_prototype (unit : String) {name : String} {ps : List Parameter}
    (h : .prototype name ps ∈ scopeDeclarations c) :
    ∃ m ∈ definitionTexts unit c, name = m.name ∧ (Declaration.prototype name ps).text =
      m.prototype := by
  rcases prototype_mem_scope_iff.mp h with ⟨hPhase, rfl⟩ | ⟨f, hf, rfl, rfl⟩
  · have hNames : phaseMethods = (lifecycleTexts unit c).map DefinitionText.name := rfl
    have hPlain : ∀ m ∈ lifecycleTexts unit c, m.parameters = "" := by simp [lifecycleTexts]
    rw [hNames, List.mem_map] at hPhase
    obtain ⟨m, hm, rfl⟩ := hPhase
    refine ⟨m, List.mem_append_right _ hm, rfl, ?_⟩
    rw [DefinitionText.prototype, hPlain m hm]
    rfl
  · refine ⟨_, List.mem_append_left _ (List.mem_map_of_mem hf), rfl, ?_⟩
    rw [Declaration.text, parameterList_parameters]
    rfl

end header

section source

variable {style : Style}

theorem laidOut_definition (className : String) {m : MethodDefinition} {text : DefinitionText}
    (hName : m.name = text.name) (hParameters : parameterList m.parameters = text.parameters)
    (hBody : m.body.map (Line.laidOut style) = text.body) :
    (m.lines className).map (Line.laidOut style) = text.lines className := by
  simp only [MethodDefinition.lines, DefinitionText.lines, List.map_append, List.map_cons,
    List.map_nil, laidOut_flush, hName, hParameters, hBody]

theorem laidOut_operations :
    ((operationDefinitions c).flatMap fun m => m.lines c.name ++ [flush ""]).map
        (Line.laidOut style) =
      (operationTexts c).flatMap fun m => m.lines c.name ++ [""] := by
  rw [operationDefinitions, operationTexts, List.flatMap_map, List.flatMap_map, List.map_flatMap]
  congr 1
  funext f
  rw [List.map_append]
  refine congrArg₂ (· ++ ·)
    (laidOut_definition _ rfl (parameterList_parameters f.signature) ?_) (by simp)
  simp [Function.comp_def]

theorem commitLine_eq (step : CommitStep) : (commitStatement step).text = commitLine step := by
  cases step with
  | applyNext name =>
      have hEnd : ".apply_tick();" = "." ++ "apply_tick" ++ "(" ++ "" ++ ");" := rfl
      simp only [commitStatement, Statement.text, Callee.text, registerName, commitLine, hEnd,
        String.append_assoc]
      rfl
  | resetTick name default => rfl
  | clearStall => rfl

theorem laidOut_lifecycle :
    ((lifecycleDefinitions c).flatMap (·.lines c.name)).map (Line.laidOut style) =
      (lifecycleTexts style.unit c).flatMap (·.lines c.name) := by
  have hIndented : ∀ code : Code,
      (code.map indented).map (Line.laidOut style) = code.map (style.unit ++ ·) := by
    intro code
    rw [List.map_map]
    exact List.map_congr_left fun text _ => laidOut_indented text
  have hTick : (Statement.call (.plain "user_current_tick") []).text = "user_current_tick();" := rfl
  have hApply : (Statement.call (.plain "user_current_applytick") []).text =
      "user_current_applytick();" := rfl
  simp only [lifecycleDefinitions, lifecycleTexts, hTick, hApply, commitLine_eq, List.flatMap_cons,
    List.flatMap_nil, List.map_append, List.append_nil]
  refine congrArg₂ (· ++ ·) (laidOut_definition _ rfl rfl (by simp)) ?_
  refine congrArg₂ (· ++ ·) (laidOut_definition _ rfl rfl (by simp [Function.comp_def])) ?_
  exact congrArg₂ (· ++ ·) (laidOut_definition _ rfl rfl (hIndented _))
    (laidOut_definition _ rfl rfl (hIndented _))

/-- The lines of a source. -/
theorem laidOut_classSource :
    (classSource c).map (Line.laidOut style) =
      ["#include \"" ++ (c.name ++ ".h") ++ "\"", ""] ++
        ((operationTexts c).flatMap fun m => m.lines c.name ++ [""]) ++
        (lifecycleTexts style.unit c).flatMap (·.lines c.name) := by
  simp only [classSource, includeLine, List.map_append, List.map_cons, List.map_nil, laidOut_flush,
    laidOut_operations, laidOut_lifecycle]

theorem Defines.flatMap {className : String} {lines : List String}
    {methods : List DefinitionText} (rest : Defines className lines methods)
    {block : DefinitionText → List String}
    (hBlock : ∀ m lines methods, Defines className lines methods →
      Defines className (block m ++ lines) (m :: methods)) (ms : List DefinitionText) :
    Defines className (ms.flatMap block ++ lines) (ms ++ methods) := by
  induction ms with
  | nil => exact rest
  | cons m ms ih =>
      rw [List.flatMap_cons, List.append_assoc]
      exact hBlock m _ _ ih

theorem defines_classSource (style : Style) (c : Combine) :
    Defines c.name ((classSource c).map (Line.laidOut style)) (definitionTexts style.unit c) := by
  have hInclude : "#include \"" ++ (c.name ++ ".h") ++ "\"" =
      "#" ++ ("include \"" ++ (c.name ++ ".h") ++ "\"") := by
    rw [← String.append_assoc, ← String.append_assoc]
    rfl
  have hLifecycle : Defines c.name ((lifecycleTexts style.unit c).flatMap (·.lines c.name))
      (lifecycleTexts style.unit c) := by
    have hAll := (@Defines.nil c.name).flatMap
      (fun m _ _ rest => rest.method m) (lifecycleTexts style.unit c)
    rwa [List.append_nil, List.append_nil] at hAll
  have hSpaced : ∀ (m : DefinitionText) (lines : List String) (methods : List DefinitionText),
      Defines c.name lines methods →
        Defines c.name ((m.lines c.name ++ [""]) ++ lines) (m :: methods) := by
    intro m lines methods rest
    rw [List.append_assoc]
    exact rest.blank.method m
  have hAll := hLifecycle.flatMap hSpaced (operationTexts c)
  rw [laidOut_classSource, hInclude, List.append_assoc, List.cons_append, List.cons_append,
    List.nil_append]
  exact .directive _ (.blank hAll)

theorem nodup_definitionTexts (h : c.checkNames = .ok ()) (unit : String) :
    ((definitionTexts unit c).map DefinitionText.name).Nodup := by
  have hNames : (definitionTexts unit c).map DefinitionText.name =
      c.operations.map Operation.name ++ phaseMethods := by
    simp [definitionTexts, operationTexts, lifecycleTexts, phaseMethods, Function.comp_def]
  have hOwn : (c.operations.map Operation.name).Sublist c.ownNames :=
    (List.sublist_append_right _ _).trans
      ((List.sublist_append_left _ _).trans (List.sublist_append_left _ _))
  have hOperations : (c.operations.map Operation.name).Sublist (c.memberNames ++ stallNames c) :=
    hOwn.trans ((List.sublist_append_left _ _).trans (List.sublist_append_left _ _))
  have hPhases : phaseMethods.Sublist ("ConstructorArguments" :: phaseMethods) :=
    List.sublist_cons_self _ _
  rw [hNames]
  exact List.perm_append_comm.nodup_iff.mp ((hPhases.append hOperations).nodup (nodup_checked h))

end source

section commit

theorem mem_scope_of_mem_part {q : Part} (hq : q ∈ parts c) {m : Member} (hm : m ∈ q.members) :
    m.declaration ∈ scopeDeclarations c := by
  apply List.mem_append_right
  exact List.mem_map_of_mem (List.mem_flatMap.mpr ⟨q, hq, hm⟩)

theorem exists_member_of_register? {s : Storage} {r : String × String} (h : register? s = some r) :
    ∃ m ∈ storageMembers s, (m.declaration.name, m.declaration.text) = r := by
  cases s with
  | plain name type default comment => cases h
  | next name type default comment =>
      have hSpace : "> _storagenext_" = ">" ++ " " ++ "_storagenext_" := rfl
      have hEqual : " = StorageNext<" = " = " ++ "StorageNext<" := rfl
      have hOpen : ">(" = ">" ++ "(" := rfl
      have hClose : ");" = ")" ++ ";" := rfl
      refine ⟨_, List.mem_cons_self, ?_⟩
      cases default with
      | none =>
          cases h
          simp only [bare, Declaration.name, Declaration.text, registerName, Option.map_none,
            hSpace, String.append_assoc]
      | some value =>
          cases h
          simp only [bare, Declaration.name, Declaration.text, registerName, Option.map_some,
            hSpace, hEqual, hOpen, hClose, String.append_assoc]
  | tick name type default comment =>
      cases h
      exact ⟨_, List.mem_cons_self, rfl⟩

/-- What is committed is declared in the class. -/
theorem exists_mem_scope_of_committed {r : String × String} (h : r ∈ registers c ++ stallFlag c) :
    ∃ d ∈ scopeDeclarations c, (d.name, d.text) = r := by
  rcases List.mem_append.mp h with hRegister | hStall
  · obtain ⟨s, hs, hRegister⟩ := List.mem_filterMap.mp hRegister
    obtain ⟨m, hm, hText⟩ := exists_member_of_register? hRegister
    have hPart : storagePart s ∈ parts c := by
      simp only [parts, List.mem_append]
      exact Or.inl (Or.inl (Or.inr (List.mem_map_of_mem hs)))
    exact ⟨_, mem_scope_of_mem_part hPart hm, hText⟩
  · unfold stallFlag at hStall
    split_ifs at hStall with hStallable
    · cases List.mem_singleton.mp hStall
      have hPart : stallPart ∈ parts c := by
        rw [parts, if_pos hStallable]
        exact List.mem_append_right _ List.mem_cons_self
      exact ⟨_, mem_scope_of_mem_part hPart List.mem_cons_self, rfl⟩
    · cases hStall

theorem committed_perm (c : Combine) :
    (c.commitPlan.map committed).Perm ((registers c ++ stallFlag c).map Prod.fst) := by
  have hStall : (if c.stallable then [CommitStep.clearStall] else []).map committed =
      (stallFlag c).map Prod.fst := by
    unfold stallFlag
    split_ifs <;> rfl
  rw [Combine.commitPlan, List.map_append, List.map_append, hStall, List.map_append]
  apply List.Perm.append_right
  -- The plan takes the two kinds of registers one after the other, the class mixes them.
  rw [registers, List.map_filterMap, List.map_filterMap, List.map_filterMap,
    List.filterMap_eq_flatMap_toList, List.filterMap_eq_flatMap_toList,
    List.filterMap_eq_flatMap_toList]
  apply (List.flatMap_append_perm c.storage _ _).trans
  apply List.Perm.of_eq
  apply List.flatMap_congr
  intro s _
  cases s with
  | plain name type default comment => rfl
  | next name type default comment => cases default <;> rfl
  | tick name type default comment => rfl

/-- In a class whose names were checked, a member is committed exactly if the plan acts on
something of its name. -/
theorem mem_committed_iff (h : c.checkNames = .ok ()) {d : Declaration}
    (hd : d ∈ scopeDeclarations c) :
    d.name ∈ c.commitPlan.map committed ↔ (d.name, d.text) ∈ registers c ++ stallFlag c := by
  rw [(committed_perm c).mem_iff, List.mem_map]
  constructor
  · intro hName
    obtain ⟨r, hr, hEq⟩ := hName
    obtain ⟨e, he, rfl⟩ := exists_mem_scope_of_committed hr
    rwa [eq_of_name_eq h hd he hEq.symm]
  · intro hIn
    exact ⟨_, hIn, rfl⟩

end commit

/-- The header and the source of a class whose names were checked agree. The source consists of
definitions of methods of the class, the operations and the lifecycle methods. Each of them is
defined once, and it is declared once in the header, with the same parameters; whatever else the
header declares needs no definition. The commit phase takes one statement for each step of the
plan, in the order of the plan, and calls the code of the combine behind them. The statements act
on each register and on the stall flag once, as the header declares them, and on no other
member. -/
theorem header_and_source_agree (h : c.checkNames = .ok ()) (style : Style) :
    render style.indent (classHeader style c) = unlines (headerText style c) ∧
    HoldsLines (render style.indent (classHeader style c))
      ((scopeDeclarations c).map fun d => style.unit ++ d.text) ∧
    (∃ lines, render style.indent (classSource c) = unlines lines ∧
      Defines c.name lines (definitionTexts style.unit c)) ∧
    ((definitionTexts style.unit c).map DefinitionText.name).Nodup ∧
    (∀ m ∈ definitionTexts style.unit c, DeclaredOnce c m.name
      ("void " ++ m.name ++ "(" ++ m.parameters ++ ");")) ∧
    (∀ d ∈ scopeDeclarations c, SelfContained d.name d.text ∨
      ∃ m ∈ definitionTexts style.unit c, d.name = m.name ∧
        d.text = "void " ++ m.name ++ "(" ++ m.parameters ++ ");") ∧
    { name := "all_current_applytick", parameters := ""
      body := (c.commitPlan.map fun step => style.unit ++ commitLine step) ++
        [style.unit ++ "user_current_applytick();"] } ∈ definitionTexts style.unit c ∧
    (∀ r ∈ registers c ++ stallFlag c, DeclaredOnce c r.1 r.2) ∧
    (c.commitPlan.map committed).Perm ((registers c ++ stallFlag c).map Prod.fst) ∧
    ∀ d ∈ scopeDeclarations c,
      d.name ∈ c.commitPlan.map committed ↔ (d.name, d.text) ∈ registers c ++ stallFlag c := by
  refine ⟨render_eq_headerText, holdsLines_scopeDeclarations style c,
    ⟨_, render_eq_unlines _, defines_classSource style c⟩, nodup_definitionTexts h _, ?_, ?_,
    List.mem_append_right _ (List.mem_cons_of_mem _ List.mem_cons_self), ?_, committed_perm c,
    fun d hd => mem_committed_iff h hd⟩
  · intro m hm
    obtain ⟨d, hd, hName, hText⟩ := exists_prototype_of_mem hm
    have hOnce := declaredOnce_of_mem h hd
    rwa [hName, hText] at hOnce
  · intro d hd
    rcases eq_prototype_or_selfContained d with ⟨name, ps, rfl⟩ | hContained
    · exact Or.inr (exists_definition_of_prototype style.unit hd)
    · exact Or.inl hContained
  · intro r hr
    obtain ⟨d, hd, rfl⟩ := exists_mem_scope_of_committed hr
    exact declaredOnce_of_mem h hd

theorem issueQueue_agrees :
    issueQueue.checkNames = .ok () ∧
      DeclaredOnce issueQueue "flush" "void flush(MicroOp & victim, uint8 * count);" ∧
      { name := "all_current_applytick", parameters := ""
        body :=
          ["    _storagenext_oldest.apply_tick();", "    picked = 0;", "    stalled = false;",
            "    user_current_applytick();"] } ∈ definitionTexts "    " issueQueue ∧
      DeclaredOnce issueQueue "_storagenext_oldest"
        "StorageNext<uint8> _storagenext_oldest = StorageNext<uint8>(7);" ∧
      "depth" ∉ issueQueue.commitPlan.map committed := by
  have hChecked : issueQueue.checkNames = .ok () := by rfl
  obtain ⟨-, -, -, -, hDeclared, -, hCommit, hRegisters, -, hCommitted⟩ :=
    header_and_source_agree hChecked {}
  have hFlush : { name := "flush", parameters := "MicroOp & victim, uint8 * count"
                  body := ["*count = depth;", "depth = 0;"] } ∈
      definitionTexts "    " issueQueue := by decide
  have hPlain : ("depth", "uint8 depth = 0;") ∉
      registers issueQueue ++ stallFlag issueQueue := by decide
  have hOldest : ("_storagenext_oldest",
      "StorageNext<uint8> _storagenext_oldest = StorageNext<uint8>(7);") ∈
      registers issueQueue ++ stallFlag issueQueue := by decide
  refine ⟨hChecked, hDeclared _ hFlush, hCommit, hRegisters _ hOldest, ?_⟩
  intro hDepth
  exact hPlain ((hCommitted (.field "uint8" "depth" (some "0")) (by decide)).mp hDepth)

end Simgen.Cpp
