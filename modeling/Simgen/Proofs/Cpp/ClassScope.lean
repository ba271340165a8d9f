import Simgen.Proofs.Combine.Namespace
import Simgen.Proofs.Cpp.Layout
import Mathlib.Data.List.Flatten
import Mathlib.Data.List.Perm.Basic
import Mathlib.Data.List.Perm.Subperm

/-! The scope of a combine's class. What the parts of the class declare is, up to order, the
generated names, the declared names of those members that appear under their own name,
and the stall members; so the check of the names covers the whole scope. -/
namespace Simgen.Cpp

/-- The names that a part declares in the class. -/
def Part.names (q : Part) : List String := q.members.map fun m => m.declaration.name

/-- The names that the members of the class declare, the lifecycle methods apart. -/
def declaredNames (c : Combine) : List String :=
  (classMembers c).map fun m => m.declaration.name

/-- The declarations in the class, the lifecycle methods first. -/
def scopeDeclarations (c : Combine) : List Declaration :=
  lifecyclePrototypes ++ (classMembers c).map Member.declaration

/-- The identifiers of the class scope, apart from the constructor and the destructor. -/
def classScope (c : Combine) : List String :=
  "ConstructorArguments" :: (scopeDeclarations c).map Declaration.name

/-- The line declares the name: as a field with or without a value, as a pointer to a
function, or as a function with or without a body. -/
inductive Declares (name : String) : String → Prop where
  | field (type : String) : Declares name (type ++ " " ++ name ++ ";")
  | initialized (type value : String) :
      Declares name (type ++ " " ++ name ++ " = " ++ value ++ ";")
  | pointer (parameters : String) :
      Declares name ("void (*" ++ name ++ ")(" ++ parameters ++ ");")
  | function (type parameters rest : String) :
      Declares name (type ++ " " ++ name ++ "(" ++ parameters ++ ")" ++ rest)

/-- The name of a storage field, unless only its accessors are declared. -/
def ownStorageNames : Storage → List String
  | .next .. => []
  | s => [s.name]

variable {c : Combine}

theorem declares_text (d : Declaration) : Declares d.name d.text := by
  cases d with
  | field type name initial =>
      cases initial with
      | none => exact .field type
      | some value => exact .initialized type value
  | callback name ps => exact .pointer (parameterList ps)
  | method type name ps body ending =>
      have hText : (Declaration.method type name ps body ending).text =
          type ++ " " ++ name ++ "(" ++ parameterList ps ++ ")" ++
            (" \x7b " ++ " ".intercalate (body.map Statement.text) ++ " \x7d" ++ ending) := by
        simp only [Declaration.text, String.append_assoc]
        rfl
      rw [hText]
      exact .function type (parameterList ps) _
  | prototype name ps =>
      have hText : (Declaration.prototype name ps).text =
          "void" ++ " " ++ name ++ "(" ++ parameterList ps ++ ")" ++ ";" := by
        simp only [Declaration.text, String.append_assoc]
        rfl
      rw [hText]
      exact .function "void" (parameterList ps) ";"

theorem flatMap_parts {β : Type} (f : Part → List β) (c : Combine) :
    (parts c).flatMap f =
      c.inputs.flatMap (fun p => f (inputPart p)) ++
        c.outputs.flatMap (fun p => f (outputPart p)) ++
        c.requests.flatMap (fun r => f (requestPart r)) ++
        c.operations.flatMap (fun o => f (operationPart o)) ++
        c.storage.flatMap (fun s => f (storagePart s)) ++
        c.configs.flatMap (fun t => f (configPart t)) ++
        if c.stallable then f stallPart else [] := by
  simp only [parts, List.flatMap_append, List.flatMap_map]
  congr 1
  split_ifs
  · exact List.flatMap_singleton f stallPart
  · rfl

theorem declaredNames_eq (c : Combine) : declaredNames c = (parts c).flatMap Part.names := by
  rw [declaredNames, classMembers, List.map_flatMap]
  rfl

theorem classScope_eq (c : Combine) :
    classScope c = ("ConstructorArguments" :: phaseMethods) ++ declaredNames c := by
  simp [classScope, scopeDeclarations, lifecyclePrototypes, declaredNames, Declaration.name,
    Function.comp_def]

theorem inputPart_names {p : Pipe} (h : p.direction = .input) :
    (inputPart p).names = Combine.pipeNames p := by
  simp [inputPart, Part.names, Combine.pipeNames, h, bare, documented, accessor, Declaration.name,
    Injected.declaration, Handle.declare, Injected.member, ← String.append_assoc]

theorem outputPart_names {p : Pipe} (h : p.direction = .output) :
    (outputPart p).names = Combine.pipeNames p := by
  simp [outputPart, Part.names, Combine.pipeNames, h, bare, documented, accessor, Declaration.name,
    Injected.declaration, Handle.declare, Injected.member, ← String.append_assoc]

theorem requestPart_names (r : Request) :
    (requestPart r).names = ["_request_" ++ r.name, r.name] := by
  simp [requestPart, Part.names, bare, accessor, Declaration.name, Injected.declaration,
    Handle.declare, Injected.member, ← String.append_assoc]

theorem storagePart_names (s : Storage) :
    (storagePart s).names = Combine.storageNames s ++ ownStorageNames s := by
  cases s with
  | plain name type default comment => rfl
  | next name type default comment => rfl
  | tick name type default comment => rfl

/-- Inputs and outputs together are all pipes. -/
theorem pipeParts_names_perm (c : Combine) :
    ((c.inputs.map inputPart).flatMap Part.names ++
      (c.outputs.map outputPart).flatMap Part.names).Perm (c.pipes.flatMap Combine.pipeNames) := by
  have hInputs : (c.inputs.map inputPart).flatMap Part.names =
      c.inputs.flatMap Combine.pipeNames := by
    rw [List.flatMap_map]
    exact List.flatMap_congr fun p hp => inputPart_names (by simpa using List.of_mem_filter hp)
  have hOutputs : (c.outputs.map outputPart).flatMap Part.names =
      c.outputs.flatMap Combine.pipeNames := by
    rw [List.flatMap_map]
    exact List.flatMap_congr fun p hp => outputPart_names (by simpa using List.of_mem_filter hp)
  have hRest : c.outputs = c.pipes.filter fun p => !decide (p.direction = .input) := by
    apply List.filter_congr
    intro p _
    cases p.direction <;> rfl
  rw [hInputs, hOutputs, ← List.flatMap_append, hRest]
  exact (List.filter_append_perm _ c.pipes).flatMap_right _

theorem requestParts_names_perm (requests : List Request) :
    ((requests.map requestPart).flatMap Part.names).Perm
      ((requests.map fun r => "_request_" ++ r.name) ++ requests.map Request.name) := by
  rw [List.flatMap_map, List.map_eq_flatMap, List.map_eq_flatMap]
  simp only [requestPart_names]
  exact (List.flatMap_append_perm requests (fun r => ["_request_" ++ r.name])
    (fun r => [r.name])).symm

theorem storageParts_names_perm (storage : List Storage) :
    ((storage.map storagePart).flatMap Part.names).Perm
      (storage.flatMap Combine.storageNames ++ storage.flatMap ownStorageNames) := by
  rw [List.flatMap_map]
  simp only [storagePart_names]
  exact (List.flatMap_append_perm storage _ _).symm

/-- The declared names under which a member itself appears in the class. -/
def plainNames (c : Combine) : List String :=
  c.requests.map Request.name ++ c.operations.map Operation.name ++
    c.storage.flatMap ownStorageNames ++ c.configs.map Constant.name

/-- What a stallable combine declares besides, and nothing for any other. -/
def stallNames (c : Combine) : List String := if c.stallable then stallMembers else []

theorem plainNames_sublist (c : Combine) : (plainNames c).Sublist c.ownNames := by
  have hStorage : (c.storage.flatMap ownStorageNames).Sublist (c.storage.map Storage.name) := by
    rw [List.map_eq_flatMap]
    apply List.Sublist.flatMap_right
    intro s _
    cases s <;> simp [ownStorageNames, Storage.name]
  have hRequests := List.sublist_append_right (c.pipes.map Pipe.name) (c.requests.map Request.name)
  exact ((hRequests.append (List.Sublist.refl _)).append hStorage).append (List.Sublist.refl _)

theorem stallParts_names_perm (c : Combine) :
    ((if c.stallable then [stallPart] else []).flatMap Part.names).Perm (stallNames c) := by
  unfold stallNames
  split_ifs
  · decide
  · rfl

/-- The parts declare each generated name, each own name of a member that appears under it,
and the stall members. -/
theorem declaredNames_perm (c : Combine) :
    (declaredNames c).Perm (c.derivedNames.map Prod.fst ++ plainNames c ++ stallNames c) := by
  -- The parts stand in another order than the names, so occurrences are counted instead.
  rw [List.perm_iff_count]
  intro n
  have hPipes := (pipeParts_names_perm c).count_eq n
  have hRequests := (requestParts_names_perm c.requests).count_eq n
  have hStorage := (storageParts_names_perm c.storage).count_eq n
  have hStall := (stallParts_names_perm c).count_eq n
  have hOperations : (c.operations.map operationPart).flatMap Part.names =
      c.operations.map Operation.name := by
    rw [List.flatMap_map, List.map_eq_flatMap]
    rfl
  have hConfigs : (c.configs.map configPart).flatMap Part.names =
      c.configs.map Constant.name := by
    rw [List.flatMap_map, List.map_eq_flatMap]
    rfl
  rw [Combine.map_fst_derivedNames]
  simp only [declaredNames_eq, parts, plainNames, List.flatMap_append, List.count_append,
    hOperations, hConfigs] at hPipes hRequests hStorage hStall ⊢
  omega

theorem declaredNames_subperm (c : Combine) :
    (declaredNames c).Subperm (c.memberNames ++ stallNames c) := by
  have hOwn : (c.derivedNames.map Prod.fst ++ plainNames c).Subperm c.memberNames :=
    ((List.Sublist.refl _).append (plainNames_sublist c)).subperm.trans
      List.perm_append_comm.subperm
  exact (declaredNames_perm c).subperm.trans (hOwn.append (List.Subperm.refl _))

theorem mem_declaredNames (c : Combine) {n : String} (h : n ∈ c.derivedNames.map Prod.fst) :
    n ∈ declaredNames c := by
  rw [(declaredNames_perm c).mem_iff]
  exact List.mem_append_left _ (List.mem_append_left _ h)

theorem fixedNames_eq (c : Combine) :
    c.fixedNames = phaseMethods ++ ["ConstructorArguments", c.name] ++ stallNames c := rfl

/-- The names that were checked and those that every class has are distinct. -/
theorem nodup_checked (h : c.checkNames = .ok ()) :
    (("ConstructorArguments" :: phaseMethods) ++ (c.memberNames ++ stallNames c)).Nodup := by
  obtain ⟨hNodup, hFree⟩ := (Combine.checkNames_eq_ok_iff c).mp h
  have hFixed : (("ConstructorArguments" :: phaseMethods) ++ stallNames c).Nodup := by
    unfold stallNames
    split_ifs <;> decide
  rw [List.nodup_append] at hFixed
  obtain ⟨hPhases, hStall, hApart⟩ := hFixed
  rw [List.nodup_append, List.nodup_append]
  refine ⟨hPhases, ⟨hNodup, hStall, ?_⟩, ?_⟩
  · rintro n hn _ hm rfl
    exact hFree n hn (by rw [fixedNames_eq]; exact List.mem_append_right _ hm)
  · rintro n hn _ hm rfl
    rcases List.mem_append.mp hm with hm | hm
    · refine hFree n hm ?_
      rw [fixedNames_eq]
      rcases List.mem_cons.mp hn with rfl | hn
      · simp
      · exact List.mem_append_left _ (List.mem_append_left _ hn)
    · exact hApart n hn n hm rfl

theorem nodup_classScope (h : c.checkNames = .ok ()) : (classScope c).Nodup := by
  rw [classScope_eq]
  obtain ⟨names, hPerm, hSublist⟩ :=
    (List.Subperm.refl ("ConstructorArguments" :: phaseMethods)).append (declaredNames_subperm c)
  exact hPerm.nodup_iff.mp (hSublist.nodup (nodup_checked h))

/-- In a class whose names were checked a declaration is known by its name. -/
theorem eq_of_name_eq (h : c.checkNames = .ok ()) {d e : Declaration}
    (hd : d ∈ scopeDeclarations c) (he : e ∈ scopeDeclarations c) (hName : d.name = e.name) :
    d = e :=
  List.inj_on_of_nodup_map (List.nodup_cons.mp (nodup_classScope h)).2 hd he hName

/-- The class declares the name once, and in these words. -/
def DeclaredOnce (c : Combine) (name text : String) : Prop :=
  ∃ d, (scopeDeclarations c).filter (fun other => other.name = name) = [d] ∧ d.text = text

theorem declaredOnce_of_mem (h : c.checkNames = .ok ()) {d : Declaration}
    (hd : d ∈ scopeDeclarations c) : DeclaredOnce c d.name d.text :=
  ⟨d, filter_key_of_mem (List.nodup_cons.mp (nodup_classScope h)).2 hd, rfl⟩

/-- The declarations of the scope are lines of the header, in this order. -/
theorem scopeDeclarations_sublist (style : Style) (c : Combine) :
    ((scopeDeclarations c).map fun d => indented d.text).Sublist (classHeader style c) := by
  have hMembers : ((classMembers c).map fun m => indented m.declaration.text).Sublist
      ((classMembers c).flatMap fun m => m.lines.map indented) := by
    rw [List.map_eq_flatMap]
    apply List.Sublist.flatMap_right
    intro m _
    rw [Member.lines, List.map_append]
    exact List.sublist_append_right _ _
  rw [scopeDeclarations, List.map_append, List.map_map, classHeader]
  refine List.Sublist.trans (List.Sublist.append ?_ hMembers) (List.sublist_append_left _ _)
  exact (List.sublist_append_right _ _).trans (List.sublist_append_left _ _)

theorem holdsLines_scopeDeclarations (style : Style) (c : Combine) :
    HoldsLines (render style.indent (classHeader style c))
      ((scopeDeclarations c).map fun d => style.unit ++ d.text) := by
  have hLines := holdsLines_of_sublist style (scopeDeclarations_sublist style c)
  simpa only [List.map_map, Function.comp_def, laidOut_indented] using hLines

/-- On the level of the class there is nothing else, apart from comments, the nested class,
the constructor and the destructor. -/
theorem of_mem_classHeader {style : Style} {line : Line} (h : line ∈ classHeader style c)
    (hDepth : line.depth = 1) :
    (∃ d ∈ scopeDeclarations c, line = indented d.text) ∨
      (∃ m ∈ classMembers c, line.text ∈ m.doc.lines) ∨
        line ∈ argumentClass c ++ constructor c ++ destructor c := by
  simp only [classHeader, List.mem_append, List.mem_cons, List.not_mem_nil, or_false] at h
  rcases h with (((((((hPrologue | hHead) | hArguments) | hInit) | hDone) | hPhase) | hBlank) |
    hMember) | hEnd
  · cases hDepth.symm.trans (of_mem_prologue hPrologue).1
  · rcases hHead with rfl | rfl | rfl <;> cases hDepth
  · exact Or.inr (Or.inr (by simp [hArguments]))
  · exact Or.inr (Or.inr (by simp [hInit]))
  · exact Or.inr (Or.inr (by simp [hDone]))
  · obtain ⟨d, hd, rfl⟩ := List.mem_map.mp hPhase
    exact Or.inl ⟨d, List.mem_append_left _ hd, rfl⟩
  · cases hBlank
    cases hDepth
  · obtain ⟨m, hm, hLine⟩ := List.mem_flatMap.mp hMember
    obtain ⟨text, hText, rfl⟩ := List.mem_map.mp hLine
    rcases List.mem_append.mp hText with hComment | hDeclaration
    · exact Or.inr (Or.inl ⟨m, hm, hComment⟩)
    · rw [List.mem_singleton.mp hDeclaration]
      exact Or.inl ⟨m.declaration, List.mem_append_right _ (List.mem_map_of_mem hm), rfl⟩
  · cases hEnd
    cases hDepth

/-- The declarations of the scope are what the header declares in the class. If the names of
the combine pass the check, no identifier of the scope is declared twice, and no member
brings in the name of the class. The check and the class agree: each generated name is
declared once, and whatever is declared is a name that was checked. -/
theorem classScope_distinct (h : c.checkNames = .ok ()) :
    (∀ style, ((scopeDeclarations c).map fun d => indented d.text).Sublist (classHeader style c) ∧
      ∀ line ∈ classHeader style c, line.depth = 1 →
        (∃ d ∈ scopeDeclarations c, line = indented d.text) ∨
          (∃ m ∈ classMembers c, line.text ∈ m.doc.lines) ∨
            line ∈ argumentClass c ++ constructor c ++ destructor c) ∧
    (∀ d ∈ scopeDeclarations c, Declares d.name d.text) ∧
    (classScope c).Nodup ∧
    (∀ n ∈ c.ownNames ++ c.derivedNames.map Prod.fst, n ≠ c.name) ∧
    (∀ n ∈ c.derivedNames.map Prod.fst, (declaredNames c).count n = 1) ∧
    ∀ n ∈ declaredNames c, n ∈ c.ownNames ∨ n ∈ c.derivedNames.map Prod.fst ∨
      (c.stallable = true ∧ n ∈ stallMembers) := by
  have hScope := nodup_classScope h
  have hDeclared : (declaredNames c).Nodup := by
    rw [classScope_eq] at hScope
    exact (List.nodup_append.mp hScope).2.1
  refine ⟨?_, fun d _ => declares_text d, hScope, ?_, ?_, ?_⟩
  · intro style
    exact ⟨scopeDeclarations_sublist style c, fun line hLine => of_mem_classHeader hLine⟩
  · rintro n hn rfl
    refine ((Combine.checkNames_eq_ok_iff c).mp h).2 c.name hn ?_
    simp [fixedNames_eq]
  · exact fun n hn => List.count_eq_one_of_mem hDeclared (mem_declaredNames c hn)
  · intro n hn
    have hChecked := (declaredNames_subperm c).subset hn
    rcases List.mem_append.mp hChecked with hMember | hStall
    · rcases List.mem_append.mp hMember with hOwn | hDerived
      · exact Or.inl hOwn
      · exact Or.inr (Or.inl hDerived)
    · unfold stallNames at hStall
      split_ifs at hStall with hStallable
      · exact Or.inr (Or.inr ⟨hStallable, hStall⟩)
      · cases hStall

/-- A combine with a member of every kind. The last pipe has a name that looks generated. -/
def aluUnit : Combine :=
  { name := "Alu", comment := "Integer ALU"
    pipes :=
      [⟨"result", .output, .composite "Result", "Pipe output result"⟩,
        ⟨"operand", .input, .primitive .uint64, "Pipe input operand"⟩,
        ⟨"_pipein_", .input, .primitive .bool, "Pipe input _pipein_"⟩]
    requests := [⟨"read", ⟨[⟨"idx", .primitive .uint8, ""⟩], []⟩, "Request read"⟩]
    operations := [⟨.service, "flush", ⟨[], []⟩, "Service flush", ["busy = false;"]⟩]
    storage :=
      [.plain "busy" (.primitive .bool) (some "0") "Storage busy",
        .next "pc" (.primitive .uint64) (some "16") "Storage pc",
        .tick "fire" .bool "0" "Storage fire"]
    configs := [⟨"WIDTH", "64", "Config WIDTH"⟩]
    init := [], tick := [], applyTick := [], stallable := true }

theorem aluUnit_scope :
    aluUnit.checkNames = .ok () ∧ (classScope aluUnit).Nodup ∧
      (declaredNames aluUnit).count "_pipein__pipein_" = 1 := by
  have hChecked : aluUnit.checkNames = .ok () := by rfl
  obtain ⟨-, -, hScope, -, hGenerated, -⟩ := classScope_distinct hChecked
  exact ⟨hChecked, hScope, hGenerated "_pipein__pipein_" (by decide)⟩

end Simgen.Cpp
