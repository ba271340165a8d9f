import Simgen.Proofs.Cpp.MethodDefinitions
import Simgen.Proofs.Design.ClassNames

/-! Requests are forwarded to functions that are bound at construction. In the method that does so
names stand for parameters first, so that a parameter can take the place of the function that
is to be called. Nothing that is checked prevents this. -/
namespace Simgen

namespace Cpp

/-- What a name stands for in the body of a method. -/
inductive Meaning where
  | parameter (p : Parameter)
  | member (d : Declaration)
  deriving DecidableEq

/-- A name stands for the parameter of that name, and for a member of the class only if there is
no such parameter. -/
def meaning? (c : Combine) (ps : List Parameter) (name : String) : Option Meaning :=
  match ps.find? fun p => p.name = name with
  | some p => some (.parameter p)
  | none => ((scopeDeclarations c).find? fun d => d.name = name).map .member

/-- The member that holds the function for a request. -/
def requestHandle (r : Request) : Declaration :=
  .callback ("_request_" ++ r.name) (parameters r.signature)

/-- The method that forwards a request: it calls what the handle is called, with all its
parameters, those for returned values last. -/
def forwarder (r : Request) : Declaration :=
  .method "void" r.name (parameters r.signature)
    [.call (.plain ("_request_" ++ r.name))
      ((r.signature.params ++ r.signature.returns).map Param.name)]
    ";"

/-- The class forwards a request. The method is there, with the handle, and passes on what it is
given. The call reaches the handle unless a parameter has the same name. -/
structure Forwards (c : Combine) (r : Request) : Prop where
  declared : forwarder r ∈ scopeDeclarations c ∧ requestHandle r ∈ scopeDeclarations c
  written : ∀ style, indented ("void " ++ r.name ++ "(" ++ parameterList (parameters r.signature) ++
    ") \x7b _request_" ++ r.name ++ "(" ++
    ", ".intercalate ((r.signature.params ++ r.signature.returns).map Param.name) ++ "); \x7d;") ∈
      classHeader style c
  passed : ((r.signature.params ++ r.signature.returns).map Param.name).map
      (meaning? c (parameters r.signature)) =
    (parameters r.signature).map fun p => some (.parameter p)
  reached_iff : meaning? c (parameters r.signature) ("_request_" ++ r.name) =
      some (.member (requestHandle r)) ↔
    ∀ p ∈ r.signature.params ++ r.signature.returns, p.name ≠ "_request_" ++ r.name
  captured : ∀ p ∈ parameters r.signature, p.name = "_request_" ++ r.name →
    meaning? c (parameters r.signature) ("_request_" ++ r.name) = some (.parameter p)

variable {c : Combine} {r : Request}

theorem requestPart_members (r : Request) :
    (requestPart r).members.map Member.declaration = [requestHandle r, forwarder r] := by
  have hMember : "_" ++ ("request_" ++ r.name) = "_request_" ++ r.name := by
    rw [← String.append_assoc]
    rfl
  simp only [requestPart, bare, accessor, Injected.declaration, Injected.member, Handle.declare,
    hMember, map_name_parameters]
  rfl

theorem mem_scope_of_mem_requests (hr : r ∈ c.requests) :
    forwarder r ∈ scopeDeclarations c ∧ requestHandle r ∈ scopeDeclarations c := by
  have hPart : ∀ d ∈ (requestPart r).members.map Member.declaration, d ∈ scopeDeclarations c := by
    intro d hd
    apply List.mem_append_right
    rw [classMembers, List.map_flatMap, List.mem_flatMap]
    refine ⟨requestPart r, ?_, hd⟩
    simp only [parts, List.mem_append, List.mem_map]
    exact Or.inl (Or.inl (Or.inl (Or.inl (Or.inr ⟨r, hr, rfl⟩))))
  rw [requestPart_members] at hPart
  exact ⟨hPart _ (by simp), hPart _ (by simp)⟩

theorem text_forwarder (r : Request) :
    (forwarder r).text = "void " ++ r.name ++ "(" ++ parameterList (parameters r.signature) ++
      ") \x7b _request_" ++ r.name ++ "(" ++
      ", ".intercalate ((r.signature.params ++ r.signature.returns).map Param.name) ++
        "); \x7d;" := by
  simp only [forwarder, Declaration.text, Statement.text, Callee.text, List.map_cons, List.map_nil,
    String.intercalate_singleton, String.append_assoc]
  rfl

theorem meaning?_parameter {ps : List Parameter} (hNames : (ps.map Parameter.name).Nodup)
    {p : Parameter} (hp : p ∈ ps) : meaning? c ps p.name = some (.parameter p) := by
  rw [meaning?, find?_name_of_mem hNames hp]

theorem meaning?_member (h : c.checkNames = .ok ()) {ps : List Parameter} {d : Declaration}
    (hd : d ∈ scopeDeclarations c) (hFree : ∀ p ∈ ps, p.name ≠ d.name) :
    meaning? c ps d.name = some (.member d) := by
  have hNone : ps.find? (fun p => p.name = d.name) = none := by
    simpa [List.find?_eq_none] using hFree
  rw [meaning?, hNone, find?_name_of_mem (List.nodup_cons.mp (nodup_classScope h)).2 hd]
  rfl

theorem forwards_of_mem (h : c.checkNames = .ok ()) (hr : r ∈ c.requests)
    (hNames : ((r.signature.params ++ r.signature.returns).map Param.name).Nodup) :
    Forwards c r := by
  have hDeclared := mem_scope_of_mem_requests hr
  rw [← map_name_parameters] at hNames
  have hCaptured : ∀ p ∈ parameters r.signature, p.name = "_request_" ++ r.name →
      meaning? c (parameters r.signature) ("_request_" ++ r.name) = some (.parameter p) := by
    intro p hp hName
    rw [← hName]
    exact meaning?_parameter hNames hp
  have hFree : (∀ p ∈ r.signature.params ++ r.signature.returns, p.name ≠ "_request_" ++ r.name) ↔
      ∀ p ∈ parameters r.signature, p.name ≠ "_request_" ++ r.name := by
    rw [← List.forall_mem_map (f := Param.name) (P := (· ≠ "_request_" ++ r.name)),
      ← map_name_parameters, List.forall_mem_map]
  constructor
  · exact hDeclared
  · intro style
    rw [← text_forwarder]
    exact (scopeDeclarations_sublist style c).subset (List.mem_map_of_mem hDeclared.1)
  · rw [← map_name_parameters, List.map_map]
    exact List.map_congr_left fun p hp => meaning?_parameter hNames hp
  · -- Parameters are looked at first, so the handle is found only where none has its name.
    rw [hFree]
    constructor
    · intro hReached p hp hName
      rw [hCaptured p hp hName] at hReached
      cases hReached
    · intro hOthers
      exact meaning?_member h hDeclared.2 hOthers
  · exact hCaptured

end Cpp

namespace Descriptor.Combine

/-- The combine with other requests. -/
def withRequests (d : Combine) (requests : List Operation) : Combine := { d with requests }

variable {sources : Sources} {cppDir : String} {d : Combine} {requests : List Operation}

theorem declaredNames_withRequests
    (h : requests.map Operation.name = d.requests.map Operation.name) :
    (d.withRequests requests).declaredNames = d.declaredNames := by
  simp only [declaredNames, withRequests, h]

theorem namesFit_withRequests_iff
    (h : requests.map Operation.name = d.requests.map Operation.name) :
    (d.withRequests requests).NamesFit ↔ d.NamesFit := by
  have hHandles : requests.map (fun r => "_request_" ++ r.name) =
      d.requests.map fun r => "_request_" ++ r.name := by
    have hMapped := congrArg (List.map ("_request_" ++ ·)) h
    simpa only [List.map_map, Function.comp_def] using hMapped
  have hGenerated : (d.withRequests requests).generatedNames = d.generatedNames := by
    simp only [generatedNames, withRequests, hHandles]
  have hMembers : (d.withRequests requests).memberNames = d.memberNames := by
    rw [memberNames, declaredNames_withRequests h, hGenerated, memberNames]
  have hOf : ∀ e e' : Combine, e.memberNames = e'.memberNames → e.name = e'.name →
      e.builtinNames = e'.builtinNames → e.NamesFit → e'.NamesFit := by
    intro e e' hMember hName hBuiltin hFit
    exact ⟨hMember ▸ hFit.nodup, hMember ▸ hName ▸ hFit.not_class,
      hMember ▸ hBuiltin ▸ hFit.not_builtin⟩
  exact ⟨hOf _ _ hMembers rfl rfl, hOf _ _ hMembers.symm rfl rfl⟩

/-- Checks do not depend on the requests, but for their names. -/
theorem passes_withRequests_iff (h : requests.map Operation.name = d.requests.map Operation.name)
    (check : Check) :
    check.Passes sources cppDir (d.withRequests requests) ↔ check.Passes sources cppDir d := by
  cases check with
  | signature op => exact Iff.rfl
  | code c => exact Iff.rfl
  | storage field => exact Iff.rfl
  | names => exact not_congr (not_congr (namesFit_withRequests_iff h))

/-- Each check is on the parameters of a request, or is one of those that there were before. -/
theorem mem_checks_withRequests_iff {check : Check} :
    check ∈ (d.withRequests requests).checks ↔
      (∃ op ∈ requests, .signature op = check) ∨ check ∈ (d.withRequests []).checks := by
  simp only [checks, withRequests, List.map_nil, List.nil_append, List.append_assoc,
    List.mem_append, List.mem_map]

theorem mem_checks_of_withRequests_nil {check : Check} (h : check ∈ (d.withRequests []).checks) :
    check ∈ d.checks := by
  change check ∈ (d.withRequests d.requests).checks
  exact mem_checks_withRequests_iff.mpr (Or.inr h)

/-- The parameters of a request need to have distinct names. That is all that is checked. -/
theorem forall_passes_withRequests_iff
    (hNames : requests.map Operation.name = d.requests.map Operation.name)
    (hAll : ∀ check ∈ d.checks, check.Passes sources cppDir d) :
    (∀ check ∈ (d.withRequests requests).checks,
        check.Passes sources cppDir (d.withRequests requests)) ↔
      ∀ op ∈ requests, op.paramNames.Nodup := by
  constructor
  · intro h op hop
    exact not_not.mp (h (.signature op) (mem_checks_withRequests_iff.mpr (Or.inl ⟨op, hop, rfl⟩)))
  · intro h check hCheck
    rcases mem_checks_withRequests_iff.mp hCheck with ⟨op, hop, rfl⟩ | hOther
    · exact not_not.mpr (h op hop)
    · rw [passes_withRequests_iff hNames]
      exact hAll check (mem_checks_of_withRequests_nil hOther)

theorem forall_mem_paramNames_withRequests {P : String → Prop}
    (h : ∀ n ∈ d.paramNames, P n) :
    (∀ n ∈ (d.withRequests requests).paramNames, P n) ↔
      ∀ op ∈ requests, ∀ n ∈ op.paramNames, P n := by
  simp only [paramNames, withRequests, List.flatMap_append, List.forall_mem_append] at h ⊢
  rw [List.forall_mem_flatMap]
  exact ⟨fun hAll => hAll.1.1, fun hRequests => ⟨⟨hRequests, h.1.2⟩, h.2⟩⟩

end Descriptor.Combine

namespace Combine

variable {sources : Sources} {cppDir : String} {d : Descriptor.Combine}
  {requests : List Descriptor.Operation}

/-- Other requests do not make a function go missing. -/
theorem not_lacksBody_withRequests (h : ∃ c, (ofDescriptor sources cppDir d).outcome = .ok c) :
    ¬ ∃ e, LacksBody sources cppDir (d.withRequests requests) e := by
  rw [lacksBody_iff]
  rintro ⟨before, code, after, hChecks, -, hMissing⟩
  have hCode : .code code ∈ (d.withRequests requests).checks := by
    rw [hChecks]
    simp
  rcases Descriptor.Combine.mem_checks_withRequests_iff.mp hCode with ⟨op, -, hOp⟩ | hOther
  · cases hOp
  · have hHere := Descriptor.Combine.mem_checks_of_withRequests_nil hOther
    exact absurd (ofDescriptor_succeeds_iff.mp h _ hHere) hMissing.not_passes

/-- Where no function is missing, the combine has to be built with names that can be used. -/
theorem admitted_iff_of_not_lacksBody (h : ¬ ∃ e, LacksBody sources cppDir d e) :
    Admitted sources cppDir d ↔
      ∃ c, (ofDescriptor sources cppDir d).outcome = .ok c ∧ Cpp.combineOffender? c = none := by
  constructor
  · rintro ⟨hDropped, hUsable⟩
    cases hBuilt : built? sources cppDir d with
    | none => exact absurd (hDropped hBuilt) h
    | some c => exact ⟨c, built?_eq_some_iff.mp hBuilt, hUsable c hBuilt⟩
  · rintro ⟨c, hc, hUsable⟩
    have hBuilt : built? sources cppDir d = some c := built?_eq_some_iff.mpr hc
    constructor
    · intro hNone
      cases hNone.symm.trans hBuilt
    · intro other hOther
      cases hBuilt.symm.trans hOther
      exact hUsable

/-- What requests have to meet, under the names that there were. -/
theorem admitted_withRequests_iff
    (hNames : requests.map Descriptor.Operation.name =
      d.requests.map Descriptor.Operation.name)
    (hBuilt : ∃ c, (ofDescriptor sources cppDir d).outcome = .ok c)
    (h : Admitted sources cppDir d) :
    Admitted sources cppDir (d.withRequests requests) ↔
      (∀ op ∈ requests, op.paramNames.Nodup) ∧
        ∀ op ∈ requests, ∀ n ∈ op.paramNames, Cpp.isKeyword n = false := by
  have hPasses := Descriptor.Combine.forall_passes_withRequests_iff hNames
    (ofDescriptor_succeeds_iff.mp hBuilt)
  rw [← ofDescriptor_succeeds_iff] at hPasses
  obtain ⟨c, hc⟩ := hBuilt
  obtain ⟨hKeyword, hHeader, hFree⟩ :=
    (combineOffender?_of_ofDescriptor hc).mp (h.2 c (built?_eq_some_iff.mpr hc))
  rw [List.forall_mem_append] at hFree
  have hOffender : ∀ c', (ofDescriptor sources cppDir (d.withRequests requests)).outcome = .ok c' →
      (Cpp.combineOffender? c' = none ↔
        ∀ op ∈ requests, ∀ n ∈ op.paramNames, Cpp.isKeyword n = false) := by
    intro c' hc'
    rw [combineOffender?_of_ofDescriptor hc', List.forall_mem_append,
      Descriptor.Combine.declaredNames_withRequests hNames,
      Descriptor.Combine.forall_mem_paramNames_withRequests hFree.2]
    exact ⟨fun hAll => hAll.2.2.2, fun hParams => ⟨hKeyword, hHeader, hFree.1, hParams⟩⟩
  rw [admitted_iff_of_not_lacksBody (not_lacksBody_withRequests ⟨c, hc⟩)]
  constructor
  · rintro ⟨c', hc', hUsable⟩
    exact ⟨hPasses.mp ⟨c', hc'⟩, (hOffender c' hc').mp hUsable⟩
  · rintro ⟨hDistinct, hParams⟩
    obtain ⟨c', hc'⟩ := hPasses.mpr hDistinct
    exact ⟨c', hc', (hOffender c' hc').mpr hParams⟩

theorem requests_of_ofDescriptor {c : Combine}
    (h : (ofDescriptor sources cppDir d).outcome = .ok c) :
    c.requests.map (fun r => (r.name, r.signature)) =
      d.requests.map fun op => (op.name, op.signature) :=
  map_eq_of_forall₂ (hasMembers_of_ofDescriptor h).requests fun _ _ hRequest => by
    rw [(of_requestOf hRequest).1, (of_requestOf hRequest).2]

theorem nodup_names_of_mem_requests {c : Combine}
    (h : (ofDescriptor sources cppDir d).outcome = .ok c) {r : Request} (hr : r ∈ c.requests) :
    ((r.signature.params ++ r.signature.returns).map Param.name).Nodup := by
  have hPair : (r.name, r.signature) ∈ d.requests.map fun op => (op.name, op.signature) := by
    rw [← requests_of_ofDescriptor h]
    exact List.mem_map_of_mem hr
  obtain ⟨op, hop, hSame⟩ := List.mem_map.mp hPair
  have hNames : (r.signature.params ++ r.signature.returns).map Param.name = op.paramNames := by
    rw [← (Prod.mk.inj hSame).2]
    simp [Descriptor.Operation.signature, Descriptor.Operation.paramNames, paramOf,
      Function.comp_def]
  have hCheck : .signature op ∈ d.checks :=
    Descriptor.Combine.signature_mem_checks.mpr
      (List.mem_append_left _ (List.mem_append_left _ hop))
  rw [hNames]
  exact not_not.mp (ofDescriptor_succeeds_iff.mp ⟨c, h⟩ _ hCheck)

end Combine

namespace Project

variable {sources : Sources} {p : Project} {design : Design}

/-- Where code is generated, each request is forwarded with all its arguments in order, and the
call reaches the function that is bound for it unless a parameter is called like the handle. The
names of parameters are free to be so: whatever parameters requests are given, code is
generated exactly if those of each request differ and none is a keyword. -/
theorem requests_forwarded (h : (Design.elaborate sources p).outcome = .ok design)
    (hKeywords : Cpp.checkKeywords design = .ok ()) {c : Combine} (hc : c ∈ design.combines) :
    (∀ r ∈ c.requests, Cpp.Forwards c r) ∧
    ∃ before d after, p.combines = before ++ d :: after ∧
      c.requests.map (fun r => (r.name, r.signature)) =
        d.requests.map (fun op => (op.name, op.signature)) ∧
      ∀ requests : List Descriptor.Operation,
        requests.map Descriptor.Operation.name = d.requests.map Descriptor.Operation.name →
        (Accepted sources { p with combines := before ++ d.withRequests requests :: after } ↔
          (∀ op ∈ requests, op.paramNames.Nodup) ∧
            ∀ op ∈ requests, ∀ n ∈ op.paramNames, Cpp.isKeyword n = false) := by
  obtain ⟨-, -, hElaborated⟩ := Design.elaborate_eq_ok_iff.mp h
  obtain ⟨d, hd, hBuilt⟩ := Design.exists_descriptor_of_mem_combinesOf hElaborated hc
  obtain ⟨before, after, hCombines⟩ := List.append_of_mem hd
  obtain ⟨hBundles, hDistinct, hAdmitted⟩ := accepted_iff.mp ⟨design, h, hKeywords⟩
  rw [hCombines, List.map_append, List.map_cons] at hDistinct
  rw [hCombines, List.forall_mem_append, List.forall_mem_cons] at hAdmitted
  obtain ⟨hBefore, hHere, hAfter⟩ := hAdmitted
  constructor
  · intro r hr
    exact Cpp.forwards_of_mem (Combine.checkNames_of_ofDescriptor hBuilt) hr
      (Combine.nodup_names_of_mem_requests hBuilt hr)
  · refine ⟨before, d, after, hCombines, Combine.requests_of_ofDescriptor hBuilt, ?_⟩
    intro requests hNames
    rw [← Combine.admitted_withRequests_iff hNames ⟨c, hBuilt⟩ hHere, accepted_iff]
    simp only [List.map_append, List.map_cons, List.forall_mem_append, List.forall_mem_cons]
    constructor
    · rintro ⟨-, -, -, hAdmitted, -⟩
      exact hAdmitted
    · intro hAdmitted
      exact ⟨hBundles, hDistinct, hBefore, hAdmitted, hAfter⟩

/-- The request to post a letter. -/
def post (letter : String) : Descriptor.Operation :=
  { name := "post", comment := none, params := [⟨letter, "uint8", none⟩], returns := []
    body := none }

/-- A project with a combine that posts letters. -/
def postOffice (letter : String) : Project :=
  { cppDir := "cpp", bundles := []
    combines := [
      { name := "Mailbox", comment := none, source := "mailbox.xml", pipeIn := [], pipeOut := []
        requests := [post letter], services := [], functions := [], storage := []
        storageNext := [], storageTick := [], configs := [], init := [], tick := []
        applyTick := [], stallable := false }] }

/-- The request is forwarded, and could as well have a parameter that is called like the
handle. -/
theorem postOffice_forwards :
    ∃ design, (Design.elaborate Descriptor.blankSources (postOffice "letter")).outcome =
        .ok design ∧
      Cpp.checkKeywords design = .ok () ∧
      (∃ c ∈ design.combines, ∃ r ∈ c.requests, Cpp.Forwards c r) ∧
      Accepted Descriptor.blankSources (postOffice "_request_post") := by
  refine ⟨_, rfl, by decide +kernel, ?_⟩
  obtain ⟨hForwards, before, d, after, hCombines, -, hAccepted⟩ :=
    @requests_forwarded Descriptor.blankSources (postOffice "letter") _ rfl (by decide +kernel) _
      List.mem_cons_self
  constructor
  · exact ⟨_, List.mem_cons_self, _, List.mem_cons_self, hForwards _ List.mem_cons_self⟩
  · cases before with
    | nil =>
        cases hCombines
        exact (hAccepted [post "_request_post"] rfl).mpr ⟨by decide, by decide⟩
    | cons first rest =>
        have hLength := congrArg List.length hCombines
        simp [postOffice] at hLength

/-- Code is generated for a request whose call reaches a parameter instead of the handle. -/
theorem postOffice_captured :
    ∃ design, (Design.elaborate Descriptor.blankSources (postOffice "_request_post")).outcome =
        .ok design ∧
      Cpp.checkKeywords design = .ok () ∧
      ∃ c ∈ design.combines, ∃ r ∈ c.requests, ∃ p ∈ Cpp.parameters r.signature,
        Cpp.meaning? c (Cpp.parameters r.signature) ("_request_" ++ r.name) =
          some (.parameter p) :=
  ⟨_, rfl, by decide +kernel, by decide +kernel⟩

end Project

end Simgen
