import Simgen.Proofs.Combine.Namespace
import Simgen.Proofs.Design.Code

/-! The checks that a combine has to pass, in the order in which they are made. Its elaboration
succeeds exactly if it passes all of them, and otherwise fails at the first one that it does
not pass. Only where a source file lacks a function is the failure confined to the combine. -/
namespace Simgen

namespace Descriptor

/-- The names of all parameters, the returned values last. -/
def Operation.paramNames (d : Operation) : List String := (d.params ++ d.returns).map Param.name

/-- The names of all parameters of requests and operations. -/
def Combine.paramNames (d : Combine) : List String :=
  (d.requests ++ d.services ++ d.functions).flatMap Operation.paramNames

/-- The names that a combine declares, in order. -/
def Combine.declaredNames (d : Combine) : List String :=
  (d.pipeIn ++ d.pipeOut).map Pipe.name ++ d.requests.map Operation.name ++
    (d.services ++ d.functions).map Operation.name ++
    (d.storage ++ d.storageNext ++ d.storageTick).map Storage.name ++ d.configs.map Constant.name

/-- The names of the handles, registers and accessors that are generated for members. -/
def Combine.generatedNames (d : Combine) : List String :=
  (d.pipeIn.flatMap fun p =>
      ["_pipein_" ++ p.name, p.name ++ "_can_pop", p.name ++ "_top", p.name ++ "_pop"]) ++
    (d.pipeOut.flatMap fun p =>
      ["_pipeout_" ++ p.name, p.name ++ "_can_push", p.name ++ "_push"]) ++
    (d.requests.map fun r => "_request_" ++ r.name) ++
    d.storageNext.flatMap fun s =>
      ["_storagenext_" ++ s.name, s.name ++ "_get", s.name ++ "_setnext"]

/-- The names that the members of a combine bring into its class. -/
def Combine.memberNames (d : Combine) : List String := d.declaredNames ++ d.generatedNames

/-- What the class of a combine declares whatever its members are. -/
def Combine.builtinNames (d : Combine) : List String :=
  phaseMethods ++ ["ConstructorArguments"] ++ if d.stallable then stallMembers else []

/-- The names of members are distinct, and none of them is that of the class or declared by
every class. -/
structure Combine.NamesFit (d : Combine) : Prop where
  nodup : d.memberNames.Nodup
  not_class : d.name ∉ d.memberNames
  not_builtin : ∀ n ∈ d.memberNames, n ∉ d.builtinNames

/-- One of the conditions on a combine. -/
inductive Check where
  /-- No name stands twice in the signature. -/
  | signature (d : Operation)
  /-- The function that the block refers to can be found. -/
  | code (d : Code)
  /-- The field, which resets, has a primitive type. -/
  | storage (d : Storage)
  | names
  deriving DecidableEq

/-- The code of an operation is looked up before its signature is checked. -/
def Operation.checks (d : Operation) : List Check :=
  d.body.toList.map Check.code ++ [Check.signature d]

/-- The checks of a combine in their order. -/
def Combine.checks (d : Combine) : List Check :=
  d.requests.map Check.signature ++ (d.services ++ d.functions).flatMap Operation.checks ++
    (d.init ++ d.tick.head?.toList ++ d.applyTick.head?.toList).map Check.code ++
    d.storageTick.map Check.storage ++ [Check.names]

/-- The combine fails the check whatever its source files hold. -/
def Check.Flawed (d : Combine) : Check → Prop
  | signature op => ¬ op.paramNames.Nodup
  | code _ => False
  | storage field => (ValueType.ofName field.type).isPrimitive = false
  | names => ¬ d.NamesFit

section

variable (sources : Sources) (cppDir : String)

/-- The source file that the block refers to cannot be read. -/
def Code.Unreadable (d : Code) : Prop :=
  ∃ r e, d.reference = some r ∧ sources (Files.Path.join cppDir r.file) = .error e

/-- The source file that the block refers to does not define the function. -/
def Code.Missing (d : Code) : Prop :=
  ∃ r text, d.reference = some r ∧ sources (Files.Path.join cppDir r.file) = .ok text ∧
    Source.body? text r.func = none

def Check.Passes (d : Combine) : Check → Prop
  | code c => ∃ body, c.Refers sources cppDir body
  | check => ¬ check.Flawed d

/-- The combine fails the check with such an error. -/
def Check.FailsWith (d : Combine) (e : Error) : Check → Prop
  | code c => c.Unreadable sources cppDir ∧ e.isConfined = false ∨
      c.Missing sources cppDir ∧ e.isConfined = true
  | check => check.Flawed d ∧ e.isConfined = false

/-- The outcome that the checks lead to, made one after another until one fails. -/
inductive Decided (d : Combine) {α : Type} : List Check → Except Error α → Prop where
  | passed {checks : List Check} {a : α}
      (all : ∀ check ∈ checks, check.Passes sources cppDir d) : Decided d checks (.ok a)
  | failed {before after : List Check} {check : Check} {e : Error}
      (prior : ∀ other ∈ before, other.Passes sources cppDir d)
      (first : check.FailsWith sources cppDir d e) :
      Decided d (before ++ check :: after) (.error e)

end

section

variable {sources : Sources} {cppDir : String} {d : Combine}

theorem Check.not_flawed_of_passes {check : Check} (h : check.Passes sources cppDir d) :
    ¬ check.Flawed d := by
  cases check with
  | code c => exact not_false
  | signature op => exact h
  | storage field => exact h
  | names => exact h

theorem Check.not_passes_of_failsWith {check : Check} {e : Error}
    (h : check.FailsWith sources cppDir d e) : ¬ check.Passes sources cppDir d := by
  cases check with
  | signature op => exact not_not.mpr h.1
  | storage field => exact not_not.mpr h.1
  | names => exact not_not.mpr h.1
  | code c =>
      rintro ⟨body, hRefers⟩
      rcases h with ⟨⟨r, os, hReference, hText⟩, -⟩ | ⟨⟨r, text, hReference, hText, hNone⟩, -⟩
      · rw [Code.Refers, hReference] at hRefers
        obtain ⟨other, hOther, -⟩ := hRefers
        cases hText.symm.trans hOther
      · rw [Code.Refers, hReference] at hRefers
        obtain ⟨other, hOther, hBody, hSome⟩ := hRefers
        cases hText.symm.trans hOther
        exact hSome (hBody.symm.trans hNone)

end

namespace Decided

variable {sources : Sources} {cppDir : String} {d : Combine} {α β : Type}

theorem nil (a : α) : Decided sources cppDir d [] (.ok a) := .passed (by simp)

theorem passes {check : Check} (h : check.Passes sources cppDir d) (a : α) :
    Decided sources cppDir d [check] (.ok a) := .passed (List.forall_mem_singleton.mpr h)

theorem fails {check : Check} {e : Error} (h : check.FailsWith sources cppDir d e) :
    Decided sources cppDir d [check] (.error e : Except Error α) := by
  have hFailed : Decided sources cppDir d ([] ++ check :: []) (.error e : Except Error α) :=
    .failed (by simp) h
  exact hFailed

theorem append {checks : List Check} {x : Except Error α} (h : Decided sources cppDir d checks x)
    {e : Error} (hError : x = .error e) (more : List Check) :
    Decided sources cppDir d (checks ++ more) (.error e : Except Error β) := by
  cases h with
  | passed => cases hError
  | failed prior first =>
      cases hError
      rw [List.append_assoc, List.cons_append]
      exact .failed prior first

/-- Checks behind those that have been passed. -/
theorem cons_passed {checks more : List Check} {x : Except Error α}
    (hPassed : ∀ check ∈ checks, check.Passes sources cppDir d)
    (h : Decided sources cppDir d more x) : Decided sources cppDir d (checks ++ more) x := by
  cases h with
  | passed all => exact .passed (List.forall_mem_append.mpr ⟨hPassed, all⟩)
  | failed prior first =>
      rw [← List.append_assoc]
      exact .failed (List.forall_mem_append.mpr ⟨hPassed, prior⟩) first

theorem bind {first second : List Check} {x : Except Error α} {f : α → Except Error β}
    (hx : Decided sources cppDir d first x)
    (hf : ∀ a, x = .ok a → Decided sources cppDir d second (f a)) :
    Decided sources cppDir d (first ++ second) (x >>= f) := by
  cases x with
  | error e => exact hx.append rfl second
  | ok a =>
      cases hx with
      | passed all => exact cons_passed all (hf a rfl)

theorem mapM {checks : α → List Check} {f : α → Except Error β} {items : List α}
    (h : ∀ a ∈ items, Decided sources cppDir d (checks a) (f a)) :
    Decided sources cppDir d (items.flatMap checks) (items.mapM f) := by
  induction items with
  | nil => exact .nil _
  | cons a items ih =>
      obtain ⟨hHead, hTail⟩ := List.forall_mem_cons.mp h
      rw [List.mapM_cons, List.flatMap_cons]
      refine hHead.bind fun b _ => ?_
      have hRest := (ih hTail).bind fun bs _ => Decided.nil (b :: bs)
      rwa [List.append_nil] at hRest

theorem mapM_single {check : α → Check} {f : α → Except Error β} {items : List α}
    (h : ∀ a ∈ items, Decided sources cppDir d [check a] (f a)) :
    Decided sources cppDir d (items.map check) (items.mapM f) := by
  rw [List.map_eq_flatMap]
  exact mapM h

theorem map {checks : List Check} {x : Except Error α} (h : Decided sources cppDir d checks x)
    (f : α → β) : Decided sources cppDir d checks (x >>= fun a => pure (f a)) := by
  have hBind := h.bind fun a _ => Decided.nil (f a)
  rwa [List.append_nil] at hBind

theorem exists_ok_iff {checks : List Check} {x : Except Error α}
    (h : Decided sources cppDir d checks x) :
    (∃ a, x = .ok a) ↔ ∀ check ∈ checks, check.Passes sources cppDir d := by
  cases h with
  | passed all => exact ⟨fun _ => all, fun _ => ⟨_, rfl⟩⟩
  | @failed before after check e prior first =>
      constructor
      · rintro ⟨a, ha⟩
        cases ha
      · intro hAll
        exact absurd (hAll check (by simp)) (Check.not_passes_of_failsWith first)

end Decided

end Descriptor

theorem mapError_bind {α β ε ε' : Type} (x : Except ε α) (f : α → Except ε β) (g : ε → ε') :
    (x >>= f).mapError g = x.mapError g >>= fun a => (f a).mapError g := by
  cases x with
  | error e => rfl
  | ok a => rfl

theorem mapError_mapM {α β ε ε' : Type} (f : α → Except ε β) (g : ε → ε') (items : List α) :
    (items.mapM f).mapError g = items.mapM fun a => (f a).mapError g := by
  induction items with
  | nil => rfl
  | cons a items ih =>
      rw [List.mapM_cons, List.mapM_cons, mapError_bind]
      congr 1
      funext b
      rw [mapError_bind, ih]
      rfl

theorem map_eq_of_forall₂ {α β γ : Type} {r : α → β → Prop} {f : α → γ} {g : β → γ} {as : List α}
    {bs : List β} (h : List.Forall₂ r as bs) (hOne : ∀ a b, r a b → g b = f a) :
    bs.map g = as.map f := by
  induction h with
  | nil => rfl
  | cons hHead _ ih => rw [List.map_cons, List.map_cons, hOne _ _ hHead, ih]

theorem exists_of_forall₂_mem {α β : Type} {r : α → β → Prop} {as : List α} {bs : List β}
    (h : List.Forall₂ r as bs) {a : α} (ha : a ∈ as) : ∃ b ∈ bs, r a b := by
  induction h with
  | nil => cases ha
  | cons hHead _ ih =>
      rcases List.mem_cons.mp ha with rfl | ha
      · exact ⟨_, List.mem_cons_self, hHead⟩
      · obtain ⟨b, hb, hr⟩ := ih ha
        exact ⟨b, List.mem_cons_of_mem _ hb, hr⟩

namespace Combine

open Descriptor (Check Decided)

variable {s : Scope} {d : Descriptor.Combine}

theorem decided_codeOf (s : Scope) (d : Descriptor.Combine) (owner : String)
    (c : Descriptor.Code) :
    Decided s.sources s.cppDir d [.code c] (codeOf s owner c).outcome := by
  unfold codeOf Sources.body?
  cases hReference : c.reference with
  | none =>
      have hPasses : (Check.code c).Passes s.sources s.cppDir d := by
        refine ⟨none, ?_⟩
        rw [Descriptor.Code.Refers, hReference]
      exact .passes hPasses _
  | some r =>
      dsimp only
      cases hText : s.sources (Files.Path.join s.cppDir r.file) with
      | error os => exact .fails (Or.inl ⟨⟨r, os, hReference, hText⟩, rfl⟩)
      | ok text =>
          cases hBody : Source.body? text r.func with
          | none =>
              have hMissing : c.Missing s.sources s.cppDir := ⟨r, text, hReference, hText, hBody⟩
              simp only [hBody]
              refine .fails ?_
              exact Or.inr ⟨hMissing, rfl⟩
          | some body =>
              have hPasses : (Check.code c).Passes s.sources s.cppDir d := by
                refine ⟨some body, ?_⟩
                rw [Descriptor.Code.Refers, hReference]
                exact ⟨text, hText, hBody, Option.some_ne_none body⟩
              simp only [hBody]
              exact .passes hPasses _

theorem decided_signatureOf {sources : Sources} {cppDir : String} (d : Descriptor.Combine)
    (op : Descriptor.Operation) :
    Decided sources cppDir d [.signature op]
      ((signatureOf op).mapError fun cause => { cause := cause : Error }) := by
  have hNames : ((op.params.map paramOf ++ op.returns.map paramOf).map Param.name) =
      op.paramNames := by
    simp [Descriptor.Operation.paramNames, paramOf, Function.comp_def]
  have hDistinct := firstRepeat_eq_none_iff [] op.paramNames
  unfold signatureOf Signature.all
  dsimp only
  rw [hNames]
  cases hRepeat : firstRepeat [] op.paramNames with
  | none =>
      refine .passes ?_ _
      exact not_not.mpr (hDistinct.mp hRepeat).1
  | some name =>
      refine .fails ⟨fun hNodup => ?_, rfl⟩
      rw [hDistinct.mpr ⟨hNodup, by simp⟩] at hRepeat
      cases hRepeat

theorem decided_requestOf {sources : Sources} {cppDir : String} (d : Descriptor.Combine)
    (op : Descriptor.Operation) :
    Decided sources cppDir d [.signature op]
      ((requestOf op).mapError fun cause => { cause := cause : Error }) := by
  rw [requestOf, mapError_bind]
  exact (decided_signatureOf d op).map _

theorem decided_operationOf (s : Scope) (d : Descriptor.Combine) (role : Role)
    (op : Descriptor.Operation) :
    Decided s.sources s.cppDir d op.checks (operationOf s role op).outcome := by
  have hRest : ∀ f : Signature → Operation, Decided s.sources s.cppDir d [.signature op]
      (Traced.lift (signatureOf op) >>= fun signature => pure (f signature)).outcome := by
    intro f
    rw [Traced.outcome_bind]
    exact (decided_signatureOf d op).map f
  unfold operationOf Descriptor.Operation.checks
  cases op.body with
  | none =>
      dsimp only
      rw [Traced.outcome_bind]
      exact (Decided.nil _).bind fun _ _ => hRest _
  | some code =>
      dsimp only
      rw [Traced.outcome_bind]
      exact (decided_codeOf s d _ code).bind fun _ _ => hRest _

theorem decided_phaseOf (s : Scope) (d : Descriptor.Combine) (phase : String)
    (blocks : List Descriptor.Code) :
    Decided s.sources s.cppDir d (blocks.head?.toList.map .code)
      (phaseOf s phase blocks).outcome := by
  unfold phaseOf
  cases blocks with
  | nil => exact .nil _
  | cons first rest =>
      dsimp only
      split
      · rw [Traced.outcome_bind]
        exact decided_codeOf s d phase first
      · exact decided_codeOf s d phase first

theorem decided_tickOf {sources : Sources} {cppDir : String} (d : Descriptor.Combine)
    (field : Descriptor.Storage) :
    Decided sources cppDir d [.storage field]
      ((tickOf field).mapError fun cause => { cause := cause : Error }) := by
  unfold tickOf
  cases hType : ValueType.ofName field.type with
  | primitive p =>
      refine .passes ?_ _
      simp [Check.Passes, Check.Flawed, hType, ValueType.isPrimitive]
  | composite name =>
      refine .fails ⟨?_, rfl⟩
      simp [Check.Flawed, hType, ValueType.isPrimitive]

theorem decided_storageOf {sources : Sources} {cppDir : String} (d : Descriptor.Combine) :
    Decided sources cppDir d (d.storageTick.map .storage)
      ((storageOf d).mapError fun cause => { cause := cause : Error }) := by
  rw [storageOf, mapError_bind, mapError_mapM]
  exact (Decided.mapM_single fun field _ => decided_tickOf d field).map _

theorem isConfined_of_checkOwn {c : Combine} {seen names : List String} {cause : Cause}
    (h : c.checkOwn seen names = .error cause) : cause.isConfined = false := by
  induction names generalizing seen with
  | nil => cases h
  | cons name names ih =>
      rw [checkOwn] at h
      split at h
      · cases h
        rfl
      · split at h
        · cases h
          rfl
        · exact ih h

theorem isConfined_of_checkDerived {c : Combine} {taken : List String}
    {names : List (String × String)} {cause : Cause}
    (h : c.checkDerived taken names = .error cause) : cause.isConfined = false := by
  induction names generalizing taken with
  | nil => cases h
  | cons entry names ih =>
      rw [checkDerived] at h
      split at h
      · cases h
        rfl
      · exact ih h

/-- A combine with the names of a descriptor passes the check of its names if these fit. -/
theorem decided_checkNames {sources : Sources} {cppDir : String} {d : Descriptor.Combine}
    {c : Combine} (hName : c.name = d.name) (hStallable : c.stallable = d.stallable)
    (hMembers : c.memberNames = d.memberNames) :
    Decided sources cppDir d [.names]
      (c.checkNames.mapError fun cause => { cause := cause : Error }) := by
  have hFixed : ∀ n, n ∈ c.fixedNames ↔ n = d.name ∨ n ∈ d.builtinNames := by
    intro n
    simp only [fixedNames, Descriptor.Combine.builtinNames, hName, hStallable, List.mem_append,
      List.mem_cons, List.not_mem_nil, or_false]
    tauto
  have hFits : c.checkNames = .ok () ↔ d.NamesFit := by
    rw [checkNames_eq_ok_iff, hMembers]
    simp only [hFixed, not_or]
    constructor
    · rintro ⟨hNodup, hFree⟩
      exact ⟨hNodup, fun hClass => (hFree _ hClass).1 rfl, fun n hn => (hFree n hn).2⟩
    · rintro ⟨hNodup, hClass, hBuiltin⟩
      exact ⟨hNodup, fun n hn => ⟨fun hEq => hClass (hEq ▸ hn), hBuiltin n hn⟩⟩
  cases hCheck : c.checkNames with
  | ok =>
      refine .passes ?_ _
      exact not_not.mpr (hFits.mp hCheck)
  | error cause =>
      refine .fails ⟨fun hNames => ?_, ?_⟩
      · rw [hFits.mpr hNames] at hCheck
        cases hCheck
      · change cause.isConfined = false
        unfold checkNames at hCheck
        cases hOwn : c.checkOwn [] c.ownNames with
        | error other =>
            rw [hOwn] at hCheck
            cases hCheck
            exact isConfined_of_checkOwn hOwn
        | ok =>
            rw [hOwn] at hCheck
            exact isConfined_of_checkDerived hCheck

theorem of_requestOf {op : Descriptor.Operation} {r : Request} (h : requestOf op = .ok r) :
    r.name = op.name ∧ r.signature = op.signature := by
  obtain ⟨signature, hSignature, hPure⟩ := bind_eq_ok_iff.mp h
  cases hPure
  exact ⟨rfl, signature_of_signatureOf hSignature⟩

/-- A field that resets keeps its name, and no names are generated for it. -/
theorem names_of_tickOf {field : Descriptor.Storage} {t : Storage} (h : tickOf field = .ok t) :
    t.name = field.name ∧ storageNames t = [] := by
  unfold tickOf at h
  split at h
  · cases h
    exact ⟨rfl, rfl⟩
  · cases h

theorem names_of_storageOf {d : Descriptor.Combine} {storage : List Storage}
    (h : storageOf d = .ok storage) :
    storage.map Storage.name =
        (d.storage ++ d.storageNext ++ d.storageTick).map Descriptor.Storage.name ∧
      storage.flatMap storageNames = d.storageNext.flatMap fun s =>
        ["_storagenext_" ++ s.name, s.name ++ "_get", s.name ++ "_setnext"] := by
  obtain ⟨ticks, hTicks, hPure⟩ := bind_eq_ok_iff.mp h
  cases hPure
  have hEach := mapM_eq_ok_iff.mp hTicks
  have hNames : ticks.map Storage.name = d.storageTick.map Descriptor.Storage.name :=
    map_eq_of_forall₂ hEach fun _ _ hTick => (names_of_tickOf hTick).1
  have hNone : ticks.flatMap storageNames = [] := by
    rw [List.flatMap_eq_nil_iff]
    exact forall_of_forall₂ hEach fun _ _ hTick => (names_of_tickOf hTick).2
  constructor
  · simp [hNames, plainOf, nextOf, Storage.name, Function.comp_def]
  · simp [hNone, plainOf, nextOf, storageNames, List.flatMap_map]

/-- The members of the combine are those that the descriptor declares, whether or not their
names fit together. -/
structure HasMembers (d : Descriptor.Combine) (c : Combine) : Prop where
  pipes : c.pipes = d.pipeIn.map (pipeOf .input "Pipe input") ++
    d.pipeOut.map (pipeOf .output "Pipe output")
  requests : List.Forall₂ (fun op r => requestOf op = .ok r) d.requests c.requests
  operations : List.Forall₂
    (fun op (f : Operation) => f.name = op.name ∧ f.signature = op.signature)
    (d.services ++ d.functions) c.operations
  storage : storageOf d = .ok c.storage
  configs : c.configs = d.configs.map constantOf

namespace HasMembers

variable {c : Combine}

theorem ownNames (h : HasMembers d c) : c.ownNames = d.declaredNames := by
  have hRequests : c.requests.map Request.name = d.requests.map Descriptor.Operation.name :=
    map_eq_of_forall₂ h.requests fun _ _ hRequest => (of_requestOf hRequest).1
  have hOperations : c.operations.map Operation.name =
      (d.services ++ d.functions).map Descriptor.Operation.name :=
    map_eq_of_forall₂ h.operations fun _ _ hOperation => hOperation.1
  rw [Combine.ownNames, h.pipes, hRequests, hOperations, (names_of_storageOf h.storage).1,
    h.configs]
  simp [Descriptor.Combine.declaredNames, pipeOf, constantOf, Function.comp_def]

theorem derivedNames (h : HasMembers d c) : c.derivedNames.map Prod.fst = d.generatedNames := by
  have hRequests : c.requests.map (fun r => "_request_" ++ r.name) =
      d.requests.map fun r => "_request_" ++ r.name :=
    map_eq_of_forall₂ h.requests fun _ _ hRequest => by rw [(of_requestOf hRequest).1]
  rw [map_fst_derivedNames, h.pipes, hRequests, (names_of_storageOf h.storage).2]
  simp [Descriptor.Combine.generatedNames, pipeOf, pipeNames, List.flatMap_map]

theorem memberNames (h : HasMembers d c) : c.memberNames = d.memberNames := by
  rw [Combine.memberNames, h.ownNames, h.derivedNames, Descriptor.Combine.memberNames]

theorem paramNames (h : HasMembers d c) :
    (c.signatures.flatMap fun s => s.all.map Param.name) = d.paramNames := by
  have hOne : ∀ op : Descriptor.Operation, op.signature.all.map Param.name = op.paramNames := by
    intro op
    simp [Descriptor.Operation.signature, Signature.all, Descriptor.Operation.paramNames, paramOf,
      Function.comp_def]
  have hRequests : c.requests.map Request.signature =
      d.requests.map Descriptor.Operation.signature :=
    map_eq_of_forall₂ h.requests fun _ _ hRequest => (of_requestOf hRequest).2
  have hOperations : c.operations.map Operation.signature =
      (d.services ++ d.functions).map Descriptor.Operation.signature :=
    map_eq_of_forall₂ h.operations fun _ _ hOperation => hOperation.2
  rw [signatures, hRequests, hOperations, ← List.map_append, List.flatMap_map, ← List.append_assoc]
  simp only [hOne]
  rfl

end HasMembers

/-- Members that are elaborated one by one make up those of a combine. -/
theorem hasMembers_of_parts {requests : List Request} {services helpers : List Operation}
    {storage : List Storage} (hRequests : d.requests.mapM requestOf = .ok requests)
    (hServices : (d.services.mapM fun op => (operationOf s .service op).outcome) = .ok services)
    (hHelpers : (d.functions.mapM fun op => (operationOf s .helper op).outcome) = .ok helpers)
    (hStorage : storageOf d = .ok storage) (name comment : String) (init tick applyTick : Code)
    (stallable : Bool) :
    HasMembers d
      { name, comment
        pipes := d.pipeIn.map (pipeOf .input "Pipe input") ++
          d.pipeOut.map (pipeOf .output "Pipe output")
        requests, operations := services ++ helpers, storage
        configs := d.configs.map constantOf
        init, tick, applyTick, stallable } where
  pipes := rfl
  requests := mapM_eq_ok_iff.mp hRequests
  operations := by
    refine List.rel_append ((mapM_eq_ok_iff.mp hServices).imp fun _ _ hOne => ?_)
      ((mapM_eq_ok_iff.mp hHelpers).imp fun _ _ hOne => ?_)
    · exact ⟨(of_operationOf hOne).1, (of_operationOf hOne).2.1⟩
    · exact ⟨(of_operationOf hOne).1, (of_operationOf hOne).2.1⟩
  storage := hStorage
  configs := rfl

theorem hasMembers_of_ofDescriptor {sources : Sources} {cppDir : String} {c : Combine}
    (h : (ofDescriptor sources cppDir d).outcome = .ok c) : HasMembers d c := by
  simp only [ofDescriptor, Traced.outcome_bind_eq_ok_iff, Traced.outcome_pure,
    Traced.outcome_mapM, Traced.outcome_lift, mapError_eq_ok_iff] at h
  obtain ⟨requests, hRequests, services, hServices, helpers, hHelpers, init, -, tick, -, applyTick,
    -, storage, hStorage, _, -, hPure⟩ := h
  cases hPure
  exact hasMembers_of_parts hRequests hServices hHelpers hStorage ..

/-- The outcome of elaborating a combine is the one that its checks lead to. -/
theorem decided_ofDescriptor (sources : Sources) (cppDir : String) (d : Descriptor.Combine) :
    Decided sources cppDir d d.checks (ofDescriptor sources cppDir d).outcome := by
  let s : Scope := { sources, cppDir, combine := d.name }
  have hChecks : d.checks = d.requests.map Check.signature ++
      (d.services.flatMap Descriptor.Operation.checks ++
        (d.functions.flatMap Descriptor.Operation.checks ++ (d.init.map Check.code ++
          (d.tick.head?.toList.map Check.code ++ (d.applyTick.head?.toList.map Check.code ++
            (d.storageTick.map Check.storage ++ ([Check.names] ++ []))))))) := by
    simp [Descriptor.Combine.checks]
  rw [hChecks]
  simp only [ofDescriptor, Traced.outcome_bind, Traced.outcome_mapM, Traced.outcome_lift]
  refine .bind ?_ fun requests hRequests => ?_
  · rw [mapError_mapM]
    exact .mapM_single fun op _ => decided_requestOf d op
  refine .bind (.mapM fun op _ => decided_operationOf s d .service op) fun services hServices => ?_
  refine .bind (.mapM fun op _ => decided_operationOf s d .helper op) fun helpers hHelpers => ?_
  refine .bind (.mapM_single fun c _ => decided_codeOf s d "init" c) fun init _ => ?_
  refine .bind (decided_phaseOf s d "tick" d.tick) fun tick _ => ?_
  refine .bind (decided_phaseOf s d "applytick" d.applyTick) fun applyTick _ => ?_
  refine .bind (decided_storageOf d) fun storage hStorage => ?_
  have hMembers := hasMembers_of_parts (mapError_eq_ok_iff.mp hRequests) hServices hHelpers
    (mapError_eq_ok_iff.mp hStorage) d.name (d.comment.getD ("Combine " ++ d.name)) init.flatten
    tick applyTick d.stallable
  exact .bind (decided_checkNames rfl rfl hMembers.memberNames) fun _ _ => .nil _

/-- A combine can be built exactly if it passes all checks. -/
theorem ofDescriptor_succeeds_iff {sources : Sources} {cppDir : String} {d : Descriptor.Combine} :
    (∃ c, (ofDescriptor sources cppDir d).outcome = .ok c) ↔
      ∀ check ∈ d.checks, check.Passes sources cppDir d :=
  (decided_ofDescriptor sources cppDir d).exists_ok_iff

end Combine

end Simgen
