import Simgen.Proofs.Design.Checks

/-! Comments only ever turn into comments. Whether a project is accepted does not depend on them,
nor does anything else of its design. -/
namespace Simgen

section agreement

variable {α β γ δ ε ε' : Type} {e : α → γ} {e' : β → δ}

/-- Computations that agree, apart from what `e` leaves out of their results, do so in a sequence
with others that do. -/
theorem map_bind_eq {x y : Except ε α} {f g : α → Except ε β} (hxy : x.map e = y.map e)
    (hfg : ∀ a b, e a = e b → (f a).map e' = (g b).map e') :
    (x >>= f).map e' = (y >>= g).map e' := by
  cases x with
  | error reason =>
      cases y with
      | error other => exact congrArg Except.error (Except.error.inj hxy)
      | ok b => cases hxy
  | ok a =>
      cases y with
      | error other => cases hxy
      | ok b => exact hfg a b (Except.ok.inj hxy)

theorem map_mapM_eq {f : α → Except ε β} {as bs : List α} (h : as.map e = bs.map e)
    (hf : ∀ a b, e a = e b → (f a).map e' = (f b).map e') :
    (as.mapM f).map (List.map e') = (bs.mapM f).map (List.map e') := by
  induction as generalizing bs with
  | nil =>
      obtain rfl : bs = [] := List.map_eq_nil_iff.mp h.symm
      rfl
  | cons a as ih =>
      obtain ⟨b, bs, rfl, hab, hRest⟩ := List.map_eq_cons_iff.mp h.symm
      rw [List.mapM_cons, List.mapM_cons]
      refine map_bind_eq (hf a b hab.symm) fun c d hcd => ?_
      refine map_bind_eq (ih hRest.symm) fun cs ds hMore => ?_
      exact congrArg Except.ok (List.cons_eq_cons.mpr ⟨hcd, hMore⟩)

theorem map_mapError_eq {x y : Except ε α} (h : x.map e = y.map e) (f : ε → ε') :
    (x.mapError f).map e = (y.mapError f).map e := by
  have hSwap : ∀ z : Except ε α, (z.mapError f).map e = (z.map e).mapError f := by
    intro z
    cases z <;> rfl
  rw [hSwap, hSwap, h]

theorem exists_ok_of_map_eq {x y : Except ε α} (h : x.map e = y.map e) {a : α} (hx : x = .ok a) :
    ∃ b, y = .ok b ∧ e a = e b := by
  subst hx
  cases y with
  | error other => cases h
  | ok b => exact ⟨b, rfl, Except.ok.inj h⟩

/-- What `u` leaves out of the items makes no difference, if `e` leaves out what becomes of it. -/
theorem map_map_eq {u : α → α} {f : α → β} {as bs : List α} (h : as.map u = bs.map u)
    (hf : ∀ a, e' (f (u a)) = e' (f a)) : (as.map f).map e' = (bs.map f).map e' := by
  have hAll : ∀ items : List α, (items.map f).map e' = (items.map u).map (e' ∘ f) := by
    intro items
    rw [List.map_map, List.map_map]
    exact List.map_congr_left fun a _ => (hf a).symm
  rw [hAll, hAll, h]

/-- Lists that agree item by item. -/
theorem forall₂_of_map_eq {as bs : List α} (h : as.map e = bs.map e) :
    List.Forall₂ (fun a b => a ∈ as ∧ b ∈ bs ∧ e a = e b) as bs := by
  induction as generalizing bs with
  | nil =>
      obtain rfl : bs = [] := List.map_eq_nil_iff.mp h.symm
      exact .nil
  | cons a as ih =>
      obtain ⟨b, bs, rfl, hab, hRest⟩ := List.map_eq_cons_iff.mp h.symm
      refine .cons ⟨List.mem_cons_self, List.mem_cons_self, hab.symm⟩ ?_
      refine (ih hRest.symm).imp fun c d hcd => ?_
      exact ⟨List.mem_cons_of_mem _ hcd.1, List.mem_cons_of_mem _ hcd.2.1, hcd.2.2⟩

end agreement

namespace Descriptor

def Pipe.uncommented (d : Pipe) : Pipe := { d with comment := none }

def Param.uncommented (d : Param) : Param := { d with comment := none }

def Operation.uncommented (d : Operation) : Operation :=
  { d with
    comment := none
    params := d.params.map Param.uncommented
    returns := d.returns.map Param.uncommented }

def Storage.uncommented (d : Storage) : Storage := { d with comment := none }

def Constant.uncommented (d : Constant) : Constant := { d with comment := none }

/-- The descriptor without its comments. -/
def Combine.uncommented (d : Combine) : Combine :=
  { d with
    comment := none
    pipeIn := d.pipeIn.map Pipe.uncommented
    pipeOut := d.pipeOut.map Pipe.uncommented
    requests := d.requests.map Operation.uncommented
    services := d.services.map Operation.uncommented
    functions := d.functions.map Operation.uncommented
    storage := d.storage.map Storage.uncommented
    storageNext := d.storageNext.map Storage.uncommented
    storageTick := d.storageTick.map Storage.uncommented
    configs := d.configs.map Constant.uncommented }

end Descriptor

/-- The comments on an operation, its parameters and what it returns. -/
def Descriptor.Operation.comments (d : Operation) : List String :=
  d.comment.toList ++ (d.params ++ d.returns).filterMap Param.comment

/-- All comments that are given in a descriptor. -/
def Descriptor.Combine.comments (d : Combine) : List String :=
  d.comment.toList ++ (d.pipeIn ++ d.pipeOut).filterMap Pipe.comment ++
    (d.requests ++ d.services ++ d.functions).flatMap Operation.comments ++
    (d.storage ++ d.storageNext ++ d.storageTick).filterMap Storage.comment ++
    d.configs.filterMap Constant.comment

/-- The project without the comments of its descriptors. -/
def Project.uncommented (p : Project) : Project :=
  { p with combines := p.combines.map Descriptor.Combine.uncommented }

def Pipe.uncommented (p : Pipe) : Pipe := { p with comment := "" }

def Param.uncommented (p : Param) : Param := { p with comment := "" }

def Signature.uncommented (s : Signature) : Signature :=
  { params := s.params.map Param.uncommented, returns := s.returns.map Param.uncommented }

def Request.uncommented (r : Request) : Request :=
  { r with signature := r.signature.uncommented, comment := "" }

def Operation.uncommented (f : Operation) : Operation :=
  { f with signature := f.signature.uncommented, comment := "" }

def Storage.uncommented : Storage → Storage
  | plain name type default _ => plain name type default ""
  | next name type default _ => next name type default ""
  | tick name type default _ => tick name type default ""

def Constant.uncommented (c : Constant) : Constant := { c with comment := "" }

/-- The combine with all its comments empty. -/
def Combine.uncommented (c : Combine) : Combine :=
  { c with
    comment := ""
    pipes := c.pipes.map Pipe.uncommented
    requests := c.requests.map Request.uncommented
    operations := c.operations.map Operation.uncommented
    storage := c.storage.map Storage.uncommented
    configs := c.configs.map Constant.uncommented }

def Storage.comment : Storage → String
  | plain _ _ _ comment => comment
  | next _ _ _ comment => comment
  | tick _ _ _ comment => comment

/-- Each comment of the combine has the property. -/
structure Combine.Commented (P : String → Prop) (c : Combine) : Prop where
  own : P c.comment
  pipes : ∀ p ∈ c.pipes, P p.comment
  requests : ∀ r ∈ c.requests, P r.comment
  operations : ∀ f ∈ c.operations, P f.comment
  storage : ∀ s ∈ c.storage, P s.comment
  configs : ∀ t ∈ c.configs, P t.comment
  params : ∀ s ∈ c.signatures, ∀ p ∈ s.all, P p.comment

/-- The design with all comments empty. -/
def Design.uncommented (d : Design) : Design :=
  { d with combines := d.combines.map Combine.uncommented }

namespace Combine

variable {sources : Sources} {cppDir : String}

theorem signature_uncommented (d : Descriptor.Operation) :
    d.uncommented.signature = d.signature.uncommented := by
  simp [Signature.uncommented, Descriptor.Operation.signature, Descriptor.Operation.uncommented,
    Param.uncommented, Descriptor.Param.uncommented, paramOf, Function.comp_def]

theorem names_uncommented (s : Signature) :
    s.uncommented.all.map Param.name = s.all.map Param.name := by
  simp [Signature.uncommented, Signature.all, Param.uncommented, Function.comp_def]

theorem of_uncommented_eq {d d' : Descriptor.Operation} (h : d.uncommented = d'.uncommented) :
    d.name = d'.name ∧ d.body = d'.body ∧
      d.signature.uncommented = d'.signature.uncommented := by
  have hName := congrArg Descriptor.Operation.name h
  have hBody := congrArg Descriptor.Operation.body h
  have hSignature := congrArg Descriptor.Operation.signature h
  rw [signature_uncommented, signature_uncommented] at hSignature
  exact ⟨hName, hBody, hSignature⟩

theorem map_signatureOf {d d' : Descriptor.Operation} (h : d.uncommented = d'.uncommented) :
    (signatureOf d).map Signature.uncommented = (signatureOf d').map Signature.uncommented := by
  obtain ⟨hName, -, hSignature⟩ := of_uncommented_eq h
  have hNames : d.signature.all.map Param.name = d'.signature.all.map Param.name := by
    rw [← names_uncommented, hSignature, names_uncommented]
  simp only [Descriptor.Operation.signature] at hNames hSignature
  unfold signatureOf
  dsimp only
  rw [hNames, hName]
  cases firstRepeat [] _ with
  | some name => rfl
  | none => exact congrArg Except.ok hSignature

theorem map_requestOf {d d' : Descriptor.Operation} (h : d.uncommented = d'.uncommented) :
    (requestOf d).map Request.uncommented = (requestOf d').map Request.uncommented := by
  obtain ⟨hName, -, -⟩ := of_uncommented_eq h
  refine map_bind_eq (map_signatureOf h) fun s s' hSignature => ?_
  simp [Except.map, pure, Except.pure, Request.uncommented, hName, hSignature]

theorem map_operationOf {d d' : Descriptor.Operation} (h : d.uncommented = d'.uncommented)
    (s : Scope) (role : Role) :
    (operationOf s role d).outcome.map Operation.uncommented =
      (operationOf s role d').outcome.map Operation.uncommented := by
  obtain ⟨hName, hBody, -⟩ := of_uncommented_eq h
  unfold operationOf
  rw [hName, hBody]
  cases d'.body
  all_goals
    simp only [Traced.outcome_bind, Traced.outcome_lift]
    refine map_bind_eq (e := id) rfl fun code code' hCode => ?_
    obtain rfl : code = code' := hCode
    refine map_bind_eq (map_mapError_eq (map_signatureOf h) _) fun s s' hSignature => ?_
    simp [Except.map, Operation.uncommented, hSignature]

theorem map_tickOf {d d' : Descriptor.Storage} (h : d.uncommented = d'.uncommented) :
    (tickOf d).map Storage.uncommented = (tickOf d').map Storage.uncommented := by
  obtain ⟨name, type, value, comment⟩ := d
  obtain ⟨name', type', value', comment'⟩ := d'
  obtain ⟨rfl, rfl, rfl⟩ : name = name' ∧ type = type' ∧ value = value' := by
    simpa [Descriptor.Storage.uncommented] using h
  dsimp only [tickOf]
  cases ValueType.ofName type with
  | primitive type => rfl
  | composite type => rfl

theorem map_storageOf {d d' : Descriptor.Combine} (h : d.uncommented = d'.uncommented) :
    (storageOf d).map (List.map Storage.uncommented) =
      (storageOf d').map (List.map Storage.uncommented) := by
  simp only [Descriptor.Combine.uncommented, Descriptor.Combine.mk.injEq] at h
  obtain ⟨-, -, -, -, -, -, -, -, hPlain, hNext, hTick, -⟩ := h
  refine map_bind_eq (map_mapM_eq hTick fun _ _ => map_tickOf) fun ticks ticks' hTicks => ?_
  refine congrArg Except.ok ?_
  rw [List.map_append, List.map_append, List.map_append, List.map_append, hTicks,
    map_map_eq hPlain fun _ => rfl, map_map_eq hNext fun _ => rfl]

theorem checkOwn_uncommented (c : Combine) (seen names : List String) :
    c.uncommented.checkOwn seen names = c.checkOwn seen names := by
  induction names generalizing seen with
  | nil => rfl
  | cons name names ih =>
      rw [checkOwn, checkOwn, ih]
      rfl

theorem checkDerived_uncommented (c : Combine) (taken : List String)
    (names : List (String × String)) :
    c.uncommented.checkDerived taken names = c.checkDerived taken names := by
  induction names generalizing taken with
  | nil => rfl
  | cons name names ih =>
      obtain ⟨name, owner⟩ := name
      rw [checkDerived, checkDerived, ih]
      rfl

theorem ownNames_uncommented (c : Combine) : c.uncommented.ownNames = c.ownNames := by
  have hStorage : ∀ s : Storage, s.uncommented.name = s.name := by
    intro s
    cases s <;> rfl
  simp only [ownNames, uncommented, List.map_map, Function.comp_def, hStorage]
  rfl

theorem derivedNames_uncommented (c : Combine) : c.uncommented.derivedNames = c.derivedNames := by
  have hStorage : ∀ s : Storage, s.uncommented.name = s.name ∧
      storageNames s.uncommented = storageNames s := by
    intro s
    cases s <;> exact ⟨rfl, rfl⟩
  simp only [derivedNames, uncommented, List.flatMap_map, List.map_map, Function.comp_def, hStorage]
  rfl

/-- The check of names does not look at comments. -/
theorem checkNames_uncommented (c : Combine) : c.uncommented.checkNames = c.checkNames := by
  have hFixed : c.uncommented.fixedNames = c.fixedNames := rfl
  rw [checkNames, checkNames, checkOwn_uncommented, checkDerived_uncommented, ownNames_uncommented,
    derivedNames_uncommented, hFixed]

/-- Comments change nothing about a combine but its comments. -/
theorem map_ofDescriptor {d d' : Descriptor.Combine} (h : d.uncommented = d'.uncommented)
    (sources : Sources) (cppDir : String) :
    (ofDescriptor sources cppDir d).outcome.map uncommented =
      (ofDescriptor sources cppDir d').outcome.map uncommented := by
  have hStorageOf := map_storageOf h
  simp only [Descriptor.Combine.uncommented, Descriptor.Combine.mk.injEq] at h
  obtain ⟨hName, -, -, hPipeIn, hPipeOut, hRequests, hServices, hFunctions, -, -, -, hConfigs,
    hInit, hTick, hApplyTick, hStallable⟩ := h
  simp only [ofDescriptor, Traced.outcome_bind, Traced.outcome_mapM, Traced.outcome_lift,
    hName, hInit, hTick, hApplyTick, hStallable]
  refine map_bind_eq (map_mapError_eq (map_mapM_eq hRequests fun _ _ => map_requestOf) _) ?_
  intro requests requests' hBuiltRequests
  refine map_bind_eq (map_mapM_eq hServices fun _ _ hOne => map_operationOf hOne _ _) ?_
  intro services services' hBuiltServices
  refine map_bind_eq (map_mapM_eq hFunctions fun _ _ hOne => map_operationOf hOne _ _) ?_
  intro helpers helpers' hBuiltHelpers
  refine map_bind_eq (e := id) rfl fun init init' hEq => ?_
  obtain rfl : init = init' := hEq
  refine map_bind_eq (e := id) rfl fun tick tick' hEq => ?_
  obtain rfl : tick = tick' := hEq
  refine map_bind_eq (e := id) rfl fun applyTick applyTick' hEq => ?_
  obtain rfl : applyTick = applyTick' := hEq
  refine map_bind_eq (map_mapError_eq hStorageOf _) ?_
  intro storage storage' hBuiltStorage
  have hPipes : (d.pipeIn.map (pipeOf .input "Pipe input") ++
        d.pipeOut.map (pipeOf .output "Pipe output")).map Pipe.uncommented =
      (d'.pipeIn.map (pipeOf .input "Pipe input") ++
        d'.pipeOut.map (pipeOf .output "Pipe output")).map Pipe.uncommented := by
    rw [List.map_append, List.map_append, map_map_eq hPipeIn fun _ => rfl,
      map_map_eq hPipeOut fun _ => rfl]
  have hOperations : (services ++ helpers).map Operation.uncommented =
      (services' ++ helpers').map Operation.uncommented := by
    rw [List.map_append, List.map_append, hBuiltServices, hBuiltHelpers]
  have hConstants : (d.configs.map constantOf).map Constant.uncommented =
      (d'.configs.map constantOf).map Constant.uncommented := map_map_eq hConfigs fun _ => rfl
  have hSame : ∀ comment comment' : String,
      uncommented ⟨d'.name, comment, d.pipeIn.map (pipeOf .input "Pipe input") ++
        d.pipeOut.map (pipeOf .output "Pipe output"), requests, services ++ helpers, storage,
        d.configs.map constantOf, init.flatten, tick, applyTick, d'.stallable⟩ =
      uncommented ⟨d'.name, comment', d'.pipeIn.map (pipeOf .input "Pipe input") ++
        d'.pipeOut.map (pipeOf .output "Pipe output"), requests', services' ++ helpers', storage',
        d'.configs.map constantOf, init.flatten, tick, applyTick, d'.stallable⟩ := by
    intro comment comment'
    simp only [uncommented, hPipes, hBuiltRequests, hOperations, hBuiltStorage, hConstants]
  refine map_bind_eq (e := id) ?_ fun _ _ _ => congrArg Except.ok (hSame _ _)
  rw [← checkNames_uncommented, hSame _ (d'.comment.getD ("Combine " ++ d'.name)),
    checkNames_uncommented]

/-- A combine that is dropped is dropped whatever its comments are. -/
theorem map_attempt {d d' : Descriptor.Combine} (h : d.uncommented = d'.uncommented)
    (sources : Sources) (cppDir : String) :
    (attempt sources cppDir d).outcome.map (Option.map uncommented) =
      (attempt sources cppDir d').outcome.map (Option.map uncommented) := by
  have hSource : d.source = d'.source := by
    simp only [Descriptor.Combine.uncommented, Descriptor.Combine.mk.injEq] at h
    exact h.2.2.1
  have hRun : ((ofDescriptor sources cppDir d).blaming d.source).outcome.map uncommented =
      ((ofDescriptor sources cppDir d').blaming d'.source).outcome.map uncommented := by
    rw [Traced.outcome_blaming, Traced.outcome_blaming, hSource]
    exact map_mapError_eq (map_ofDescriptor h sources cppDir) _
  unfold attempt
  dsimp only
  generalize ((ofDescriptor sources cppDir d).blaming d.source).outcome = built at hRun ⊢
  generalize ((ofDescriptor sources cppDir d').blaming d'.source).outcome = built' at hRun ⊢
  -- Both are built or neither is, and what is left of a failure depends on the error only.
  cases built with
  | ok c =>
      obtain ⟨c', rfl, hSame⟩ := exists_ok_of_map_eq hRun rfl
      exact congrArg (fun c => Except.ok (some c)) hSame
  | error e =>
      cases built' with
      | ok c' => cases hRun
      | error e' =>
          cases hRun
          cases hConfined : e.isConfined with
          | true => simp [Except.map, hConfined]
          | false => simp [Except.map, hConfined]

/-- What a comment begins with where the descriptor gives none. -/
def defaultComments : List String :=
  ["Combine ", "Pipe input ", "Pipe output ", "Request ", "Service ", "Function ", "Storage ",
    "Config "]

section commenting

variable {P : String → Prop} {d : Descriptor.Combine} {c : Combine}

theorem of_getD {comment : Option String} {default : String} (h : ∀ t ∈ comment, P t)
    (hDefault : P default) : P (comment.getD default) := by
  cases comment with
  | none => exact hDefault
  | some t => exact h t rfl

theorem commented_signature (hEmpty : P "") {op : Descriptor.Operation}
    (h : ∀ t ∈ op.comments, P t) : ∀ p ∈ op.signature.all, P p.comment := by
  have hParams : op.signature.all = (op.params ++ op.returns).map paramOf := by
    simp [Descriptor.Operation.signature, Signature.all]
  rw [hParams, List.forall_mem_map]
  intro p hp
  have hComment : ∀ t ∈ p.comment, P t := fun t ht =>
    h t (List.mem_append_right _ (List.mem_filterMap.mpr ⟨p, hp, ht⟩))
  exact of_getD hComment hEmpty

theorem comment_of_operationOf {s : Scope} {role : Role} {op : Descriptor.Operation} {f : Operation}
    (h : (operationOf s role op).outcome = .ok f) :
    ∃ front ∈ defaultComments, f.comment = op.comment.getD (front ++ op.name) := by
  unfold operationOf at h
  cases hBody : op.body
  all_goals
    rw [hBody] at h
    obtain ⟨body, -, hRest⟩ := Traced.outcome_bind_eq_ok_iff.mp h
    obtain ⟨signature, -, hResult⟩ := Traced.outcome_bind_eq_ok_iff.mp hRest
    cases hResult
    cases role with
    | service => exact ⟨"Service ", by decide, rfl⟩
    | helper => exact ⟨"Function ", by decide, rfl⟩

theorem comment_of_storageOf {d : Descriptor.Combine} {storage : List Storage}
    (h : storageOf d = .ok storage) :
    storage.map Storage.comment =
      (d.storage ++ d.storageNext ++ d.storageTick).map storageComment := by
  obtain ⟨ticks, hTicks, hPure⟩ := bind_eq_ok_iff.mp h
  cases hPure
  have hTick : ticks.map Storage.comment = d.storageTick.map storageComment := by
    refine map_eq_of_forall₂ (mapM_eq_ok_iff.mp hTicks) fun field t hOne => ?_
    unfold tickOf at hOne
    split at hOne
    · cases hOne
      rfl
    · cases hOne
  rw [List.map_append, hTick, List.map_append, List.map_append, List.map_append, List.map_map,
    List.map_map]
  rfl

theorem comment_of_requestOf {op : Descriptor.Operation} {r : Request} (h : requestOf op = .ok r) :
    r.comment = op.comment.getD ("Request " ++ op.name) := by
  obtain ⟨signature, -, hPure⟩ := bind_eq_ok_iff.mp h
  cases hPure
  rfl

theorem comments_of_ofDescriptor {sources : Sources} {cppDir : String}
    (h : (ofDescriptor sources cppDir d).outcome = .ok c) :
    c.comment = d.comment.getD ("Combine " ++ d.name) ∧
      List.Forall₂
        (fun op (f : Operation) => ∃ front ∈ defaultComments,
          f.comment = op.comment.getD (front ++ op.name))
        (d.services ++ d.functions) c.operations := by
  simp only [ofDescriptor, Traced.outcome_bind_eq_ok_iff, Traced.outcome_pure,
    Traced.outcome_mapM, mapM_eq_ok_iff] at h
  obtain ⟨_, -, services, hServices, helpers, hHelpers, _, -, _, -, _, -, _, -, _, -, hPure⟩ := h
  cases hPure
  exact ⟨rfl, List.rel_append (hServices.imp fun _ _ hOne => comment_of_operationOf hOne)
    (hHelpers.imp fun _ _ hOne => comment_of_operationOf hOne)⟩

/-- The comments of a combine are those of its descriptor, and defaults where it gives none. -/
theorem commented_of_ofDescriptor {sources : Sources} {cppDir : String} (hEmpty : P "")
    (hDefault : ∀ n ∈ d.name :: d.declaredNames, ∀ front ∈ defaultComments, P (front ++ n))
    (hGiven : ∀ t ∈ d.comments, P t) (h : (ofDescriptor sources cppDir d).outcome = .ok c) :
    c.Commented P := by
  have hMembers := hasMembers_of_ofDescriptor h
  obtain ⟨hClass, hOperations⟩ := comments_of_ofDescriptor h
  simp only [Descriptor.Combine.declaredNames, List.forall_mem_cons, List.forall_mem_append,
    List.forall_mem_map] at hDefault
  obtain ⟨hName, ⟨⟨⟨⟨hInName, hOutName⟩, hRequestName⟩, hServiceName, hFunctionName⟩,
    ⟨hPlainName, hNextName⟩, hTickName⟩, hConfigName⟩ := hDefault
  simp only [Descriptor.Combine.comments, List.forall_mem_append, List.forall_mem_filterMap,
    List.forall_mem_flatMap, Option.mem_toList] at hGiven
  obtain ⟨⟨⟨⟨hOwn, hPipeIn, hPipeOut⟩, ⟨hRequests, hServices⟩, hFunctions⟩,
    ⟨hPlain, hNext⟩, hTick⟩, hConfigs⟩ := hGiven
  have hCode : ∀ op ∈ d.services ++ d.functions, ∀ t ∈ op.comments, P t :=
    List.forall_mem_append.mpr ⟨hServices, hFunctions⟩
  have hCodeName :
      ∀ op ∈ d.services ++ d.functions, ∀ front ∈ defaultComments, P (front ++ op.name) :=
    List.forall_mem_append.mpr ⟨hServiceName, hFunctionName⟩
  have hComment : ∀ op : Descriptor.Operation, (∀ t ∈ op.comments, P t) → ∀ t ∈ op.comment, P t :=
    fun op hAll t ht => hAll t (List.mem_append_left _ (Option.mem_toList.mpr ht))
  constructor
  case own =>
    rw [hClass]
    exact of_getD hOwn (hName "Combine " (by decide))
  case pipes =>
    simp only [hMembers.pipes, List.forall_mem_append, List.forall_mem_map]
    constructor
    · exact fun p hp => of_getD (hPipeIn p hp) (hInName p hp "Pipe input " (by decide))
    · exact fun p hp => of_getD (hPipeOut p hp) (hOutName p hp "Pipe output " (by decide))
  case requests =>
    intro r hr
    obtain ⟨op, hop, hOne⟩ := exists_of_forall₂_mem hMembers.requests.flip hr
    rw [comment_of_requestOf hOne]
    exact of_getD (hComment op (hRequests op hop)) (hRequestName op hop "Request " (by decide))
  case operations =>
    intro f hf
    obtain ⟨op, hop, front, hFront, hEq⟩ := exists_of_forall₂_mem hOperations.flip hf
    rw [hEq]
    exact of_getD (hComment op (hCode op hop)) (hCodeName op hop front hFront)
  case storage =>
    have hAll : ∀ t ∈ c.storage.map Storage.comment, P t := by
      rw [comment_of_storageOf hMembers.storage]
      simp only [List.forall_mem_append, List.forall_mem_map]
      exact ⟨⟨fun s hs => of_getD (hPlain s hs) (hPlainName s hs "Storage " (by decide)),
        fun s hs => of_getD (hNext s hs) (hNextName s hs "Storage " (by decide))⟩,
        fun s hs => of_getD (hTick s hs) (hTickName s hs "Storage " (by decide))⟩
    exact List.forall_mem_map.mp hAll
  case configs =>
    rw [hMembers.configs, List.forall_mem_map]
    exact fun t ht => of_getD (hConfigs t ht) (hConfigName t ht "Config " (by decide))
  case params =>
    rw [signatures, List.forall_mem_append, List.forall_mem_map, List.forall_mem_map]
    constructor
    · intro r hr
      obtain ⟨op, hop, hOne⟩ := exists_of_forall₂_mem hMembers.requests.flip hr
      rw [(of_requestOf hOne).2]
      exact commented_signature hEmpty (hRequests op hop)
    · intro f hf
      obtain ⟨op, hop, -, hSignature⟩ := exists_of_forall₂_mem hMembers.operations.flip hf
      rw [hSignature]
      exact commented_signature hEmpty (hCode op hop)

end commenting

end Combine

namespace Design

theorem map_combinesOf {ds ds' : List Descriptor.Combine}
    (h : ds.map Descriptor.Combine.uncommented = ds'.map Descriptor.Combine.uncommented)
    (sources : Sources) (cppDir : String) (seen : List String) :
    (combinesOf sources cppDir seen ds).outcome.map (List.map Combine.uncommented) =
      (combinesOf sources cppDir seen ds').outcome.map (List.map Combine.uncommented) := by
  induction ds generalizing ds' seen with
  | nil =>
      obtain rfl : ds' = [] := List.map_eq_nil_iff.mp h.symm
      rfl
  | cons d ds ih =>
      obtain ⟨d', ds', rfl, hOne, hRest⟩ := List.map_eq_cons_iff.mp h.symm
      have hSame := hOne
      simp only [Descriptor.Combine.uncommented, Descriptor.Combine.mk.injEq] at hSame
      obtain ⟨hName, -, hSource, -⟩ := hSame
      rw [combinesOf, combinesOf, hName, hSource]
      split
      · rfl
      · simp only [Traced.outcome_bind]
        refine map_bind_eq (Combine.map_attempt hOne.symm sources cppDir) fun c c' hBuilt => ?_
        refine map_bind_eq (ih hRest.symm _) fun cs cs' hMore => ?_
        refine congrArg Except.ok ?_
        rw [List.map_append, List.map_append, ← Option.toList_map, ← Option.toList_map, hBuilt,
          hMore]

/-- Elaboration accepts and refuses projects whatever their comments are, and leaves the same
design up to comments. -/
theorem map_elaborate {p q : Project} (h : p.uncommented = q.uncommented) (sources : Sources) :
    (elaborate sources p).outcome.map uncommented =
      (elaborate sources q).outcome.map uncommented := by
  simp only [Project.uncommented, Project.mk.injEq] at h
  obtain ⟨hDir, hBundles, hCombines⟩ := h
  simp only [elaborate, Traced.outcome_bind, Traced.outcome_ofExcept, hDir, hBundles]
  refine map_bind_eq (e := id) rfl fun bundles bundles' hEq => ?_
  obtain rfl : bundles = bundles' := hEq
  refine map_bind_eq (e := id) rfl fun order order' hEq => ?_
  obtain rfl : order = order' := hEq
  refine map_bind_eq (map_combinesOf hCombines sources q.cppDir []) fun cs cs' hBuilt => ?_
  exact congrArg (fun combines => Except.ok (Design.mk bundles order combines)) hBuilt

end Design

end Simgen
