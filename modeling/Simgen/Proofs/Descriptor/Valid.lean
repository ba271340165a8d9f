import Simgen.Descriptor.Writer
import Simgen.Proofs.Ident
import Simgen.Proofs.Markup.Writer
import Mathlib.Tactic.MkIffOfInductiveProp

/-! Descriptors that can be written down: their names are identifiers, their types and values
are there, and no text has blanks at its ends. -/
namespace Simgen.Descriptor

open Markup (Element Writable IsTag)

@[mk_iff] structure Member.Valid (m : Member) : Prop where
  name : Ident.isValid m.name = true
  type : Text.Solid m.type
  value : ∀ v ∈ m.value, Text.Solid v

instance (m : Member) : Decidable m.Valid := decidable_of_iff _ (Member.valid_iff m).symm

@[mk_iff] structure Pipe.Valid (p : Pipe) : Prop where
  name : Ident.isValid p.name = true
  type : Text.Solid p.type
  comment : ∀ c ∈ p.comment, Text.Trimmed c

instance (p : Pipe) : Decidable p.Valid := decidable_of_iff _ (Pipe.valid_iff p).symm

@[mk_iff] structure Param.Valid (p : Param) : Prop where
  name : Ident.isValid p.name = true
  type : Text.Solid p.type
  comment : ∀ c ∈ p.comment, Text.Trimmed c

instance (p : Param) : Decidable p.Valid := decidable_of_iff _ (Param.valid_iff p).symm

@[mk_iff] structure FunctionRef.Valid (r : FunctionRef) : Prop where
  file : Text.Solid r.file
  func : Text.Solid r.func

instance (r : FunctionRef) : Decidable r.Valid := decidable_of_iff _ (FunctionRef.valid_iff r).symm

@[mk_iff] structure Code.Valid (c : Code) : Prop where
  reference : ∀ r ∈ c.reference, r.Valid
  fragments : ∀ t ∈ c.fragments, Text.Trimmed t

instance (c : Code) : Decidable c.Valid := decidable_of_iff _ (Code.valid_iff c).symm

/-- An operation has a body exactly if its kind asks for one. -/
@[mk_iff] structure Operation.Valid (hasBody : Bool) (f : Operation) : Prop where
  name : Ident.isValid f.name = true
  comment : ∀ c ∈ f.comment, Text.Trimmed c
  params : ∀ p ∈ f.params, p.Valid
  returns : ∀ p ∈ f.returns, p.Valid
  hasBody : f.body.isSome = hasBody
  body : ∀ c ∈ f.body, c.Valid

instance (hasBody : Bool) (f : Operation) : Decidable (f.Valid hasBody) :=
  decidable_of_iff _ (Operation.valid_iff hasBody f).symm

@[mk_iff] structure Storage.Valid (s : Storage) : Prop where
  name : Ident.isValid s.name = true
  type : Text.Solid s.type
  value : ∀ v ∈ s.value, Text.Solid v
  comment : ∀ c ∈ s.comment, Text.Trimmed c

instance (s : Storage) : Decidable s.Valid := decidable_of_iff _ (Storage.valid_iff s).symm

@[mk_iff] structure Constant.Valid (c : Constant) : Prop where
  name : Ident.isValid c.name = true
  value : Text.Solid c.value
  comment : ∀ t ∈ c.comment, Text.Trimmed t

instance (c : Constant) : Decidable c.Valid := decidable_of_iff _ (Constant.valid_iff c).symm

@[mk_iff] structure Bundle.Valid (b : Bundle) : Prop where
  name : Ident.isValid b.name = true
  members : ∀ m ∈ b.members, m.Valid

instance (b : Bundle) : Decidable b.Valid := decidable_of_iff _ (Bundle.valid_iff b).symm

@[mk_iff] structure Combine.Valid (c : Combine) : Prop where
  name : Ident.isValid c.name = true
  comment : ∀ t ∈ c.comment, Text.Trimmed t
  pipeIn : ∀ p ∈ c.pipeIn, p.Valid
  pipeOut : ∀ p ∈ c.pipeOut, p.Valid
  requests : ∀ f ∈ c.requests, f.Valid false
  services : ∀ f ∈ c.services, f.Valid true
  functions : ∀ f ∈ c.functions, f.Valid true
  storage : ∀ s ∈ c.storage, s.Valid
  storageNext : ∀ s ∈ c.storageNext, s.Valid
  storageTick : ∀ s ∈ c.storageTick, s.Valid
  configs : ∀ t ∈ c.configs, t.Valid
  init : ∀ t ∈ c.init, t.Valid
  tick : ∀ t ∈ c.tick, t.Valid
  applyTick : ∀ t ∈ c.applyTick, t.Valid

instance (c : Combine) : Decidable c.Valid := decidable_of_iff _ (Combine.valid_iff c).symm

section writable

variable {tag : String}

theorem writable_name {name : String} (h : Ident.isValid name = true) :
    Writable (.ofText "name" name) :=
  Markup.writable_ofText (by decide) (Ident.solid h).2

theorem writable_optionalChild (hTag : IsTag tag) {text : Option String}
    (hText : ∀ t ∈ text, Text.Trimmed t) : ∀ e ∈ optionalChild tag text, Writable e := by
  cases text with
  | none => exact List.forall_mem_nil _
  | some t => exact List.forall_mem_singleton.mpr (Markup.writable_ofText hTag (hText t rfl))

theorem writable_comment {comment : Option String} (h : ∀ t ∈ comment, Text.Trimmed t) :
    ∀ e ∈ optionalChild "comment" comment, Writable e :=
  writable_optionalChild (by decide) h

theorem writable_value {value : Option String} (h : ∀ v ∈ value, Text.Solid v) :
    ∀ e ∈ optionalChild "value" value, Writable e :=
  writable_optionalChild (by decide) fun v hv => (h v hv).2

theorem writable_type {type : String} (h : Text.Solid type) : Writable (.ofText "type" type) :=
  Markup.writable_ofText (by decide) h.2

theorem Member.Valid.writable {m : Member} (h : m.Valid) : Writable m.toElement := by
  refine Markup.writable_ofChildren (by decide) (List.forall_mem_append.mpr ⟨?_, ?_⟩)
  · simp [writable_name h.name, writable_type h.type]
  · exact writable_value h.value

theorem Pipe.Valid.writable (hTag : IsTag tag) {p : Pipe} (h : p.Valid) :
    Writable (p.toElement tag) := by
  refine Markup.writable_ofChildren hTag (List.forall_mem_append.mpr ⟨?_, ?_⟩)
  · simp [writable_name h.name, writable_type h.type]
  · exact writable_comment h.comment

theorem Param.Valid.writable (hTag : IsTag tag) {p : Param} (h : p.Valid) :
    Writable (p.toElement tag) := by
  refine Markup.writable_ofChildren hTag (List.forall_mem_append.mpr ⟨?_, ?_⟩)
  · simp [writable_name h.name, writable_type h.type]
  · exact writable_comment h.comment

theorem Code.Valid.writable {c : Code} (h : c.Valid) : Writable c.toElement := by
  refine Markup.writable_ofChildren (by decide) (List.forall_mem_append.mpr ⟨?_, ?_⟩)
  · cases hReference : c.reference with
    | none => exact List.forall_mem_nil _
    | some r =>
        have hr := h.reference r hReference
        have hFile : Writable (.ofText "file" r.file) :=
          Markup.writable_ofText (by decide) hr.file.2
        have hFunc : Writable (.ofText "name" r.func) :=
          Markup.writable_ofText (by decide) hr.func.2
        simp [FunctionRef.toElements, hFile, hFunc]
  · refine List.forall_mem_map.mpr fun t ht => ?_
    exact Markup.writable_ofText (by decide) (h.fragments t ht)

theorem Operation.Valid.writable (hTag : IsTag tag) {hasBody : Bool} {f : Operation}
    (h : f.Valid hasBody) : Writable (f.toElement tag) := by
  have hParams : ∀ p ∈ f.params, Writable (p.toElement "arg") := fun p hp =>
    (h.params p hp).writable (by decide)
  have hReturns : ∀ p ∈ f.returns, Writable (p.toElement "return") := fun p hp =>
    (h.returns p hp).writable (by decide)
  have hBody : ∀ c ∈ f.body, Writable c.toElement := fun c hc => (h.body c hc).writable
  refine Markup.writable_ofChildren hTag ?_
  simp only [List.forall_mem_append, List.forall_mem_cons, List.forall_mem_map]
  refine ⟨⟨⟨⟨writable_name h.name, writable_comment h.comment⟩, hParams⟩, hReturns⟩, ?_⟩
  simpa using hBody

theorem Storage.Valid.writable (hTag : IsTag tag) {s : Storage} (h : s.Valid) :
    Writable (s.toElement tag) := by
  refine Markup.writable_ofChildren hTag ?_
  simp only [List.forall_mem_append]
  refine ⟨⟨?_, writable_value h.value⟩, writable_comment h.comment⟩
  simp [writable_name h.name, writable_type h.type]

theorem Constant.Valid.writable {c : Constant} (h : c.Valid) : Writable c.toElement := by
  have hValue : Writable (.ofText "value" c.value) := Markup.writable_ofText (by decide) h.value.2
  refine Markup.writable_ofChildren (by decide) (List.forall_mem_append.mpr ⟨?_, ?_⟩)
  · simp [writable_name h.name, hValue]
  · exact writable_comment h.comment

theorem Code.Valid.writable_phase (hTag : IsTag tag) {c : Code} (h : c.Valid) :
    Writable (phaseElement tag c) :=
  Markup.writable_ofChildren hTag (List.forall_mem_singleton.mpr h.writable)

end writable

theorem Bundle.Valid.writable {b : Bundle} (h : b.Valid) : Writable b.toElement := by
  refine Markup.writable_ofChildren (by decide) ?_
  simp only [List.forall_mem_cons, List.forall_mem_map]
  exact ⟨writable_name h.name, fun m hm => (h.members m hm).writable⟩

theorem Combine.Valid.writable {c : Combine} (h : c.Valid) : Writable c.toElement := by
  refine Markup.writable_ofChildren (by decide) ?_
  simp only [List.forall_mem_append, List.forall_mem_cons, List.forall_mem_map, and_assoc]
  refine ⟨writable_name h.name, writable_comment h.comment, ?_, ?_, ?_, ?_, ?_, ?_, ?_, ?_, ?_, ?_,
    ?_, ?_, ?_⟩
  · exact fun p hp => (h.pipeIn p hp).writable (by decide)
  · exact fun p hp => (h.pipeOut p hp).writable (by decide)
  · exact fun f hf => (h.requests f hf).writable (by decide)
  · exact fun f hf => (h.services f hf).writable (by decide)
  · exact fun f hf => (h.functions f hf).writable (by decide)
  · exact fun s hs => (h.storage s hs).writable (by decide)
  · exact fun s hs => (h.storageNext s hs).writable (by decide)
  · exact fun s hs => (h.storageTick s hs).writable (by decide)
  · exact fun t ht => (h.configs t ht).writable
  · exact fun t ht => (h.init t ht).writable_phase (by decide)
  · exact fun t ht => (h.tick t ht).writable_phase (by decide)
  · exact fun t ht => (h.applyTick t ht).writable_phase (by decide)
  · have hStall : Writable (.ofChildren "stallable" []) :=
      Markup.writable_ofChildren (by decide) (List.forall_mem_nil _)
    split
    · exact List.forall_mem_singleton.mpr hStall
    · exact List.forall_mem_nil _

end Simgen.Descriptor
