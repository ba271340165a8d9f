import Simgen.Descriptor.Reader
import Simgen.Proofs.Journal
import Mathlib.Tactic.MkIffOfInductiveProp

/-! The schema of descriptors. It says of an element tree, without reading it, whether it
describes a bundle or a combine; reading succeeds exactly on these trees. -/
namespace Simgen.Descriptor

open Markup (Element)

/-- The first child with this tag is there and holds more than blanks. -/
def HasText (e : Element) (tag : String) : Prop := ∃ c, e.child? tag = some c ∧ c.content ≠ ""

/-- The first `name` is there and holds an identifier. -/
def HasName (e : Element) : Prop := ∃ c, e.child? "name" = some c ∧ Ident.isValid c.content = true

/-- A `value` may be left out, but the first one must hold text. -/
def HasSoundValue (e : Element) : Prop := ∀ c, e.child? "value" = some c → c.content ≠ ""

/-- A block of code refers to a function by its file and its name, or to none by neither. -/
def HasSoundReference (e : Element) : Prop :=
  (e.child? "file" = none ∧ e.child? "name" = none) ∨ (HasText e "file" ∧ HasText e "name")

/-- The first `cppfunc` is there and its reference is sound. -/
def HasCode (e : Element) : Prop := ∃ c, e.child? "cppfunc" = some c ∧ HasSoundReference c

/-- Parameters and returned values have a type and a name each. -/
def HasParams (e : Element) : Prop :=
  ∀ p ∈ e.children, p.tag ∈ ["arg", "return"] → HasText p "type" ∧ HasName p

/-- What the tag of an element asks of its children. Other tags ask nothing. -/
@[mk_iff] structure FollowsSchema (e : Element) : Prop where
  pipe : e.tag ∈ ["pipein", "pipeout"] → HasName e ∧ HasText e "type"
  operation : e.tag ∈ ["request", "service", "function"] → HasName e ∧ HasParams e
  body : e.tag ∈ ["service", "function"] → HasCode e
  storage : e.tag ∈ ["storage", "storagenext", "storagetick"] →
    HasName e ∧ HasText e "type" ∧ HasSoundValue e
  config : e.tag = "config" → HasName e ∧ HasText e "value"
  phase : e.tag ∈ ["init", "tick", "applytick"] → HasCode e

/-- What is asked of the root of a combine descriptor. -/
structure CombineSchema (e : Element) : Prop where
  name : HasName e
  children : ∀ c ∈ e.children, FollowsSchema c

/-- What is asked of the root of a bundle descriptor. Only members are looked at. -/
structure BundleSchema (e : Element) : Prop where
  name : HasName e
  members : ∀ m ∈ e.children, m.tag = "member" → HasName m ∧ HasText m "type" ∧ HasSoundValue m

/-- How reading a document as a descriptor ends. It succeeds exactly on documents with the
expected root that follow the schema. Otherwise the source is blamed, for its root if that has
another tag, and for being malformed in all other cases. -/
structure ReadsBySchema {α : Type} (expected document source : String) (schema : Element → Prop)
    (run : Traced α) : Prop where
  succeeds_iff : (∃ a, run.outcome = .ok a) ↔
    ∃ e, Element.parse document = .ok e ∧ e.tag = expected ∧ schema e
  blamed : ∀ err, run.outcome = .error err → err.file = some source
  rootTag_iff : ∀ err, run.outcome = .error err → ((∃ found, err.cause = .rootTag expected found) ↔
    ∃ e, Element.parse document = .ok e ∧ e.tag ≠ expected)
  malformed_iff : ∀ err, run.outcome = .error err → ((∃ text, err.cause = .malformed text) ↔
    ¬ ∃ e, Element.parse document = .ok e ∧ e.tag ≠ expected)

section succeeds

variable {α β ε ε' : Type}

def Succeeds (x : Except ε α) : Prop := ∃ a, x = .ok a

@[simp] theorem succeeds_ok (a : α) : Succeeds (.ok a : Except ε α) := ⟨a, rfl⟩

@[simp] theorem succeeds_pure (a : α) : Succeeds (pure a : Except ε α) := ⟨a, rfl⟩

@[simp] theorem not_succeeds_error (e : ε) : ¬ Succeeds (.error e : Except ε α) := by
  rintro ⟨a, h⟩
  cases h

/-- Checks that do not depend on each other succeed together. -/
theorem succeeds_bind {x : Except ε α} {f : α → Except ε β} {p q : Prop} (hx : Succeeds x ↔ p)
    (hf : ∀ a, Succeeds (f a) ↔ q) : Succeeds (x >>= f) ↔ p ∧ q := by
  rw [← hx]
  cases x with
  | error e =>
      have hError : (.error e >>= f : Except ε β) = .error e := rfl
      simp [hError]
  | ok a =>
      have hOk : (.ok a >>= f : Except ε β) = f a := rfl
      simp [hOk, hf a]

@[simp] theorem succeeds_map {x : Except ε α} (f : α → β) : Succeeds (f <$> x) ↔ Succeeds x := by
  cases x with
  | error e => simp [Functor.map, Except.map]
  | ok a => simp [Functor.map, Except.map]

@[simp] theorem succeeds_mapError {x : Except ε α} (f : ε → ε') :
    Succeeds (x.mapError f) ↔ Succeeds x := by
  simp only [Succeeds, mapError_eq_ok_iff]

theorem succeeds_mapM {f : α → Except ε β} {items : List α} :
    Succeeds (items.mapM f) ↔ ∀ a ∈ items, Succeeds (f a) := by
  induction items with
  | nil => simp
  | cons a items ih =>
      rw [List.mapM_cons, List.forall_mem_cons, ← ih]
      exact succeeds_bind Iff.rfl fun b => by simp

end succeeds

variable {e : Element} {parent tag : String}

theorem succeeds_required : Succeeds (required e parent tag) ↔ HasText e tag := by
  unfold required optional HasText
  cases e.child? tag with
  | none => simp
  | some c =>
      by_cases hEmpty : c.content = ""
      · simp [hEmpty]
      · simp [hEmpty]

theorem succeeds_nameOf : Succeeds (nameOf e parent) ↔ HasName e := by
  unfold nameOf required optional HasName
  cases e.child? "name" with
  | none => simp [bind, Except.bind]
  | some c =>
      by_cases hEmpty : c.content = ""
      · simp [bind, Except.bind, hEmpty, Ident.isValid]
      · by_cases hValid : Ident.isValid c.content = true
        · simp [bind, Except.bind, hEmpty, hValid]
        · simp [bind, Except.bind, hEmpty, hValid]

theorem succeeds_valueOf : Succeeds (valueOf e parent) ↔ HasSoundValue e := by
  unfold valueOf HasSoundValue
  split
  next hNone => simp [hNone]
  next c hSome => simp [succeeds_required, HasText, hSome]

theorem Member.succeeds_ofElement :
    Succeeds (Member.ofElement e) ↔ HasName e ∧ HasText e "type" ∧ HasSoundValue e :=
  succeeds_bind succeeds_nameOf fun _ => succeeds_bind succeeds_required fun _ => by
    simp [succeeds_valueOf]

theorem Pipe.succeeds_ofElement : Succeeds (Pipe.ofElement e) ↔ HasName e ∧ HasText e "type" :=
  succeeds_bind succeeds_nameOf fun _ => by simp [succeeds_required]

theorem Param.succeeds_ofElement : Succeeds (Param.ofElement e) ↔ HasText e "type" ∧ HasName e :=
  succeeds_bind succeeds_required fun _ => by simp [succeeds_nameOf]

theorem Storage.succeeds_ofElement :
    Succeeds (Storage.ofElement e) ↔ HasName e ∧ HasText e "type" ∧ HasSoundValue e :=
  succeeds_bind succeeds_nameOf fun _ => succeeds_bind succeeds_required fun _ => by
    simp [succeeds_valueOf]

theorem Constant.succeeds_ofElement :
    Succeeds (Constant.ofElement e) ↔ HasName e ∧ HasText e "value" :=
  succeeds_bind succeeds_nameOf fun _ => by simp [succeeds_required]

theorem FunctionRef.succeeds_ofElement :
    Succeeds (FunctionRef.ofElement e) ↔ HasSoundReference e := by
  unfold FunctionRef.ofElement optional HasSoundReference HasText
  cases e.child? "file" with
  | none => cases e.child? "name" <;> simp
  | some file =>
      cases e.child? "name" with
      | none => simp
      | some func =>
          by_cases hFile : file.content = ""
          · simp [hFile]
          · by_cases hFunc : func.content = "" <;> simp [hFile, hFunc]

theorem succeeds_codeOf {fault : SchemaFault} : Succeeds (codeOf e fault) ↔ HasCode e := by
  unfold codeOf HasCode
  cases e.child? "cppfunc" with
  | none => simp
  | some c => simp [Code.ofElement, FunctionRef.succeeds_ofElement]

theorem succeeds_params {β : Type} (f : List Param → List Param → β) :
    Succeeds (do
      let params ← (e.childrenWith "arg").mapM Param.ofElement
      let returns ← (e.childrenWith "return").mapM Param.ofElement
      return f params returns) ↔ HasParams e := by
  have hList : ∀ tag, Succeeds ((e.childrenWith tag).mapM Param.ofElement) ↔
      ∀ p ∈ e.children, p.tag = tag → HasText p "type" ∧ HasName p := by
    intro tag
    simp [succeeds_mapM, Param.succeeds_ofElement, Element.childrenWith]
  have hBoth : HasParams e ↔ (∀ p ∈ e.children, p.tag = "arg" → HasText p "type" ∧ HasName p) ∧
      ∀ p ∈ e.children, p.tag = "return" → HasText p "type" ∧ HasName p := by
    simp only [HasParams, List.mem_cons, List.not_mem_nil, or_false]
    exact ⟨fun h => ⟨fun p hp hTag => h p hp (Or.inl hTag), fun p hp hTag => h p hp (Or.inr hTag)⟩,
      fun h p hp hTag => hTag.elim (h.1 p hp) (h.2 p hp)⟩
  rw [hBoth]
  exact succeeds_bind (hList "arg") fun _ => by simp [hList]

theorem Operation.succeeds_ofElement (hasBody : Bool) :
    Succeeds (Operation.ofElement e hasBody) ↔
      (HasName e ∧ HasParams e) ∧ (hasBody = true → HasCode e) := by
  cases hasBody with
  | false =>
      have hParts : Succeeds (Operation.ofElement e false) ↔ HasName e ∧ True ∧ HasParams e :=
        succeeds_bind succeeds_nameOf fun _ => succeeds_bind (by simp) fun _ => succeeds_params _
      simpa using hParts
  | true =>
      have hParts : Succeeds (Operation.ofElement e true) ↔ HasName e ∧ HasCode e ∧ HasParams e :=
        succeeds_bind succeeds_nameOf fun _ => succeeds_bind (by simp [succeeds_codeOf]) fun _ =>
          succeeds_params _
      rw [hParts]
      exact ⟨fun h => ⟨⟨h.1, h.2.2⟩, fun _ => h.2.1⟩, fun h => ⟨h.1.1, h.2 rfl, h.1.2⟩⟩

theorem succeeds_phaseOf : Succeeds (phaseOf e) ↔ HasCode e := succeeds_codeOf

/-- A child is read exactly if it follows the schema of its tag. -/
theorem Entry.succeeds_ofElement : Succeeds (Entry.ofElement e) ↔ FollowsSchema e := by
  unfold Entry.ofElement
  rw [followsSchema_iff]
  split
  case h_16 => simp_all
  all_goals
    rename_i hTag
    simp [hTag, Pipe.succeeds_ofElement, Operation.succeeds_ofElement, Storage.succeeds_ofElement,
      Constant.succeeds_ofElement, succeeds_phaseOf]

/-- A run that fails for no other reason than that the descriptor is malformed. -/
def FailsMalformed {α : Type} (x : Except Error α) : Prop :=
  ∀ err, x = .error err → ∃ text, err.cause = .malformed text

section failsMalformed

variable {α β : Type}

theorem failsMalformed_ok (a : α) : FailsMalformed (.ok a) := by
  intro err h
  cases h

theorem failsMalformed_lift (x : Except SchemaFault α) : FailsMalformed (lift x).outcome := by
  intro err h
  cases x with
  | ok a => cases h
  | error fault =>
      cases h
      exact ⟨fault.message, rfl⟩

theorem FailsMalformed.bind {x : Except Error α} {f : α → Except Error β} (hx : FailsMalformed x)
    (hf : ∀ a, FailsMalformed (f a)) : FailsMalformed (x >>= f) := by
  cases x with
  | error e =>
      intro err h
      cases h
      exact hx e rfl
  | ok a => exact hf a

theorem failsMalformed_mapM {f : α → Except Error β} (hf : ∀ a, FailsMalformed (f a))
    (items : List α) : FailsMalformed (items.mapM f) := by
  induction items with
  | nil => exact failsMalformed_ok []
  | cons a items ih =>
      rw [List.mapM_cons]
      exact (hf a).bind fun b => ih.bind fun bs => failsMalformed_ok (b :: bs)

end failsMalformed

theorem lift_eq_ok_iff {α : Type} {result : Except SchemaFault α} {a : α} :
    (lift result).outcome = .ok a ↔ result = .ok a := by
  rw [lift, Traced.outcome_lift, mapError_eq_ok_iff, mapError_eq_ok_iff]

@[simp] theorem succeeds_lift {α : Type} {x : Except SchemaFault α} :
    Succeeds (lift x).outcome ↔ Succeeds x := by
  rw [lift, Traced.outcome_lift, succeeds_mapError, succeeds_mapError]

/-- The expected root is read by its schema, and what the schema refuses is malformed. -/
theorem readsBySchema_of_read {α : Type} {expected document source : String}
    {schema : Element → Prop} {e : Element} {read run : Traced α}
    (hParse : Element.parse document = .ok e) (hTag : e.tag = expected)
    (hSchema : Succeeds read.outcome ↔ schema e) (hFails : FailsMalformed read.outcome)
    (hRun : run.outcome = read.outcome.mapError (·.blaming source)) :
    ReadsBySchema expected document source schema run := by
  have hNoOther : ¬ ∃ other, Element.parse document = .ok other ∧ other.tag ≠ expected := by
    rintro ⟨other, hOther, hNe⟩
    rw [hParse] at hOther
    cases hOther
    exact hNe hTag
  have hError : ∀ err, run.outcome = .error err →
      err.file = some source ∧ ∃ text, err.cause = .malformed text := by
    intro err h
    rw [hRun] at h
    cases hRead : read.outcome with
    | ok a => rw [hRead] at h; cases h
    | error first =>
        rw [hRead] at h
        cases h
        exact ⟨rfl, hFails first hRead⟩
  refine ⟨?_, fun err h => (hError err h).1, fun err h => ?_, fun err h => ?_⟩
  · have hSucceeds : (∃ a, run.outcome = .ok a) ↔ Succeeds read.outcome := by
      rw [hRun]
      exact succeeds_mapError _
    rw [hSucceeds, hSchema]
    simp [hParse, hTag]
  · obtain ⟨text, hCause⟩ := (hError err h).2
    simp [hCause, hNoOther]
  · exact iff_of_true (hError err h).2 hNoOther

/-- A document that is no tree, or the tree of something else, is refused before its schema
matters; what the schema refuses is malformed. -/
theorem readsBySchema_of_root {α : Type} {expected : String} {schema : Element → Prop}
    (read : Element → Traced α) (hSchema : ∀ e, Succeeds (read e).outcome ↔ schema e)
    (hFails : ∀ e, FailsMalformed (read e).outcome) (document source : String) :
    ReadsBySchema expected document source schema
      (Traced.blaming source (Traced.lift (root expected document) >>= read)) := by
  have hRun : (Traced.blaming source (Traced.lift (root expected document) >>= read)).outcome =
      (((root expected document).mapError fun cause => { cause }) >>= fun e =>
        (read e).outcome).mapError (·.blaming source) := by
    rw [Traced.outcome_blaming, Traced.outcome_bind, Traced.outcome_lift]
  generalize Traced.blaming source (Traced.lift (root expected document) >>= read) = run at hRun ⊢
  cases hParse : Element.parse document with
  | error fault =>
      have hRoot : root expected document = .error (.malformed fault.message) := by
        rw [root, hParse]
      have hOutcome : run.outcome =
          .error { cause := .malformed fault.message, file := some source } := by
        rw [hRun, hRoot]
        rfl
      constructor <;> simp [hOutcome, hParse]
  | ok e =>
      by_cases hTag : e.tag = expected
      · have hRoot : root expected document = .ok e := by
          rw [root, hParse]
          exact if_pos hTag
        have hOutcome : run.outcome = (read e).outcome.mapError (·.blaming source) := by
          rw [hRun, hRoot]
          rfl
        exact readsBySchema_of_read hParse hTag (hSchema e) (hFails e) hOutcome
      · have hRoot : root expected document = .error (.rootTag expected e.tag) := by
          rw [root, hParse]
          exact if_neg hTag
        have hOutcome : run.outcome =
            .error { cause := .rootTag expected e.tag, file := some source } := by
          rw [hRun, hRoot]
          rfl
        constructor <;> simp [hOutcome, hParse, hTag]

/-- Children that are read as entries, one for one. -/
def Reads (children : List Element) (entries : List Entry) : Prop :=
  List.Forall₂ (fun e entry => Entry.ofElement e = .ok entry) children entries

namespace Combine

theorem outcome_entry_eq (combine : String) (e : Element) :
    (entry combine e).outcome = (lift (Entry.ofElement e)).outcome := by
  rw [entry]
  cases Entry.ofElement e with
  | error fault => rfl
  | ok read => cases read <;> rfl

theorem outcome_entries_eq_ok_iff {children : List Element} {entries : List Entry}
    (combine : String) :
    (children.mapM (entry combine)).outcome = .ok entries ↔ Reads children entries := by
  rw [Traced.outcome_mapM, mapM_eq_ok_iff]
  simp only [outcome_entry_eq, lift_eq_ok_iff, Reads]

theorem succeeds_entries (combine : String) :
    Succeeds (e.children.mapM (entry combine)).outcome ↔ ∀ c ∈ e.children, FollowsSchema c := by
  simp only [Traced.outcome_mapM, outcome_entry_eq, succeeds_mapM, succeeds_lift,
    Entry.succeeds_ofElement]

theorem outcome_ofElement (e : Element) (source : String) :
    (ofElement e source).outcome = (lift (nameOf e "combine")).outcome >>= fun name =>
      (e.children.mapM (entry name)).outcome >>= fun entries =>
        .ok (ofEntries name source (optional e "comment") entries) := by
  simp only [ofElement, Traced.outcome_bind, Traced.outcome_note, Traced.outcome_pure]
  rfl

theorem succeeds_ofElement (source : String) :
    Succeeds (ofElement e source).outcome ↔ CombineSchema e := by
  have hParts : Succeeds (ofElement e source).outcome ↔
      HasName e ∧ (∀ c ∈ e.children, FollowsSchema c) ∧ True := by
    rw [outcome_ofElement]
    refine succeeds_bind (succeeds_lift.trans succeeds_nameOf) fun name => ?_
    exact succeeds_bind (succeeds_entries name) fun entries => by simp
  rw [hParts]
  exact ⟨fun h => ⟨h.1, h.2.1⟩, fun h => ⟨h.name, h.children, trivial⟩⟩

theorem failsMalformed_ofElement (e : Element) (source : String) :
    FailsMalformed (ofElement e source).outcome := by
  rw [outcome_ofElement]
  refine (failsMalformed_lift _).bind fun name => ?_
  rw [Traced.outcome_mapM]
  refine FailsMalformed.bind (failsMalformed_mapM (fun c => ?_) e.children) fun entries =>
    failsMalformed_ok _
  rw [outcome_entry_eq]
  exact failsMalformed_lift _

end Combine

namespace Bundle

theorem outcome_ofElement (e : Element) (source : String) :
    (ofElement e source).outcome = (lift (nameOf e "bundle")).outcome >>= fun name =>
      (lift ((e.childrenWith "member").mapM Member.ofElement)).outcome >>= fun members =>
        .ok { name, members, source } := by
  simp only [ofElement, Traced.outcome_bind, Traced.outcome_note, Traced.outcome_pure]
  rfl

theorem succeeds_ofElement (source : String) :
    Succeeds (ofElement e source).outcome ↔ BundleSchema e := by
  have hMembers : Succeeds (lift ((e.childrenWith "member").mapM Member.ofElement)).outcome ↔
      ∀ m ∈ e.children, m.tag = "member" → HasName m ∧ HasText m "type" ∧ HasSoundValue m := by
    simp [succeeds_mapM, Member.succeeds_ofElement, Element.childrenWith]
  have hParts : Succeeds (ofElement e source).outcome ↔ HasName e ∧ (∀ m ∈ e.children,
      m.tag = "member" → HasName m ∧ HasText m "type" ∧ HasSoundValue m) ∧ True := by
    rw [outcome_ofElement]
    refine succeeds_bind (succeeds_lift.trans succeeds_nameOf) fun name => ?_
    exact succeeds_bind hMembers fun members => by simp
  rw [hParts]
  exact ⟨fun h => ⟨h.1, h.2.1⟩, fun h => ⟨h.name, h.members, trivial⟩⟩

theorem failsMalformed_ofElement (e : Element) (source : String) :
    FailsMalformed (ofElement e source).outcome := by
  rw [outcome_ofElement]
  exact (failsMalformed_lift _).bind fun name => (failsMalformed_lift _).bind fun members =>
    failsMalformed_ok _

end Bundle

/-- Descriptors are read exactly by their schemas. -/
theorem parse_reads_by_schema :
    (∀ document source, ReadsBySchema "combine" document source CombineSchema
      (Combine.parse document source)) ∧
    (∀ document source, ReadsBySchema "bundle" document source BundleSchema
      (Bundle.parse document source)) :=
  ⟨fun document source => readsBySchema_of_root (Combine.ofElement · source)
      (fun _ => Combine.succeeds_ofElement source)
      (fun e => Combine.failsMalformed_ofElement e source) document source,
    fun document source => readsBySchema_of_root (Bundle.ofElement · source)
      (fun _ => Bundle.succeeds_ofElement source)
      (fun e => Bundle.failsMalformed_ofElement e source) document source⟩

end Simgen.Descriptor
