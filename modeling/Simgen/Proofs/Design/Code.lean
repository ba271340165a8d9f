import Simgen.Proofs.Design.Elaborate
import Simgen.Proofs.Text.Lines
import Mathlib.Data.List.Forall2

/-! The code that descriptors supply. Every block of an elaborated combine consists of the
lines of its referenced body and of its fragments, in this order. -/
namespace Simgen

/-- What follows for one result holds of all of them. -/
theorem forall_of_forall₂ {α β : Type} {r : α → β → Prop} {property : β → Prop} {as : List α}
    {bs : List β} (h : List.Forall₂ r as bs) (hOne : ∀ a b, r a b → property b) :
    ∀ b ∈ bs, property b := by
  induction h with
  | nil => simp
  | cons hHead _ ih => exact List.forall_mem_cons.mpr ⟨hOne _ _ hHead, ih⟩

namespace Descriptor

variable (sources : Sources) (cppDir : String)

/-- The body of the function that a block refers to. A reference that leads nowhere has none,
not even an empty one. -/
def Code.Refers (d : Code) (body : Option String) : Prop :=
  match d.reference with
  | none => body = none
  | some r => ∃ text, sources (Files.Path.join cppDir r.file) = .ok text ∧
      Source.body? text r.func = body ∧ body ≠ none

/-- A block supplies the lines of the body it refers to, then those of its fragments. -/
def Code.Supplies (d : Code) (code : Simgen.Code) : Prop :=
  ∃ body parts, d.Refers sources cppDir body ∧
    List.Forall₂ Text.SplitInto (body.toList ++ d.fragments) parts ∧ code = parts.flatten

/-- Where there is no block, there is no code. -/
def SuppliesIfAny (block : Option Code) (code : Simgen.Code) : Prop :=
  match block with
  | none => code = []
  | some d => d.Supplies sources cppDir code

/-- The signature of an operation with the types of its parameters told apart. -/
def Operation.signature (d : Operation) : Signature :=
  { params := d.params.map Combine.paramOf, returns := d.returns.map Combine.paramOf }

end Descriptor

open Descriptor (SuppliesIfAny)

/-- The code of a combine is what its descriptor supplies, block by block. Of several blocks
for one phase the first is taken; what is run at construction is taken from all of them. -/
structure Combine.HoldsCode (sources : Sources) (cppDir : String) (d : Descriptor.Combine)
    (c : Combine) : Prop where
  operations : List.Forall₂ (fun op f => f.name = op.name ∧ f.signature = op.signature ∧
    SuppliesIfAny sources cppDir op.body f.body) (d.services ++ d.functions) c.operations
  init : ∃ parts, List.Forall₂ (Descriptor.Code.Supplies sources cppDir) d.init parts ∧
    c.init = parts.flatten
  tick : SuppliesIfAny sources cppDir d.tick.head? c.tick
  applyTick : SuppliesIfAny sources cppDir d.applyTick.head? c.applyTick

/-- All lines of code of a combine. -/
def Combine.codeLines (c : Combine) : Code :=
  c.operations.flatMap Operation.body ++ c.init ++ c.tick ++ c.applyTick

theorem Descriptor.Code.Supplies.noLineFeed {sources : Sources} {cppDir : String}
    {d : Descriptor.Code} {code : Simgen.Code} (h : d.Supplies sources cppDir code) :
    ∀ line ∈ code, '\n' ∉ line.toList := by
  obtain ⟨body, parts, -, hParts, rfl⟩ := h
  exact List.forall_mem_flatten.mpr
    (forall_of_forall₂ hParts fun _ _ hSplit => hSplit.noLineFeed)

theorem Descriptor.SuppliesIfAny.noLineFeed {sources : Sources} {cppDir : String}
    {block : Option Descriptor.Code} {code : Simgen.Code}
    (h : SuppliesIfAny sources cppDir block code) : ∀ line ∈ code, '\n' ∉ line.toList := by
  cases block with
  | none =>
      cases h
      simp
  | some d => exact Code.Supplies.noLineFeed h

namespace Combine

theorem HoldsCode.noLineFeed {sources : Sources} {cppDir : String} {d : Descriptor.Combine}
    {c : Combine} (h : HoldsCode sources cppDir d c) :
    ∀ line ∈ c.codeLines, '\n' ∉ line.toList := by
  have hOperations : ∀ f ∈ c.operations, ∀ line ∈ f.body, '\n' ∉ line.toList :=
    forall_of_forall₂ h.operations fun _ _ hOp => hOp.2.2.noLineFeed
  obtain ⟨parts, hParts, hInit⟩ := h.init
  have hBlocks : ∀ part ∈ parts, ∀ line ∈ part, '\n' ∉ line.toList :=
    forall_of_forall₂ hParts fun _ _ hBlock => hBlock.noLineFeed
  intro line hLine
  rw [codeLines, hInit, List.mem_append, List.mem_append, List.mem_append, List.mem_flatMap,
    List.mem_flatten] at hLine
  rcases hLine with ((⟨f, hf, hIn⟩ | ⟨part, hPart, hIn⟩) | hIn) | hIn
  · exact hOperations f hf line hIn
  · exact hBlocks part hPart line hIn
  · exact h.tick.noLineFeed line hIn
  · exact h.applyTick.noLineFeed line hIn

variable {s : Scope} {owner : String}

theorem body?_eq_ok_iff {sources : Sources} {path func : String} {found : Option String} :
    (sources.body? path func).outcome = .ok found ↔
      ∃ text, sources path = .ok text ∧ Source.body? text func = found := by
  unfold Sources.body?
  cases sources path with
  | error e => simp [Traced.fail]
  | ok text =>
      constructor
      · intro h
        cases h
        exact ⟨text, rfl, rfl⟩
      · rintro ⟨other, hOther, rfl⟩
        cases hOther
        rfl

theorem forall₂_splitInto (texts : List String) :
    List.Forall₂ Text.SplitInto texts (texts.map Text.lines) :=
  List.forall₂_map_right_iff.mpr (List.forall₂_same.mpr fun text _ => Text.splitInto_lines text)

theorem supplies_ofTexts {d : Descriptor.Code} {body : Option String}
    (h : d.Refers s.sources s.cppDir body) :
    d.Supplies s.sources s.cppDir (Code.ofTexts (body.toList ++ d.fragments)) :=
  ⟨body, _, h, forall₂_splitInto _, by rw [Code.ofTexts, List.flatMap_def]⟩

theorem supplies_of_codeOf {d : Descriptor.Code} {code : Code}
    (h : (codeOf s owner d).outcome = .ok code) : d.Supplies s.sources s.cppDir code := by
  unfold codeOf at h
  cases hReference : d.reference with
  | none =>
      rw [hReference] at h
      cases h
      have hRefers : d.Refers s.sources s.cppDir none := by
        rw [Descriptor.Code.Refers, hReference]
      exact supplies_ofTexts hRefers
  | some r =>
      rw [hReference] at h
      obtain ⟨found, hFound, hCode⟩ := Traced.outcome_bind_eq_ok_iff.mp h
      obtain ⟨text, hText, hBody⟩ := body?_eq_ok_iff.mp hFound
      cases found with
      | none => cases hCode
      | some body =>
          cases hCode
          have hRefers : d.Refers s.sources s.cppDir (some body) := by
            rw [Descriptor.Code.Refers, hReference]
            exact ⟨text, hText, hBody, Option.some_ne_none body⟩
          exact supplies_ofTexts hRefers

theorem suppliesIfAny_of_phaseOf {phase : String} {blocks : List Descriptor.Code} {code : Code}
    (h : (phaseOf s phase blocks).outcome = .ok code) :
    SuppliesIfAny s.sources s.cppDir blocks.head? code := by
  unfold phaseOf at h
  cases blocks with
  | nil =>
      cases h
      rfl
  | cons first rest =>
      dsimp only at h
      split at h
      · obtain ⟨_, -, hFirst⟩ := Traced.outcome_bind_eq_ok_iff.mp h
        exact supplies_of_codeOf hFirst
      · exact supplies_of_codeOf h

theorem signature_of_signatureOf {d : Descriptor.Operation} {signature : Signature}
    (h : signatureOf d = .ok signature) : signature = d.signature := by
  unfold signatureOf at h
  dsimp only at h
  split at h
  · cases h
  · cases h
    rfl

theorem of_operationOf {role : Role} {d : Descriptor.Operation} {f : Operation}
    (h : (operationOf s role d).outcome = .ok f) :
    f.name = d.name ∧ f.signature = d.signature ∧
      SuppliesIfAny s.sources s.cppDir d.body f.body := by
  unfold operationOf at h
  cases hBody : d.body with
  | none =>
      rw [hBody] at h
      obtain ⟨code, hCode, hRest⟩ := Traced.outcome_bind_eq_ok_iff.mp h
      obtain ⟨signature, hSignature, hResult⟩ := Traced.outcome_bind_eq_ok_iff.mp hRest
      rw [Traced.outcome_lift, mapError_eq_ok_iff] at hSignature
      cases hCode
      cases hResult
      exact ⟨rfl, signature_of_signatureOf hSignature, rfl⟩
  | some block =>
      rw [hBody] at h
      obtain ⟨code, hCode, hRest⟩ := Traced.outcome_bind_eq_ok_iff.mp h
      obtain ⟨signature, hSignature, hResult⟩ := Traced.outcome_bind_eq_ok_iff.mp hRest
      rw [Traced.outcome_lift, mapError_eq_ok_iff] at hSignature
      cases hResult
      exact ⟨rfl, signature_of_signatureOf hSignature, supplies_of_codeOf hCode⟩

/-- Elaboration takes the code of a combine over as its descriptor supplies it. -/
theorem holdsCode_of_ofDescriptor {sources : Sources} {cppDir : String} {d : Descriptor.Combine}
    {c : Combine} (h : (ofDescriptor sources cppDir d).outcome = .ok c) :
    HoldsCode sources cppDir d c := by
  simp only [ofDescriptor, Traced.outcome_bind_eq_ok_iff, Traced.outcome_pure,
    Traced.outcome_mapM, mapM_eq_ok_iff] at h
  obtain ⟨_, -, services, hServices, helpers, hHelpers, init, hInit, tick, hTick, applyTick,
    hApplyTick, _, -, _, -, hPure⟩ := h
  cases hPure
  exact
    { operations := List.rel_append (hServices.imp fun _ _ h => of_operationOf h)
        (hHelpers.imp fun _ _ h => of_operationOf h)
      init := ⟨init, hInit.imp fun _ _ h => supplies_of_codeOf h, rfl⟩
      tick := suppliesIfAny_of_phaseOf hTick
      applyTick := suppliesIfAny_of_phaseOf hApplyTick }

end Combine

end Simgen
