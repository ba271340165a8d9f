import Simgen.Combine.Registers
import Mathlib.Data.List.Nodup

/-! What the commit plan does to the registers. Each step of the plan concerns one field, or
the stall flag; no two steps concern the same field, so that the plan as a whole does to
a field what the one step for it does. -/
namespace Simgen

/-- The field that a step of the commit plan concerns. -/
def CommitStep.target : CommitStep → Option String
  | applyNext name => some name
  | resetTick name _ => some name
  | clearStall => none

namespace Combine

variable {c : Combine} {name comment : String}

theorem applyNext_mem_commitPlan {type : ValueType} {default : Option String}
    (h : .next name type default comment ∈ c.storage) : .applyNext name ∈ c.commitPlan := by
  refine List.mem_append_left _ (List.mem_append_left _ ?_)
  exact List.mem_filterMap.mpr ⟨_, h, rfl⟩

theorem resetTick_mem_commitPlan {type : Primitive} {default : String}
    (h : .tick name type default comment ∈ c.storage) :
    .resetTick name default ∈ c.commitPlan := by
  refine List.mem_append_left _ (List.mem_append_right _ ?_)
  exact List.mem_filterMap.mpr ⟨_, h, rfl⟩

theorem clearStall_mem_commitPlan (h : c.stallable = true) : .clearStall ∈ c.commitPlan := by
  refine List.mem_append_right _ ?_
  simp [h]

/-- A step of the plan for a field comes from that field, which is not a plain one. -/
theorem exists_storage_of_target {step : CommitStep} (hStep : step ∈ c.commitPlan)
    (hTarget : step.target = some name) :
    ∃ s ∈ c.storage, s.name = name ∧
      ∀ type default comment, s ≠ .plain name type default comment := by
  simp only [commitPlan, List.mem_append, List.mem_filterMap] at hStep
  rcases hStep with (⟨s, hs, hMade⟩ | ⟨s, hs, hMade⟩) | hStall
  · cases s with
    | next other type default comment =>
        cases hMade
        cases hTarget
        exact ⟨_, hs, rfl, by simp⟩
    | _ => cases hMade
  · cases s with
    | tick other type default comment =>
        cases hMade
        cases hTarget
        exact ⟨_, hs, rfl, by simp⟩
    | _ => cases hMade
  · split_ifs at hStall
    · cases List.mem_singleton.mp hStall
      cases hTarget
    · cases hStall

/-- Picking names from distinctly named fields gives distinct names. -/
theorem nodup_filterMap_storage {storage : List Storage} {pick : Storage → Option String}
    (hNames : (storage.map Storage.name).Nodup) (hPick : ∀ s n, pick s = some n → s.name = n) :
    (storage.filterMap pick).Nodup := by
  have hApart : storage.Pairwise fun s t => s.name ≠ t.name := List.pairwise_map.mp hNames
  rw [List.Nodup, List.pairwise_filterMap]
  refine hApart.imp fun {s t} hne n hn m hm => ?_
  rwa [← hPick s n hn, ← hPick t m hm]

/-- No two steps of the plan concern the same field. -/
theorem nodup_commitPlan_targets (hNames : (c.storage.map Storage.name).Nodup) :
    (c.commitPlan.filterMap CommitStep.target).Nodup := by
  have hStall : (if c.stallable then [CommitStep.clearStall] else []).filterMap
      CommitStep.target = [] := by
    split_ifs <;> rfl
  rw [commitPlan, List.filterMap_append, List.filterMap_append, hStall, List.append_nil,
    List.filterMap_filterMap, List.filterMap_filterMap, List.nodup_append]
  refine ⟨nodup_filterMap_storage hNames ?_, nodup_filterMap_storage hNames ?_, ?_⟩
  · intro s n hn
    cases s <;> simp_all [CommitStep.target, Storage.name]
  · intro s n hn
    cases s <;> simp_all [CommitStep.target, Storage.name]
  · rintro n hn _ hm rfl
    obtain ⟨s, hs, hNext⟩ := List.mem_filterMap.mp hn
    obtain ⟨t, ht, hTick⟩ := List.mem_filterMap.mp hm
    cases s with
    | next =>
        cases t with
        | tick =>
            cases hNext
            cases hTick
            cases List.inj_on_of_nodup_map hNames hs ht rfl
        | _ => cases hTick
    | _ => cases hNext

end Combine

namespace Registers

variable {V : Type} {read : String → V} {r : Registers V} {name : String}

/-- What the registers hold for one field: the value that is read, and the proposal. -/
def slot (r : Registers V) (name : String) : V × Option (V × Nat) :=
  (r.current name, r.pending name)

/-- What a step of the commit plan does to the field that it concerns. -/
def settle (read : String → V) : CommitStep → V × Option (V × Nat) → V × Option (V × Nat)
  | .applyNext _, held => ((held.2.map Prod.fst).getD held.1, none)
  | .resetTick _ default, held => (read default, held.2)
  | .clearStall, held => held

/-- A step of the commit plan settles its own field and leaves every other one alone. -/
theorem slot_commit (step : CommitStep) :
    (r.commit read step).slot name =
      if step.target = some name then settle read step (r.slot name) else r.slot name := by
  cases step with
  | applyNext other =>
      by_cases hName : other = name
      · subst hName
        cases hPending : r.pending other with
        | none => simp [commit, slot, settle, hPending, CommitStep.target]
        | some proposal => simp [commit, write, slot, settle, hPending, CommitStep.target]
      · cases hPending : r.pending other with
        | none => simp [commit, slot, hPending, CommitStep.target, hName]
        | some proposal =>
            simp [commit, write, slot, hPending, CommitStep.target, hName, Ne.symm hName]
  | resetTick other default =>
      by_cases hName : other = name
      · simp [commit, write, slot, settle, CommitStep.target, hName]
      · simp [commit, write, slot, CommitStep.target, hName, Ne.symm hName]
  | clearStall => simp [commit, slot, CommitStep.target]

theorem slot_foldl_commit_of_not_mem {steps : List CommitStep}
    (hNone : ∀ step ∈ steps, step.target ≠ some name) :
    (steps.foldl (commit read) r).slot name = r.slot name := by
  induction steps generalizing r with
  | nil => rfl
  | cons step steps ih =>
      rw [List.forall_mem_cons] at hNone
      rw [List.foldl_cons, ih hNone.2, slot_commit, if_neg hNone.1]

/-- Where no two steps concern the same field, a field is settled by the step for it. -/
theorem slot_foldl_commit_of_mem {steps : List CommitStep} {step : CommitStep}
    (hNodup : (steps.filterMap CommitStep.target).Nodup) (hStep : step ∈ steps)
    (hTarget : step.target = some name) :
    (steps.foldl (commit read) r).slot name = settle read step (r.slot name) := by
  obtain ⟨before, after, rfl⟩ := List.append_of_mem hStep
  rw [List.filterMap_append, List.filterMap_cons_some hTarget, List.nodup_middle,
    List.nodup_cons, List.mem_append, not_or] at hNodup
  obtain ⟨⟨hBefore, hAfter⟩, -⟩ := hNodup
  have hOther : ∀ others : List CommitStep, name ∉ others.filterMap CommitStep.target →
      ∀ other ∈ others, other.target ≠ some name := fun others hNot other hIn hEq =>
    hNot (List.mem_filterMap.mpr ⟨other, hIn, hEq⟩)
  rw [List.foldl_append, List.foldl_cons, slot_foldl_commit_of_not_mem (hOther after hAfter),
    slot_commit, if_pos hTarget, slot_foldl_commit_of_not_mem (hOther before hBefore)]

/-- The flag stays up only if it was up and no step lowers it. -/
theorem stalled_foldl_commit (steps : List CommitStep) :
    (steps.foldl (commit read) r).stalled = true ↔ r.stalled = true ∧ .clearStall ∉ steps := by
  induction steps generalizing r with
  | nil => simp
  | cons step steps ih =>
      rw [List.foldl_cons, ih]
      cases step with
      | applyNext other =>
          cases hPending : r.pending other with
          | none => simp [commit, hPending]
          | some proposal => simp [commit, write, hPending]
      | resetTick other default => simp [commit, write]
      | clearStall => simp [commit]

variable {c : Combine} {comment : String}

theorem slot_commitAll_next (hNames : (c.storage.map Storage.name).Nodup) {type : ValueType}
    {default : Option String} (h : .next name type default comment ∈ c.storage) :
    (r.commitAll read c).slot name = settle read (.applyNext name) (r.slot name) :=
  slot_foldl_commit_of_mem (Combine.nodup_commitPlan_targets hNames)
    (Combine.applyNext_mem_commitPlan h) rfl

theorem current_commitAll_next (hNames : (c.storage.map Storage.name).Nodup) {type : ValueType}
    {default : Option String} (h : .next name type default comment ∈ c.storage) :
    (r.commitAll read c).current name = ((r.pending name).map Prod.fst).getD (r.current name) :=
  congrArg Prod.fst (slot_commitAll_next hNames h)

theorem pending_commitAll_next (hNames : (c.storage.map Storage.name).Nodup) {type : ValueType}
    {default : Option String} (h : .next name type default comment ∈ c.storage) :
    (r.commitAll read c).pending name = none :=
  congrArg Prod.snd (slot_commitAll_next hNames h)

theorem current_commitAll_tick (hNames : (c.storage.map Storage.name).Nodup) {type : Primitive}
    {default : String} (h : .tick name type default comment ∈ c.storage) :
    (r.commitAll read c).current name = read default := by
  have hSlot : (r.commitAll read c).slot name =
      settle read (.resetTick name default) (r.slot name) :=
    slot_foldl_commit_of_mem (Combine.nodup_commitPlan_targets hNames)
      (Combine.resetTick_mem_commitPlan h) rfl
  exact congrArg Prod.fst hSlot

/-- However far the plan has come, a plain field is as it was. -/
theorem slot_foldl_commit_plain (hNames : (c.storage.map Storage.name).Nodup) {type : ValueType}
    {default : Option String} (h : .plain name type default comment ∈ c.storage)
    {steps : List CommitStep} (hSteps : steps ⊆ c.commitPlan) :
    (steps.foldl (commit read) r).slot name = r.slot name := by
  apply slot_foldl_commit_of_not_mem
  intro step hStep hTarget
  obtain ⟨s, hs, hName, hKind⟩ := Combine.exists_storage_of_target (hSteps hStep) hTarget
  exact hKind _ _ _ (List.inj_on_of_nodup_map hNames hs h hName)

theorem stalled_commitAll (hStall : r.stalled = true → c.stallable = true) :
    (r.commitAll read c).stalled = false := by
  rw [← Bool.not_eq_true, commitAll, stalled_foldl_commit]
  rintro ⟨hUp, hKept⟩
  exact hKept (Combine.clearStall_mem_commitPlan (hStall hUp))

end Registers

end Simgen
