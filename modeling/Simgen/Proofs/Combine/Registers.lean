import Simgen.Proofs.Combine.Commit
import Simgen.Proofs.Combine.Namespace
import Simgen.Proofs.Design.Elaborate
import Simgen.Proofs.Names
import Mathlib.Data.List.Induction

/-! The registers of a combine at every moment of a run. A moment is given by what has
happened so far: actions of the logic, in any order and number, and commits between
them. Proposals do not show before the commit that takes over the winning one. -/
namespace Simgen.Registers

variable {V : Type}

/-- What happens to registers: an action of the logic, or the commit plan as a whole. -/
inductive Happening (V : Type) where
  | act (a : LogicAction V)
  | commit

/-- What happens in a cycle, in this order. -/
def Cycle.happenings (k : Cycle V) : List (Happening V) :=
  k.tick.map .act ++ .commit :: k.applyTick.map .act

/-- What a happening does to the registers. -/
def happen (read : String → V) (c : Combine) (r : Registers V) : Happening V → Registers V
  | .act a => r.perform a
  | .commit => r.commitAll read c

/-- The registers when all this has happened, and nothing else. -/
def after (read : String → V) (c : Combine) (past : List (Happening V)) : Registers V :=
  past.foldl (happen read c) (start read c)

/-- The actions since the last commit, or all of them before the first. -/
def sinceCommit (past : List (Happening V)) : List (LogicAction V) :=
  past.foldl (fun since h => match h with | .act a => since ++ [a] | .commit => []) []

/-- The proposal that wins for a field: none before it has a higher priority, and none
behind it has one as high. -/
def Wins (name : String) (actions : List (LogicAction V)) (value : V) (priority : Nat) : Prop :=
  ∃ earlier later, actions = earlier ++ .propose name value priority :: later ∧
    (∀ v q, .propose name v q ∈ earlier → q ≤ priority) ∧
    ∀ v q, .propose name v q ∈ later → q < priority

/-- What must be on record for a field when these actions were performed: the winning
proposal, or nothing if there was none. -/
def Outstanding (name : String) (actions : List (LogicAction V)) : Option (V × Nat) → Prop
  | none => ∀ v q, .propose name v q ∉ actions
  | some (value, priority) => Wins name actions value priority

variable {read : String → V} {c : Combine} {r : Registers V} {name comment : String}
  {past : List (Happening V)} {actions : List (LogicAction V)}

theorem after_append (past later : List (Happening V)) :
    after read c (past ++ later) = later.foldl (happen read c) (after read c past) :=
  List.foldl_append ..

@[simp] theorem after_act (past : List (Happening V)) (a : LogicAction V) :
    after read c (past ++ [.act a]) = (after read c past).perform a := by
  rw [after_append, List.foldl_cons, List.foldl_nil, happen]

@[simp] theorem after_commit (past : List (Happening V)) :
    after read c (past ++ [.commit]) = (after read c past).commitAll read c := by
  rw [after_append, List.foldl_cons, List.foldl_nil, happen]

@[simp] theorem sinceCommit_act (past : List (Happening V)) (a : LogicAction V) :
    sinceCommit (past ++ [.act a]) = sinceCommit past ++ [a] := by
  rw [sinceCommit, List.foldl_append, List.foldl_cons, List.foldl_nil, ← sinceCommit]

@[simp] theorem sinceCommit_commit (past : List (Happening V)) :
    sinceCommit (past ++ [.commit]) = [] := by
  rw [sinceCommit, List.foldl_append, List.foldl_cons, List.foldl_nil]

theorem act_mem_of_mem_sinceCommit {a : LogicAction V} (h : a ∈ sinceCommit past) :
    .act a ∈ past := by
  induction past using List.reverseRecOn with
  | nil => cases h
  | append_singleton past last ih =>
      cases last with
      | act b =>
          rw [sinceCommit_act, List.mem_append, List.mem_singleton] at h
          rcases h with h | rfl
          · exact List.mem_append_left _ (ih h)
          · exact List.mem_append_right _ (List.mem_singleton_self _)
      | commit =>
          rw [sinceCommit_commit] at h
          cases h

/-- Running cycles one after another is running what happens in them. -/
theorem run_eq_after (cycles : List (Cycle V)) :
    run read c cycles = after read c (cycles.flatMap Cycle.happenings) := by
  have hCycle : ∀ (k : Cycle V) (r : Registers V),
      k.happenings.foldl (happen read c) r = cycle read c r k := by
    intro k r
    rw [Cycle.happenings, List.foldl_append, List.foldl_cons, List.foldl_map, List.foldl_map]
    rfl
  rw [run, after, List.foldl_flatMap]
  simp only [hCycle]

theorem Wins.le {value v : V} {priority q : Nat} (h : Wins name actions value priority)
    (hMem : .propose name v q ∈ actions) : q ≤ priority := by
  obtain ⟨earlier, later, rfl, hEarlier, hLater⟩ := h
  rcases List.mem_append.mp hMem with hIn | hIn
  · exact hEarlier v q hIn
  · rcases List.mem_cons.mp hIn with hSame | hIn
    · cases hSame
      exact Nat.le_refl _
    · exact Nat.le_of_lt (hLater v q hIn)

theorem Wins.snoc {value : V} {priority : Nat} {a : LogicAction V}
    (h : Wins name actions value priority)
    (hLower : ∀ v q, a = .propose name v q → q < priority) :
    Wins name (actions ++ [a]) value priority := by
  obtain ⟨earlier, later, rfl, hEarlier, hLater⟩ := h
  refine ⟨earlier, later ++ [a], by simp, hEarlier, ?_⟩
  intro v q hIn
  rcases List.mem_append.mp hIn with hIn | hIn
  · exact hLater v q hIn
  · exact hLower v q (List.mem_singleton.mp hIn).symm

theorem wins_last {value : V} {priority : Nat}
    (hHighest : ∀ v q, .propose name v q ∈ actions → q ≤ priority) :
    Wins name (actions ++ [.propose name value priority]) value priority :=
  ⟨actions, [], rfl, hHighest, by simp⟩

theorem Outstanding.snoc_other {held : Option (V × Nat)} {a : LogicAction V}
    (h : Outstanding name actions held) (hOther : ∀ v q, a ≠ .propose name v q) :
    Outstanding name (actions ++ [a]) held := by
  cases held with
  | none =>
      intro v q hIn
      rcases List.mem_append.mp hIn with hIn | hIn
      · exact h v q hIn
      · exact hOther v q (List.mem_singleton.mp hIn).symm
  | some proposal => exact Wins.snoc h fun v q hEq => absurd hEq (hOther v q)

/-- A proposal replaces one of lower or equal priority and yields to a higher one. -/
theorem Outstanding.propose (h : Outstanding name actions (r.pending name)) (value : V)
    (priority : Nat) :
    Outstanding name (actions ++ [.propose name value priority])
      ((r.propose name value priority).pending name) := by
  cases hHeld : r.pending name with
  | none =>
      rw [hHeld] at h
      simp only [Registers.propose, hHeld, ite_true]
      exact wins_last fun v q hIn => absurd hIn (h v q)
  | some proposal =>
      obtain ⟨best, bestPriority⟩ := proposal
      rw [hHeld] at h
      by_cases hLess : bestPriority ≤ priority
      · simp only [Registers.propose, hHeld, hLess, decide_true, ite_true]
        exact wins_last fun v q hIn => Nat.le_trans (Wins.le h hIn) hLess
      · simp only [Registers.propose, hHeld, hLess, decide_false, Bool.false_eq_true, ite_false]
        refine Wins.snoc h fun v q hEq => ?_
        cases hEq
        omega

/-- Each action of the logic keeps the record of proposals right. -/
theorem Outstanding.perform (h : Outstanding name actions (r.pending name)) (a : LogicAction V) :
    Outstanding name (actions ++ [a]) ((r.perform a).pending name) := by
  cases a with
  | set other value => exact h.snoc_other (by simp)
  | stall => exact h.snoc_other (by simp)
  | propose other value priority =>
      by_cases hName : other = name
      · subst hName
        exact h.propose value priority
      · have hSame : (r.propose other value priority).pending name = r.pending name := by
          unfold Registers.propose
          dsimp only
          split_ifs
          · simp [Ne.symm hName]
          · rfl
        rw [Registers.perform, hSame]
        exact h.snoc_other (by simp [hName])

/-- At every moment the winning proposal since the last commit is on record, and no other. -/
theorem outstanding_after (hNames : (c.storage.map Storage.name).Nodup) {type : ValueType}
    {default : Option String} (hNext : .next name type default comment ∈ c.storage)
    (past : List (Happening V)) :
    Outstanding name (sinceCommit past) ((after read c past).pending name) := by
  induction past using List.reverseRecOn with
  | nil => intro v q hIn; cases hIn
  | append_singleton past last ih =>
      cases last with
      | act a =>
          rw [after_act, sinceCommit_act]
          exact ih.perform a
      | commit =>
          rw [after_commit, sinceCommit_commit, pending_commitAll_next hNames hNext]
          intro v q hIn
          cases hIn

/-- At every moment the flag is up exactly if the logic stalled since the last commit. -/
theorem stalled_after (hOffered : ∀ a, .act a ∈ past → a.offeredBy c) :
    (after read c past).stalled = true ↔ .stall ∈ sinceCommit past := by
  induction past using List.reverseRecOn with
  | nil => simp [after, sinceCommit, start]
  | append_singleton past last ih =>
      have hIff := ih fun a ha => hOffered a (List.mem_append_left _ ha)
      cases last with
      | act a =>
          rw [after_act, sinceCommit_act, List.mem_append, ← hIff]
          cases a with
          | set other value => simp [perform, write]
          | propose other value priority =>
              simp only [perform, Registers.propose]
              split_ifs <;> simp
          | stall => simp [perform]
      | commit =>
          -- The plan clears the flag only in a stallable combine; in any other it is never raised.
          have hStall : (after read c past).stalled = true → c.stallable = true := fun hUp =>
            hOffered .stall (List.mem_append_left _ (act_mem_of_mem_sinceCommit (hIff.mp hUp)))
          rw [after_commit, sinceCommit_commit, stalled_commitAll hStall]
          simp

/-- An action that the class offers does not touch what a field with proposals shows. -/
theorem current_perform_next (hNames : (c.storage.map Storage.name).Nodup) {type : ValueType}
    {default : Option String} (hNext : .next name type default comment ∈ c.storage)
    {a : LogicAction V} (hOffered : a.offeredBy c) :
    (r.perform a).current name = r.current name := by
  cases a with
  | set other value =>
      obtain ⟨s, hs, hName, hKind⟩ := hOffered
      have hne : name ≠ other := by
        rintro rfl
        exact hKind _ _ _ (List.inj_on_of_nodup_map hNames hs hNext hName)
      simp [perform, write, hne]
  | propose other value priority =>
      simp only [perform, Registers.propose]
      split_ifs <;> rfl
  | stall => rfl

/-- Between commits, whatever the logic does, a field with proposals shows the same value. -/
theorem current_foldl_next (hNames : (c.storage.map Storage.name).Nodup) {type : ValueType}
    {default : Option String} (hNext : .next name type default comment ∈ c.storage)
    {since : List (Happening V)} (hNoCommit : .commit ∉ since)
    (hOffered : ∀ a, .act a ∈ since → a.offeredBy c) :
    (since.foldl (happen read c) r).current name = r.current name := by
  induction since generalizing r with
  | nil => rfl
  | cons h since ih =>
      rw [List.mem_cons, not_or] at hNoCommit
      rw [List.foldl_cons, ih hNoCommit.2 fun a ha => hOffered a (List.mem_cons_of_mem _ ha)]
      cases h with
      | act a => exact current_perform_next hNames hNext (hOffered a List.mem_cons_self)
      | commit => exact absurd rfl hNoCommit.1

theorem current_start (hNames : (c.storage.map Storage.name).Nodup) {s : Storage}
    (hs : s ∈ c.storage) : (start read c).current s.name = read s.initial := by
  simp [start, find?_name_of_mem hNames hs]

/-- What holds of the registers of a combine at a moment of a run, and what a commit at
this moment does. -/
structure TwoPhase (read : String → V) (c : Combine) (past : List (Happening V)) : Prop where
  /-- Before the first commit a field with proposals shows its default. -/
  shows_default : ∀ name type default comment, .next name type default comment ∈ c.storage →
    .commit ∉ past → (after read c past).current name = read (default.getD "0")
  /-- Then it shows what the last commit left, whatever was proposed since. -/
  shows_committed : ∀ name type default comment, .next name type default comment ∈ c.storage →
    ∀ earlier since, past = earlier ++ .commit :: since → .commit ∉ since →
      (after read c past).current name = (after read c (earlier ++ [.commit])).current name
  /-- A commit takes over the winning proposal since the one before, if there is any. -/
  commits_winner : ∀ name type default comment, .next name type default comment ∈ c.storage →
    (∃ value priority, Wins name (sinceCommit past) value priority ∧
      ((after read c past).commitAll read c).current name = value) ∨
    ((∀ value priority, .propose name value priority ∉ sinceCommit past) ∧
      ((after read c past).commitAll read c).current name = (after read c past).current name)
  /-- No proposal outlives a commit. -/
  forgets_proposals : ∀ name type default comment, .next name type default comment ∈ c.storage →
    ((after read c past).commitAll read c).pending name = none
  resets_tick : ∀ name type default comment, .tick name type default comment ∈ c.storage →
    ((after read c past).commitAll read c).current name = read default
  lowers_flag : ((after read c past).commitAll read c).stalled = false
  stalled_iff : (after read c past).stalled = true ↔ .stall ∈ sinceCommit past
  /-- However far a commit has come, a plain field is as it was. -/
  keeps_plain : ∀ name type default comment, .plain name type default comment ∈ c.storage →
    ∀ done left, c.commitPlan = done ++ left →
      (done.foldl (commit read) (after read c past)).current name = (after read c past).current name

theorem twoPhase_of_offered (hNames : (c.storage.map Storage.name).Nodup)
    (hOffered : ∀ a, .act a ∈ past → a.offeredBy c) : TwoPhase read c past where
  shows_default name type default comment hNext hNoCommit := by
    rw [after, current_foldl_next hNames hNext hNoCommit hOffered]
    exact current_start hNames hNext
  shows_committed name type default comment hNext earlier since hSplit hNoCommit := by
    rw [List.append_cons] at hSplit
    rw [hSplit, after_append, current_foldl_next hNames hNext hNoCommit]
    exact fun a ha => hOffered a (by rw [hSplit]; exact List.mem_append_right _ ha)
  commits_winner name type default comment hNext := by
    have hOutstanding : Outstanding name (sinceCommit past) ((after read c past).pending name) :=
      outstanding_after hNames hNext past
    rw [current_commitAll_next hNames hNext]
    cases hPending : (after read c past).pending name with
    | none =>
        rw [hPending] at hOutstanding
        exact Or.inr ⟨hOutstanding, rfl⟩
    | some proposal =>
        rw [hPending] at hOutstanding
        exact Or.inl ⟨proposal.1, proposal.2, hOutstanding, rfl⟩
  forgets_proposals name type default comment hNext := pending_commitAll_next hNames hNext
  resets_tick name type default comment hTick := current_commitAll_tick hNames hTick
  lowers_flag := by
    have hIff : (after read c (past ++ [.commit])).stalled = true ↔
        .stall ∈ sinceCommit (past ++ [.commit]) :=
      stalled_after fun a ha => hOffered a (by simpa using ha)
    simpa using hIff
  stalled_iff := stalled_after hOffered
  keeps_plain name type default comment hPlain done left hPlan := by
    have hSteps : done ⊆ c.commitPlan := by
      rw [hPlan]
      exact List.subset_append_left done left
    exact congrArg Prod.fst (slot_foldl_commit_plain hNames hPlain hSteps)

/-- Every combine of an elaborated project behaves as a two-phase unit: at every moment of
every run, and whatever the logic does in it, the registers are as `TwoPhase` says. -/
theorem run_twoPhase {sources : Sources} {p : Project} {d : Design}
    (h : (Design.elaborate sources p).outcome = .ok d) {c : Combine} (hc : c ∈ d.combines)
    (read : String → V) (cycles : List (Cycle V))
    (hOffered : ∀ k ∈ cycles, ∀ a ∈ k.tick ++ k.applyTick, a.offeredBy c) :
    run read c cycles = after read c (cycles.flatMap Cycle.happenings) ∧
      ∀ past, past <+: cycles.flatMap Cycle.happenings → TwoPhase read c past := by
  have hNames := Combine.nodup_storage_names (Design.checkNames_of_elaborate h hc)
  refine ⟨run_eq_after cycles, fun past hPast => twoPhase_of_offered hNames fun a ha => ?_⟩
  obtain ⟨k, hk, hIn⟩ := List.mem_flatMap.mp (hPast.subset ha)
  refine hOffered k hk a ?_
  simpa [Cycle.happenings] using hIn

/-- A unit with one field of each kind. -/
def fetchProject : Project :=
  { cppDir := "cpp"
    bundles := []
    combines :=
      [{ name := "Fetch", comment := none, source := "fetch.xml"
         pipeIn := [], pipeOut := [], requests := [], services := [], functions := []
         storage := [⟨"count", "uint32", some "3", none⟩]
         storageNext := [⟨"pc", "uint64", some "4", none⟩]
         storageTick := [⟨"fire", "int32", none, none⟩]
         configs := [], init := [], tick := [], applyTick := [], stallable := true }] }

def fetchUnit : Combine :=
  { name := "Fetch", comment := "Combine Fetch"
    pipes := [], requests := [], operations := []
    storage :=
      [.plain "count" (.primitive .uint32) (some "3") "Storage count",
        .next "pc" (.primitive .uint64) (some "4") "Storage pc",
        .tick "fire" .int32 "0" "Storage fire"]
    configs := [], init := [], tick := [], applyTick := [], stallable := true }

/-- Three proposals, of which the second wins, and one in the commit phase that has to wait. -/
def fetchCycles : List (Cycle String) :=
  [{ tick :=
       [.propose "pc" "10" 1, .propose "pc" "20" 2, .set "fire" "7", .propose "pc" "30" 1, .stall]
     applyTick := [.set "count" "9", .propose "pc" "40" 0] },
    { tick := [], applyTick := [] }]

theorem fetchUnit_twoPhase :
    (Design.elaborate (fun _ => .error .notFound) fetchProject).outcome =
        .ok { bundles := [], order := [], combines := [fetchUnit] } ∧
      (∀ k ∈ fetchCycles, ∀ a ∈ k.tick ++ k.applyTick, a.offeredBy fetchUnit) ∧
      (run id fetchUnit (fetchCycles.take 1)).current "pc" = "20" ∧
      (run id fetchUnit fetchCycles).current "pc" = "40" ∧
      TwoPhase id fetchUnit (fetchCycles.flatMap Cycle.happenings) := by
  have hElaborated : (Design.elaborate (fun _ => .error .notFound) fetchProject).outcome =
      .ok { bundles := [], order := [], combines := [fetchUnit] } := by
    rfl
  have hOffered : ∀ k ∈ fetchCycles, ∀ a ∈ k.tick ++ k.applyTick, a.offeredBy fetchUnit := by
    simp [fetchCycles, or_imp, forall_and, LogicAction.offeredBy, fetchUnit, Storage.name]
  refine ⟨hElaborated, hOffered, by decide, by decide, ?_⟩
  exact (run_twoPhase hElaborated List.mem_cons_self id fetchCycles hOffered).2 _
    (List.prefix_refl _)

end Simgen.Registers
