import Simgen.Proofs.Design.Checks
import Simgen.Proofs.Design.Recovery

/-! Only the first block of a phase counts. Later ones are never looked at, so that it does not
matter what they hold or refer to. All they can do is to cause a warning, at one place of the
journal, and only if elaboration gets as far as their phase. -/
namespace Simgen

namespace Descriptor

/-- The first block with others behind it. Where there is no block, nothing can stand behind. -/
def followedBy (later : List Code) : List Code → List Code
  | [] => []
  | first :: _ => first :: later

/-- The combine with other blocks behind the first one of each phase. -/
def Combine.withLater (d : Combine) (ticks applyTicks : List Code) : Combine :=
  { d with tick := followedBy ticks d.tick, applyTick := followedBy applyTicks d.applyTick }

/-- The checks that are made before the code of the first phase is looked up. -/
def Combine.checksBeforeTick (d : Combine) : List Check :=
  d.requests.map Check.signature ++ (d.services ++ d.functions).flatMap Operation.checks ++
    d.init.map Check.code

/-- Elaboration gets as far as the first phase. -/
def Combine.ReachesTick (sources : Sources) (cppDir : String) (d : Combine) : Prop :=
  ∀ check ∈ d.checksBeforeTick, check.Passes sources cppDir d

/-- Elaboration gets as far as the second phase. -/
def Combine.ReachesApplyTick (sources : Sources) (cppDir : String) (d : Combine) : Prop :=
  ∀ check ∈ d.checksBeforeTick ++ d.tick.head?.toList.map Check.code,
    check.Passes sources cppDir d

theorem head?_followedBy (later blocks : List Code) :
    (followedBy later blocks).head? = blocks.head? := by
  cases blocks with
  | nil => rfl
  | cons first rest => rfl

end Descriptor

namespace Combine

open Descriptor (Check Decided)

variable {sources : Sources} {cppDir : String}

/-- The part of a combine that is elaborated before its phases. -/
structure Opening where
  requests : List Request
  services : List Operation
  helpers : List Operation
  init : List Code

def opening (s : Scope) (d : Descriptor.Combine) : Traced Opening := do
  let requests ← Traced.lift (d.requests.mapM requestOf)
  let services ← d.services.mapM (operationOf s .service)
  let helpers ← d.functions.mapM (operationOf s .helper)
  let init ← d.init.mapM (codeOf s "init")
  return { requests, services, helpers, init }

/-- The code of the first block of a phase, if there is one. -/
def leadingCode (s : Scope) (phase : String) : Option Descriptor.Code → Traced Code
  | none => pure []
  | some block => codeOf s phase block

/-- The warning that a phase has more than one block. -/
def repeatedPhase (combine phase : String) (blocks : List Descriptor.Code) : Journal :=
  if 1 < blocks.length then [.warning (.duplicateLifecycle combine phase)] else []

/-- What is left to be done after the phases. -/
def completed (d : Descriptor.Combine) (o : Opening) (tick applyTick : Code) :
    Except Cause Combine := do
  let storage ← storageOf d
  let combine : Combine :=
    { name := d.name
      comment := d.comment.getD ("Combine " ++ d.name)
      pipes := d.pipeIn.map (pipeOf .input "Pipe input") ++
        d.pipeOut.map (pipeOf .output "Pipe output")
      requests := o.requests
      operations := o.services ++ o.helpers
      storage
      configs := d.configs.map constantOf
      init := o.init.flatten
      tick
      applyTick
      stallable := d.stallable }
  combine.checkNames
  return combine

/-- The warnings that a combine has more than one block for a phase. -/
def repetitions (combine : String) (phases : List String) : List Event :=
  phases.map fun phase => .warning (.duplicateLifecycle combine phase)

theorem phaseOf_eq (s : Scope) (phase : String) (blocks : List Descriptor.Code) :
    phaseOf s phase blocks = (do
      Traced.tell (repeatedPhase s.combine phase blocks)
      leadingCode s phase blocks.head?) := by
  unfold phaseOf repeatedPhase
  cases blocks with
  | nil => rfl
  | cons first rest =>
      dsimp only
      split
      · rfl
      · rfl

/-- Elaboration of a combine, taken apart at its phases. -/
theorem ofDescriptor_eq (sources : Sources) (cppDir : String) (d : Descriptor.Combine) :
    ofDescriptor sources cppDir d = (do
      let o ← opening ⟨sources, cppDir, d.name⟩ d
      Traced.tell (repeatedPhase d.name "tick" d.tick)
      let tick ← leadingCode ⟨sources, cppDir, d.name⟩ "tick" d.tick.head?
      Traced.tell (repeatedPhase d.name "applytick" d.applyTick)
      let applyTick ← leadingCode ⟨sources, cppDir, d.name⟩ "applytick" d.applyTick.head?
      Traced.lift (completed d o tick applyTick)) := by
  simp only [ofDescriptor, opening, completed, phaseOf_eq, Traced.lift_bind, bind_assoc, pure_bind]
  rfl

theorem notes_opening (s : Scope) (d : Descriptor.Combine) : (opening s d).Notes := by
  unfold opening
  apply (Traced.notes_lift _).bind
  intro requests
  apply (Traced.notes_mapM (notes_operationOf _ _) _).bind
  intro services
  apply (Traced.notes_mapM (notes_operationOf _ _) _).bind
  intro helpers
  exact (Traced.notes_mapM (notes_codeOf _ _) _).bind fun init => Traced.notes_pure _

theorem notes_leadingCode (s : Scope) (phase : String) (block : Option Descriptor.Code) :
    (leadingCode s phase block).Notes := by
  cases block with
  | none => exact Traced.notes_pure []
  | some block => exact notes_codeOf s phase block

theorem decided_opening (s : Scope) (d : Descriptor.Combine) :
    Decided s.sources s.cppDir d d.checksBeforeTick (opening s d).outcome := by
  have hChecks : d.checksBeforeTick = d.requests.map Check.signature ++
      (d.services.flatMap Descriptor.Operation.checks ++
        (d.functions.flatMap Descriptor.Operation.checks ++ d.init.map Check.code)) := by
    simp [Descriptor.Combine.checksBeforeTick]
  rw [hChecks]
  simp only [opening, Traced.outcome_bind, Traced.outcome_mapM, Traced.outcome_lift]
  refine .bind ?_ fun requests _ => ?_
  · rw [mapError_mapM]
    exact .mapM_single fun op _ => decided_requestOf d op
  refine .bind (.mapM fun op _ => decided_operationOf s d .service op) fun services _ => ?_
  refine .bind (.mapM fun op _ => decided_operationOf s d .helper op) fun helpers _ => ?_
  exact (Decided.mapM_single fun c _ => decided_codeOf s d "init" c).map _

theorem decided_leadingCode (s : Scope) (d : Descriptor.Combine) (phase : String)
    (block : Option Descriptor.Code) :
    Decided s.sources s.cppDir d (block.toList.map .code) (leadingCode s phase block).outcome := by
  cases block with
  | none => exact .nil _
  | some block => exact decided_codeOf s d phase block

section

variable {d : Descriptor.Combine} {o : Opening} {tick : Code} {e : Error}

theorem journal_of_opening_error (h : (opening ⟨sources, cppDir, d.name⟩ d).outcome = .error e) :
    (ofDescriptor sources cppDir d).journal = (opening ⟨sources, cppDir, d.name⟩ d).journal := by
  rw [ofDescriptor_eq, Traced.journal_bind_of_error h]

theorem journal_of_tick_error (h : (opening ⟨sources, cppDir, d.name⟩ d).outcome = .ok o)
    (hTick : (leadingCode ⟨sources, cppDir, d.name⟩ "tick" d.tick.head?).outcome = .error e) :
    (ofDescriptor sources cppDir d).journal =
      (opening ⟨sources, cppDir, d.name⟩ d).journal ++ (repeatedPhase d.name "tick" d.tick ++
        (leadingCode ⟨sources, cppDir, d.name⟩ "tick" d.tick.head?).journal) := by
  rw [ofDescriptor_eq, Traced.journal_bind_of_ok h,
    Traced.journal_bind_of_ok (Traced.outcome_tell _), Traced.journal_bind_of_error hTick]
  rfl

theorem journal_of_tick_ok (h : (opening ⟨sources, cppDir, d.name⟩ d).outcome = .ok o)
    (hTick : (leadingCode ⟨sources, cppDir, d.name⟩ "tick" d.tick.head?).outcome = .ok tick) :
    (ofDescriptor sources cppDir d).journal =
      (opening ⟨sources, cppDir, d.name⟩ d).journal ++ (repeatedPhase d.name "tick" d.tick ++
        ((leadingCode ⟨sources, cppDir, d.name⟩ "tick" d.tick.head?).journal ++
          (repeatedPhase d.name "applytick" d.applyTick ++
            (leadingCode ⟨sources, cppDir, d.name⟩ "applytick" d.applyTick.head?).journal))) := by
  rw [ofDescriptor_eq, Traced.journal_bind_of_ok h,
    Traced.journal_bind_of_ok (Traced.outcome_tell _), Traced.journal_bind_of_ok hTick,
    Traced.journal_bind_of_ok (Traced.outcome_tell _), Traced.journal_bind_lift]
  rfl

end

theorem repeatedPhase_subset {combine phase : String} {phases : List String}
    (h : phase ∈ phases) (blocks : List Descriptor.Code) :
    repeatedPhase combine phase blocks ⊆ repetitions combine phases := by
  intro event hEvent
  unfold repeatedPhase at hEvent
  split at hEvent
  · obtain rfl := List.mem_singleton.mp hEvent
    exact List.mem_map_of_mem h
  · cases hEvent

variable (d : Descriptor.Combine) (ticks applyTicks : List Descriptor.Code)

theorem sameBut_ofDescriptor :
    Traced.SameBut (repetitions d.name ["tick", "applytick"])
      (ofDescriptor sources cppDir (d.withLater ticks applyTicks))
      (ofDescriptor sources cppDir d) := by
  have hTick := @repeatedPhase_subset d.name "tick" ["tick", "applytick"] (by decide)
  have hApplyTick := @repeatedPhase_subset d.name "applytick" ["tick", "applytick"] (by decide)
  rw [ofDescriptor_eq, ofDescriptor_eq]
  dsimp only [Descriptor.Combine.withLater]
  rw [Descriptor.head?_followedBy, Descriptor.head?_followedBy]
  -- The two runs share every step but the warnings.
  apply (Traced.SameBut.refl _).bind
  intro o
  apply (Traced.SameBut.tell (hTick _) (hTick _)).bind
  intro _
  apply (Traced.SameBut.refl _).bind
  intro tick
  apply (Traced.SameBut.tell (hApplyTick _) (hApplyTick _)).bind
  intro _
  exact .refl _

theorem sameBut_attempt :
    Traced.SameBut (repetitions d.name ["tick", "applytick"])
      (attempt sources cppDir (d.withLater ticks applyTicks)) (attempt sources cppDir d) := by
  obtain ⟨hOutcome, hJournal⟩ := @sameBut_ofDescriptor sources cppDir d ticks applyTicks
  unfold attempt Traced.blaming
  rw [hOutcome]
  dsimp only [Descriptor.Combine.withLater]
  cases (ofDescriptor sources cppDir d).outcome with
  | ok c => exact .extend hJournal _ _
  | error e =>
      dsimp only [mapError_error]
      split
      · exact .extend hJournal _ _
      · exact ⟨rfl, hJournal⟩

end Combine

namespace Design

open Descriptor (Check)

variable {sources : Sources} {cppDir : String}

theorem sameBut_combinesOf_cons {odd : List Event} {d e : Descriptor.Combine}
    {ds es : List Descriptor.Combine} {seen : List String} (hName : e.name = d.name)
    (hSource : e.source = d.source)
    (hAttempt : Traced.SameBut odd (Combine.attempt sources cppDir e)
      (Combine.attempt sources cppDir d))
    (hRest : Traced.SameBut odd (combinesOf sources cppDir (d.name :: seen) es)
      (combinesOf sources cppDir (d.name :: seen) ds)) :
    Traced.SameBut odd (combinesOf sources cppDir seen (e :: es))
      (combinesOf sources cppDir seen (d :: ds)) := by
  rw [combinesOf, combinesOf, hName, hSource]
  split
  · -- The name is taken, and neither run goes on.
    exact ⟨rfl, rfl⟩
  · apply hAttempt.bind
    intro combine
    apply hRest.bind
    intro rest
    exact .refl _

theorem sameBut_combinesOf (seen : List String) (before after : List Descriptor.Combine)
    (d : Descriptor.Combine) (ticks applyTicks : List Descriptor.Code) :
    Traced.SameBut (Combine.repetitions d.name ["tick", "applytick"])
      (combinesOf sources cppDir seen (before ++ d.withLater ticks applyTicks :: after))
      (combinesOf sources cppDir seen (before ++ d :: after)) := by
  induction before generalizing seen with
  | nil =>
      exact sameBut_combinesOf_cons rfl rfl (Combine.sameBut_attempt d ticks applyTicks) (.refl _)
  | cons other before ih => exact sameBut_combinesOf_cons rfl rfl (.refl _) (ih _)

/-- What stands behind the first block of a phase changes neither what becomes of a combine nor,
in a project, the design or the files generated from it. The journal of a combine has one place
for each phase where it is warned of more than one block; its other entries are the same whatever
the later blocks are, and a place is only reached if all checks before it are passed. -/
theorem later_blocks_only_warn (sources : Sources) (d : Descriptor.Combine) :
    (∀ cppDir, ∃ front middle back : Journal,
      Journal.OnlyNotes (front ++ middle ++ back) ∧ ∀ ticks applyTicks,
        let e := d.withLater ticks applyTicks
        let run := Combine.ofDescriptor sources cppDir e
        run.outcome = (Combine.ofDescriptor sources cppDir d).outcome ∧
        (d.ReachesApplyTick sources cppDir → run.journal =
          front ++ Combine.repeatedPhase d.name "tick" e.tick ++ middle ++
            Combine.repeatedPhase d.name "applytick" e.applyTick ++ back) ∧
        (d.ReachesTick sources cppDir → ¬ d.ReachesApplyTick sources cppDir → run.journal =
          front ++ Combine.repeatedPhase d.name "tick" e.tick ++ middle) ∧
        (¬ d.ReachesTick sources cppDir → run.journal = front)) ∧
    ∀ (p : Project) before after ticks applyTicks,
      let changed := { p with combines := before ++ d.withLater ticks applyTicks :: after }
      let given := { p with combines := before ++ d :: after }
      let odd := Combine.repetitions d.name ["tick", "applytick"]
      Traced.SameBut odd (elaborate sources changed) (elaborate sources given) ∧
      ∀ style, Traced.SameBut odd (elaborate sources changed >>= Cpp.generate style)
        (elaborate sources given >>= Cpp.generate style) := by
  constructor
  · intro cppDir
    let s : Combine.Scope := ⟨sources, cppDir, d.name⟩
    have hOpening := (Combine.decided_opening s d).exists_ok_iff
    have hTick := (Combine.decided_leadingCode s d "tick" d.tick.head?).exists_ok_iff
    refine ⟨(Combine.opening s d).journal, (Combine.leadingCode s "tick" d.tick.head?).journal,
      (Combine.leadingCode s "applytick" d.applyTick.head?).journal, ?_, ?_⟩
    · exact ((Combine.notes_opening s d).append (Combine.notes_leadingCode s _ _)).append
        (Combine.notes_leadingCode s _ _)
    · intro ticks applyTicks e run
      have hReaches : d.ReachesApplyTick sources cppDir ↔ d.ReachesTick sources cppDir ∧
          ∀ check ∈ d.tick.head?.toList.map Check.code, check.Passes sources cppDir d :=
        List.forall_mem_append
      have hTickHead : e.tick.head? = d.tick.head? := Descriptor.head?_followedBy ticks d.tick
      have hApplyHead : e.applyTick.head? = d.applyTick.head? :=
        Descriptor.head?_followedBy applyTicks d.applyTick
      refine ⟨(Combine.sameBut_ofDescriptor d ticks applyTicks).outcome, ?_, ?_, ?_⟩
      · intro hReached
        obtain ⟨hFirst, hSecond⟩ := hReaches.mp hReached
        obtain ⟨o, ho⟩ := hOpening.mpr hFirst
        obtain ⟨tick, hCode⟩ := hTick.mpr hSecond
        have hJournal := @Combine.journal_of_tick_ok sources cppDir e o tick ho (by rwa [hTickHead])
        rw [hTickHead, hApplyHead] at hJournal
        simp only [List.append_assoc]
        exact hJournal
      · intro hFirst hNot
        obtain ⟨o, ho⟩ := hOpening.mpr hFirst
        have hStops : ¬ ∃ tick, (Combine.leadingCode s "tick" d.tick.head?).outcome = .ok tick :=
          fun hOk => hNot (hReaches.mpr ⟨hFirst, hTick.mp hOk⟩)
        obtain ⟨failure, hFailure⟩ := exists_error_of_not_ok hStops
        have hJournal := @Combine.journal_of_tick_error sources cppDir e o failure ho
          (by rwa [hTickHead])
        rw [hTickHead] at hJournal
        rw [List.append_assoc]
        exact hJournal
      · intro hNot
        obtain ⟨failure, hFailure⟩ := exists_error_of_not_ok fun hOk => hNot (hOpening.mp hOk)
        exact @Combine.journal_of_opening_error sources cppDir e failure hFailure
  · intro p before after ticks applyTicks changed given odd
    have hElaborate : Traced.SameBut odd (elaborate sources changed) (elaborate sources given) := by
      apply (Traced.SameBut.refl _).bind
      intro bundles
      apply (Traced.SameBut.refl _).bind
      intro order
      apply (sameBut_combinesOf [] before after d ticks applyTicks).bind
      intro combines
      exact .refl _
    exact ⟨hElaborate, fun style => hElaborate.bind fun design => .refl _⟩

end Design

end Simgen
