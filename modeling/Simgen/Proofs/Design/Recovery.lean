import Simgen.Cpp.File
import Simgen.Proofs.Bundle.Cycle
import Simgen.Proofs.Design.Elaborate

/-! Which projects elaborate, and what becomes of combines that refer to a missing body.
Such a combine is left out and reported; it still occupies its name, but nothing else in
the design depends on it. -/
namespace Simgen

namespace Descriptor

/-- Some member of the bundle `outer` has the described bundle `inner` as its type. -/
def Embeds (ds : List Bundle) (outer inner : String) : Prop :=
  inner ∈ ds.map Bundle.name ∧
    ∃ d ∈ ds, d.name = outer ∧ ∃ m ∈ d.members, ValueType.ofName m.type = .composite inner

/-- Following embeddings never leads back to the same bundle. -/
def Acyclic (ds : List Bundle) : Prop := ∀ name, ¬ Relation.TransGen (Embeds ds) name name

end Descriptor

namespace Bundle

/-- The bundle of a descriptor whose members have distinct names. -/
def described (d : Descriptor.Bundle) : Bundle :=
  { name := d.name, members := d.members.map memberOf }

theorem ofDescriptor_eq_ok_iff {d : Descriptor.Bundle} {b : Bundle} :
    ofDescriptor d = .ok b ↔
      (d.members.map Descriptor.Member.name).Nodup ∧ b = described d := by
  have hNames := firstRepeat_eq_none_iff [] (d.members.map Descriptor.Member.name)
  unfold ofDescriptor
  split
  next name hRepeat =>
    have hNot : ¬ (d.members.map Descriptor.Member.name).Nodup := by
      intro hNodup
      rw [hNames.mpr ⟨hNodup, by simp⟩] at hRepeat
      cases hRepeat
    simp [hNot]
  next hNone =>
    simp [(hNames.mp hNone).1, described, eq_comm]

theorem names_described (ds : List Descriptor.Bundle) :
    (ds.map described).map Bundle.name = ds.map Descriptor.Bundle.name := by
  simp [described]

theorem embeds_described_iff (ds : List Descriptor.Bundle) (outer inner : String) :
    Embeds (ds.map described) outer inner ↔ Descriptor.Embeds ds outer inner := by
  unfold Embeds Descriptor.Embeds
  rw [names_described]
  simp [described, memberOf]

/-- Described bundles can be ordered exactly if no embedding leads in a circle. -/
theorem arrange_described_ok_iff {ds : List Descriptor.Bundle}
    (hNames : (ds.map Descriptor.Bundle.name).Nodup) :
    (∃ order, (arrange (ds.map described)).outcome = .ok order) ↔ Descriptor.Acyclic ds := by
  have hSame : Embeds (ds.map described) = Descriptor.Embeds ds := by
    funext outer inner
    exact propext (embeds_described_iff ds outer inner)
  have hDescribed : ((ds.map described).map Bundle.name).Nodup := by rwa [names_described]
  have hCycle := Ordering.exists_onCycle_iff hDescribed
  simp only [arrange_eq_ok_iff, exists_and_left, exists_eq', and_true]
  rw [← not_iff_not, ← ne_eq, ← hCycle]
  simp [Descriptor.Acyclic, OnCycle, hSame]

end Bundle

namespace Combine

variable (sources : Sources) (cppDir : String)

/-- The combine of a descriptor, if it can be elaborated. -/
def built? (d : Descriptor.Combine) : Option Combine :=
  (ofDescriptor sources cppDir d).outcome.toOption

/-- The combine refers to a function that its source file does not define, and this is
what stops its elaboration. The error is what is recorded of it. -/
def LacksBody (d : Descriptor.Combine) (e : Error) : Prop :=
  ∃ combine owner func path file,
    (ofDescriptor sources cppDir d).outcome =
      .error { cause := .bodyNotFound combine owner func path, file } ∧
    e = { cause := .bodyNotFound combine owner func path, file := some d.source }

variable {sources cppDir}

theorem built?_eq_some_iff {d : Descriptor.Combine} {c : Combine} :
    built? sources cppDir d = some c ↔ (ofDescriptor sources cppDir d).outcome = .ok c := by
  unfold built?
  cases (ofDescriptor sources cppDir d).outcome with
  | error e => simp [Except.toOption]
  | ok c => simp [Except.toOption]

theorem notes_body? (path func : String) : (sources.body? path func).Notes := by
  unfold Sources.body?
  cases sources path with
  | error e => exact Traced.notes_fail _
  | ok text => exact (Traced.notes_note _ _).bind fun _ => Traced.notes_pure _

theorem notes_codeOf (s : Scope) (owner : String) (d : Descriptor.Code) :
    (codeOf s owner d).Notes := by
  unfold codeOf
  cases d.reference with
  | none => exact (Traced.notes_pure []).bind fun _ => Traced.notes_pure _
  | some r =>
      apply (notes_body? _ _).bind
      intro body
      cases body with
      | none => exact (Traced.notes_fail _).bind fun _ => Traced.notes_pure _
      | some body => exact (Traced.notes_pure _).bind fun _ => Traced.notes_pure _

theorem notes_operationOf (s : Scope) (role : Role) (d : Descriptor.Operation) :
    (operationOf s role d).Notes := by
  have hRest : ∀ f : Signature → Operation,
      (Traced.lift (signatureOf d) >>= fun signature => pure (f signature)).Notes :=
    fun f => (Traced.notes_lift _).bind fun _ => Traced.notes_pure _
  unfold operationOf
  cases d.body with
  | none => exact (Traced.notes_pure []).bind fun _ => hRest _
  | some code => exact (notes_codeOf _ _ _).bind fun _ => hRest _

theorem quiet_phaseOf (s : Scope) (phase : String) (blocks : List Descriptor.Code) :
    (phaseOf s phase blocks).Quiet := by
  unfold phaseOf
  cases blocks with
  | nil => exact Traced.quiet_pure []
  | cons first rest =>
      dsimp only
      split
      · exact (Traced.quiet_warn _).bind fun _ => (notes_codeOf _ _ _).quiet
      · exact (notes_codeOf _ _ _).quiet

/-- While a combine is elaborated, nothing is recorded as failed. -/
theorem quiet_ofDescriptor (d : Descriptor.Combine) :
    (ofDescriptor sources cppDir d).Quiet := by
  unfold ofDescriptor
  refine (Traced.quiet_lift _).bind fun requests => ?_
  refine (Traced.notes_mapM (notes_operationOf _ _) _).quiet.bind fun services => ?_
  refine (Traced.notes_mapM (notes_operationOf _ _) _).quiet.bind fun helpers => ?_
  refine (Traced.notes_mapM (notes_codeOf _ _) _).quiet.bind fun init => ?_
  refine (quiet_phaseOf _ _ _).bind fun tick => ?_
  refine (quiet_phaseOf _ _ _).bind fun applyTick => ?_
  refine (Traced.quiet_lift _).bind fun storage => ?_
  exact (Traced.quiet_lift _).bind fun _ => Traced.quiet_pure _

theorem isConfined_iff (e : Error) :
    e.isConfined = true ↔
      ∃ combine owner func path file,
        e = { cause := .bodyNotFound combine owner func path, file } := by
  obtain ⟨cause, file⟩ := e
  cases cause <;> simp [Error.isConfined, Cause.isConfined]

theorem attempt_of_ok {d : Descriptor.Combine} {c : Combine}
    (h : (ofDescriptor sources cppDir d).outcome = .ok c) :
    attempt sources cppDir d =
      ⟨(ofDescriptor sources cppDir d).journal ++ [.note .debug c.sizeNote], .ok (some c)⟩ := by
  simp [attempt, Traced.blaming, h]

theorem attempt_of_lacksBody {d : Descriptor.Combine} {e : Error}
    (h : LacksBody sources cppDir d e) :
    attempt sources cppDir d =
      ⟨(ofDescriptor sources cppDir d).journal ++ [.failure e], .ok none⟩ := by
  obtain ⟨combine, owner, func, path, file, hRun, rfl⟩ := h
  simp [attempt, Traced.blaming, hRun, Error.isConfined, Error.blaming, Cause.isConfined]

/-- An attempt goes on with the combine if it can be built, and without one if a body is
missing. Every other fault stops it. -/
theorem attempt_eq_ok_iff {d : Descriptor.Combine} {built : Option Combine} :
    (attempt sources cppDir d).outcome = .ok built ↔
      built? sources cppDir d = built ∧ (built = none → ∃ e, LacksBody sources cppDir d e) := by
  cases hRun : (ofDescriptor sources cppDir d).outcome with
  | ok c =>
      have hBuilt := built?_eq_some_iff.mpr hRun
      rw [attempt_of_ok hRun, hBuilt]
      constructor
      · intro h
        cases h
        exact ⟨rfl, fun hNone => nomatch hNone⟩
      · rintro ⟨rfl, -⟩
        rfl
  | error e =>
      have hNone : built? sources cppDir d = none := by
        rw [built?, hRun]
        rfl
      by_cases hConfined : e.isConfined = true
      · obtain ⟨combine, owner, func, path, file, rfl⟩ := (isConfined_iff e).mp hConfined
        have hLacks : LacksBody sources cppDir d _ := ⟨combine, owner, func, path, file, hRun, rfl⟩
        rw [attempt_of_lacksBody hLacks, hNone]
        constructor
        · intro h
          cases h
          exact ⟨rfl, fun _ => ⟨_, hLacks⟩⟩
        · rintro ⟨rfl, -⟩
          rfl
      · have hFatal : (attempt sources cppDir d).outcome = .error (e.blaming d.source) := by
          have hBlamed : (e.blaming d.source).isConfined = false := by
            simpa [Error.isConfined, Error.blaming] using hConfined
          simp [attempt, hRun, hBlamed]
        rw [hFatal, hNone]
        constructor
        · intro h
          cases h
        · rintro ⟨rfl, hLacks⟩
          obtain ⟨_, _, _, _, _, _, hOther, -⟩ := hLacks rfl
          rw [hRun] at hOther
          cases hOther
          exact absurd rfl hConfined

/-- A combine that is kept records no failure, one that is dropped records its own. -/
theorem failures_attempt_of_some {d : Descriptor.Combine} {c : Combine}
    (h : built? sources cppDir d = some c) :
    (attempt sources cppDir d).journal.failures = [] := by
  rw [attempt_of_ok (built?_eq_some_iff.mp h), Journal.failures_append]
  exact congrArg (· ++ []) (quiet_ofDescriptor d)

theorem failures_attempt_of_lacksBody {d : Descriptor.Combine} {e : Error}
    (h : LacksBody sources cppDir d e) :
    (attempt sources cppDir d).journal.failures = [e] := by
  rw [attempt_of_lacksBody h, Journal.failures_append]
  exact congrArg (· ++ [e]) (quiet_ofDescriptor d)

end Combine

namespace Design

variable {sources : Sources} {cppDir : String}

theorem bundlesOf_eq_ok_iff {seen : List String} {ds : List Descriptor.Bundle}
    {bundles : List Bundle} :
    bundlesOf seen ds = .ok bundles ↔
      ((ds.map Descriptor.Bundle.name).Nodup ∧ ∀ n ∈ ds.map Descriptor.Bundle.name, n ∉ seen) ∧
        (∀ d ∈ ds, (d.members.map Descriptor.Member.name).Nodup) ∧
          bundles = ds.map Bundle.described := by
  induction ds generalizing seen bundles with
  | nil => simp [bundlesOf, eq_comm]
  | cons d ds ih =>
      rw [bundlesOf_cons_eq_ok_iff]
      by_cases hSeen : d.name ∈ seen
      · simp [hSeen]
      · rw [List.map_cons, nodup_cons_unseen_iff hSeen, List.forall_mem_cons, List.map_cons]
        simp only [Bundle.ofDescriptor_eq_ok_iff, ih]
        constructor
        · rintro ⟨-, b, rest, ⟨hMembers, rfl⟩, ⟨hNames, hRest, rfl⟩, rfl⟩
          exact ⟨hNames, ⟨hMembers, hRest⟩, rfl⟩
        · rintro ⟨hNames, ⟨hMembers, hRest⟩, rfl⟩
          exact ⟨hSeen, _, _, ⟨hMembers, rfl⟩, ⟨hNames, hRest, rfl⟩, rfl⟩

/-- The combines of a design are those that can be built, in the order of their
descriptors; all others lack a body. A dropped combine has taken its name. -/
theorem combinesOf_eq_ok_iff {seen : List String} {ds : List Descriptor.Combine}
    {combines : List Combine} :
    (combinesOf sources cppDir seen ds).outcome = .ok combines ↔
      ((ds.map Descriptor.Combine.name).Nodup ∧ ∀ n ∈ ds.map Descriptor.Combine.name, n ∉ seen) ∧
        (∀ d ∈ ds, Combine.built? sources cppDir d = none →
          ∃ e, Combine.LacksBody sources cppDir d e) ∧
          combines = ds.filterMap (Combine.built? sources cppDir) := by
  induction ds generalizing seen combines with
  | nil => simp [combinesOf, eq_comm]
  | cons d ds ih =>
      have hFilter : (d :: ds).filterMap (Combine.built? sources cppDir) =
          (Combine.built? sources cppDir d).toList ++
            ds.filterMap (Combine.built? sources cppDir) := by
        cases h : Combine.built? sources cppDir d <;> simp [h]
      rw [combinesOf_cons_eq_ok_iff]
      by_cases hSeen : d.name ∈ seen
      · simp [hSeen]
      · -- The rest sees the name of `d`, whether `d` is kept or dropped.
        rw [List.map_cons, nodup_cons_unseen_iff hSeen, List.forall_mem_cons, hFilter]
        simp only [Combine.attempt_eq_ok_iff, ih]
        constructor
        · rintro ⟨-, built, rest, ⟨rfl, hLacks⟩, ⟨hNames, hRest, rfl⟩, rfl⟩
          exact ⟨hNames, ⟨hLacks, hRest⟩, rfl⟩
        · rintro ⟨hNames, ⟨hLacks, hRest⟩, rfl⟩
          exact ⟨hSeen, _, _, ⟨rfl, hLacks⟩, ⟨hNames, hRest, rfl⟩, rfl⟩

theorem journal_combinesOf_cons {seen : List String} {d : Descriptor.Combine}
    {ds : List Descriptor.Combine} {built : Option Combine} {rest : List Combine}
    (hFresh : d.name ∉ seen) (hBuilt : (Combine.attempt sources cppDir d).outcome = .ok built)
    (hRest : (combinesOf sources cppDir (d.name :: seen) ds).outcome = .ok rest) :
    (combinesOf sources cppDir seen (d :: ds)).journal =
      (Combine.attempt sources cppDir d).journal ++
        (combinesOf sources cppDir (d.name :: seen) ds).journal := by
  rw [combinesOf, if_neg (by simpa using hFresh), Traced.journal_bind_of_ok hBuilt,
    Traced.journal_bind_of_ok hRest]
  exact congrArg _ (List.append_nil _)

/-- Each dropped combine is recorded once, in the order of the descriptors. -/
theorem failures_combinesOf {seen : List String} {ds : List Descriptor.Combine}
    {combines : List Combine} (h : (combinesOf sources cppDir seen ds).outcome = .ok combines) :
    List.Forall₂ (Combine.LacksBody sources cppDir)
      (ds.filter fun d => Combine.built? sources cppDir d = none)
      (combinesOf sources cppDir seen ds).journal.failures := by
  induction ds generalizing seen combines with
  | nil => exact .nil
  | cons d ds ih =>
      obtain ⟨hFresh, built, rest, hBuilt, hRest, -⟩ := combinesOf_cons_eq_ok_iff.mp h
      obtain ⟨hKept, hLacks⟩ := Combine.attempt_eq_ok_iff.mp hBuilt
      rw [journal_combinesOf_cons hFresh hBuilt hRest, Journal.failures_append]
      cases built with
      | some c =>
          rw [Combine.failures_attempt_of_some hKept, List.filter_cons_of_neg (by simp [hKept])]
          exact ih hRest
      | none =>
          obtain ⟨e, hLacks⟩ := hLacks rfl
          rw [Combine.failures_attempt_of_lacksBody hLacks,
            List.filter_cons_of_pos (by simp [hKept])]
          exact .cons hLacks (ih hRest)

theorem quiet_arrange (bundles : List Bundle) : (Bundle.arrange bundles).Quiet := by
  unfold Bundle.arrange
  refine Traced.Quiet.bind ?_ fun _ => (Traced.quiet_lift _).bind fun _ =>
    (Traced.quiet_note _ _).bind fun _ => Traced.quiet_pure _
  simp [Traced.Quiet, Traced.tell, Journal.failures]

/-- What a project needs to be elaborated. -/
theorem elaborate_succeeds_iff (sources : Sources) (p : Project) :
    (∃ design, (elaborate sources p).outcome = .ok design) ↔
      (p.bundles.map Descriptor.Bundle.name).Nodup ∧
      (∀ b ∈ p.bundles, (b.members.map Descriptor.Member.name).Nodup) ∧
      Descriptor.Acyclic p.bundles ∧
      (p.combines.map Descriptor.Combine.name).Nodup ∧
      ∀ d ∈ p.combines, Combine.built? sources p.cppDir d = none →
        ∃ e, Combine.LacksBody sources p.cppDir d e := by
  constructor
  · rintro ⟨design, h⟩
    obtain ⟨hBundles, hOrder, hCombines⟩ := elaborate_eq_ok_iff.mp h
    obtain ⟨⟨hNames, -⟩, hMembers, hDescribed⟩ := bundlesOf_eq_ok_iff.mp hBundles
    obtain ⟨⟨hDistinct, -⟩, hLacks, -⟩ := combinesOf_eq_ok_iff.mp hCombines
    rw [hDescribed] at hOrder
    have hAcyclic := (Bundle.arrange_described_ok_iff hNames).mp ⟨_, hOrder⟩
    exact ⟨hNames, hMembers, hAcyclic, hDistinct, hLacks⟩
  · rintro ⟨hNames, hMembers, hAcyclic, hDistinct, hLacks⟩
    obtain ⟨order, hOrder⟩ := (Bundle.arrange_described_ok_iff hNames).mpr hAcyclic
    refine ⟨⟨p.bundles.map Bundle.described, order,
      p.combines.filterMap (Combine.built? sources p.cppDir)⟩, ?_⟩
    refine elaborate_eq_ok_iff.mpr ⟨?_, hOrder, ?_⟩
    · exact bundlesOf_eq_ok_iff.mpr ⟨⟨hNames, by simp⟩, hMembers, rfl⟩
    · exact combinesOf_eq_ok_iff.mpr ⟨⟨hDistinct, by simp⟩, hLacks, rfl⟩

theorem journal_elaborate {p : Project} {design : Design}
    (h : (elaborate sources p).outcome = .ok design) :
    (elaborate sources p).journal = (Bundle.arrange design.bundles).journal ++
      (combinesOf sources p.cppDir [] p.combines).journal := by
  obtain ⟨hBundles, hOrder, hCombines⟩ := elaborate_eq_ok_iff.mp h
  rw [elaborate, Traced.journal_bind_of_ok (a := design.bundles) hBundles,
    Traced.journal_bind_of_ok hOrder, Traced.journal_bind_of_ok hCombines]
  simp [Traced.ofExcept]

/-- Bundles record no failures, so those of a project are those of its combines. -/
theorem failures_elaborate {p : Project} {design : Design}
    (h : (elaborate sources p).outcome = .ok design) :
    (elaborate sources p).journal.failures =
      (combinesOf sources p.cppDir [] p.combines).journal.failures := by
  have hQuiet : (Bundle.arrange design.bundles).journal.failures = [] := quiet_arrange _
  rw [journal_elaborate h, Journal.failures_append, hQuiet, List.nil_append]

end Design

/-- The project without the combines that cannot be built. -/
def Project.buildable (sources : Sources) (p : Project) : Project :=
  { p with combines := p.combines.filter fun d => (Combine.built? sources p.cppDir d).isSome }

namespace Design

variable {sources : Sources}

/-- What is left out of a design might as well not have been described. -/
theorem elaborate_buildable {p : Project} {design : Design}
    (h : (elaborate sources p).outcome = .ok design) :
    (elaborate sources (p.buildable sources)).outcome = .ok design := by
  obtain ⟨hBundles, hOrder, hCombines⟩ := elaborate_eq_ok_iff.mp h
  refine elaborate_eq_ok_iff.mpr ⟨hBundles, hOrder, ?_⟩
  obtain ⟨⟨hDistinct, -⟩, -, hKept⟩ := combinesOf_eq_ok_iff.mp hCombines
  refine combinesOf_eq_ok_iff.mpr ⟨⟨?_, by simp⟩, ?_, ?_⟩
  · exact (List.filter_sublist.map _).nodup hDistinct
  · intro d hd hNone
    have hSome := (List.mem_filter.mp hd).2
    rw [show Combine.built? sources p.cppDir d = none from hNone] at hSome
    cases hSome
  · rw [hKept, Project.buildable, List.filterMap_filter]
    refine List.filterMap_congr fun d _ => ?_
    cases hBuilt : Combine.built? sources p.cppDir d <;> simp

/-- A project elaborates exactly if its bundles and their members have distinct names and
embed each other in no circle, its combines have distinct names, and each of them can be
built or else lacks a body. The design then holds the combines that can be built, in order.
Each other one is recorded once, with its own file, and leaving them all out of the project
changes neither the design nor the files generated from it. -/
theorem elaborate_leaves_out_missing_bodies (sources : Sources) (p : Project) :
    ((∃ design, (elaborate sources p).outcome = .ok design) ↔
      (p.bundles.map Descriptor.Bundle.name).Nodup ∧
      (∀ b ∈ p.bundles, (b.members.map Descriptor.Member.name).Nodup) ∧
      Descriptor.Acyclic p.bundles ∧
      (p.combines.map Descriptor.Combine.name).Nodup ∧
      ∀ d ∈ p.combines, (∃ c, (Combine.ofDescriptor sources p.cppDir d).outcome = .ok c) ∨
        ∃ e, Combine.LacksBody sources p.cppDir d e) ∧
    ∀ design, (elaborate sources p).outcome = .ok design →
      design.combines = p.combines.filterMap (Combine.built? sources p.cppDir) ∧
      List.Forall₂ (Combine.LacksBody sources p.cppDir)
        (p.combines.filter fun d => Combine.built? sources p.cppDir d = none)
        (elaborate sources p).journal.failures ∧
      (elaborate sources (p.buildable sources)).outcome = .ok design ∧
      ∀ style, (elaborate sources (p.buildable sources) >>= Cpp.generate style).outcome =
        (elaborate sources p >>= Cpp.generate style).outcome := by
  constructor
  · have hEither : ∀ d, ((∃ c, (Combine.ofDescriptor sources p.cppDir d).outcome = .ok c) ∨
        ∃ e, Combine.LacksBody sources p.cppDir d e) ↔
          (Combine.built? sources p.cppDir d = none →
            ∃ e, Combine.LacksBody sources p.cppDir d e) := by
      intro d
      simp only [← Combine.built?_eq_some_iff, ← Option.ne_none_iff_exists', ne_eq]
      exact imp_iff_not_or.symm
    simp only [hEither]
    exact elaborate_succeeds_iff sources p
  · intro design h
    obtain ⟨-, -, hCombines⟩ := elaborate_eq_ok_iff.mp h
    have hSame := elaborate_buildable h
    refine ⟨(combinesOf_eq_ok_iff.mp hCombines).2.2, ?_, hSame, ?_⟩
    · rw [failures_elaborate h]
      exact failures_combinesOf hCombines
    · intro style
      rw [Traced.outcome_bind, Traced.outcome_bind, hSame, h]

/-- Three combines of which the middle one refers to a function that its file only declares. -/
def patchyProject : Project :=
  let combine (name : String) (tick : List Descriptor.Code) : Descriptor.Combine :=
    { name, comment := none, source := name ++ ".xml", pipeIn := [], pipeOut := [], requests := []
      services := [], functions := [], storage := [], storageNext := [], storageTick := []
      configs := [], init := [], tick, applyTick := [], stallable := false }
  { cppDir := "cpp"
    bundles := [⟨"Packet", [⟨"bits", "uint8", none⟩], "p.xml"⟩]
    combines :=
      [combine "Fetch" [⟨some ⟨"a.cpp", "step"⟩, ["++n;"]⟩],
        combine "Decode" [⟨some ⟨"a.cpp", "later"⟩, []⟩],
        combine "Retire" []] }

def patchySources : Sources := fun path =>
  if path = "cpp/a.cpp" then .ok "void later();\nvoid step() \x7b n = 1; \x7d" else .error .notFound

theorem patchyProject_elaborated :
    ∃ design, (elaborate patchySources patchyProject).outcome = .ok design ∧
      design.combines.map Combine.name = ["Fetch", "Retire"] ∧
      (elaborate patchySources patchyProject).journal.failures =
        [{ cause := .bodyNotFound "Decode" "tick" "later" "cpp/a.cpp"
           file := some "Decode.xml" }] ∧
      (elaborate patchySources (patchyProject.buildable patchySources)).outcome = .ok design := by
  have hRun : ((elaborate patchySources patchyProject).outcome.toOption.map fun design =>
      design.combines.map Combine.name) = some ["Fetch", "Retire"] := by
    decide +kernel
  obtain ⟨design, hDesign, hNames⟩ := Option.map_eq_some_iff.mp hRun
  have hOk : (elaborate patchySources patchyProject).outcome = .ok design := by
    cases h : (elaborate patchySources patchyProject).outcome with
    | error e => rw [h] at hDesign; cases hDesign
    | ok other => rw [h] at hDesign; cases hDesign; rfl
  obtain ⟨-, -, hSame, -⟩ :=
    (elaborate_leaves_out_missing_bodies patchySources patchyProject).2 design hOk
  exact ⟨design, hOk, hNames, by decide +kernel, hSame⟩

end Design

end Simgen
