import Simgen.Proofs.Design.Checks
import Simgen.Proofs.Design.Recovery

/-! What a missing body hides. A combine with a defect in its descriptor is never built. But it
stops the compiler only if the defect is found: where a function is missing that is looked up
earlier, the combine is left out for that reason, and no one learns of the defect. -/
namespace Simgen

namespace Descriptor

/-- The descriptor is defective by itself, whatever source files hold. -/
inductive Combine.Defective (d : Combine) : Prop where
  | signature (op : Operation) (hOp : op ∈ d.requests ++ d.services ++ d.functions)
      (hRepeat : ¬ op.paramNames.Nodup)
  | storage (field : Storage) (hField : field ∈ d.storageTick)
      (hType : (ValueType.ofName field.type).isPrimitive = false)
  | names (hNames : ¬ d.NamesFit)

/-- A function that a block refers to is missing, and everything that is checked before the
block is in order. -/
def Combine.StopsAtMissing (sources : Sources) (cppDir : String) (d : Combine) : Prop :=
  ∃ before c after, d.checks = before ++ Check.code c :: after ∧
    (∀ check ∈ before, check.Passes sources cppDir d) ∧ c.Missing sources cppDir

/-- A block refers to a function, and no defect comes up before the block. -/
def Combine.RefersFirst (d : Combine) : Prop :=
  ∃ before c after, d.checks = before ++ Check.code c :: after ∧
    (∀ check ∈ before, ¬ check.Flawed d) ∧ c.reference ≠ none

theorem Combine.signature_mem_checks {d : Combine} {op : Operation} :
    .signature op ∈ d.checks ↔ op ∈ d.requests ++ d.services ++ d.functions := by
  simp [Combine.checks, Operation.checks]

theorem Combine.storage_mem_checks {d : Combine} {field : Storage} :
    .storage field ∈ d.checks ↔ field ∈ d.storageTick := by
  simp [Combine.checks, Operation.checks]

/-- The defects are what the checks find that do not depend on source files. -/
theorem Combine.defective_iff (d : Combine) :
    d.Defective ↔ ∃ check ∈ d.checks, check.Flawed d := by
  constructor
  · rintro (⟨op, hOp, hRepeat⟩ | ⟨field, hField, hType⟩ | hNames)
    · exact ⟨.signature op, signature_mem_checks.mpr hOp, hRepeat⟩
    · exact ⟨.storage field, storage_mem_checks.mpr hField, hType⟩
    · exact ⟨.names, by simp [Combine.checks], hNames⟩
  · rintro ⟨check, hCheck, hFlawed⟩
    cases check with
    | code c => exact hFlawed.elim
    | signature op => exact .signature op (signature_mem_checks.mp hCheck) hFlawed
    | storage field => exact .storage field (storage_mem_checks.mp hCheck) hFlawed
    | names => exact .names hFlawed

/-- Sources in which every file can be read and holds nothing. -/
def blankSources : Sources := fun _ => .ok ""

theorem body?_blank (func : String) : Source.body? "" func = none := by
  have hNone : Source.definitionsOf "" = [] := by decide +kernel
  rw [Source.body?, hNone]
  rfl

theorem Code.missing_blank {c : Code} (cppDir : String) (h : c.reference ≠ none) :
    c.Missing blankSources cppDir := by
  obtain ⟨r, hr⟩ := Option.ne_none_iff_exists'.mp h
  exact ⟨r, "", hr, rfl, body?_blank r.func⟩

/-- In blank sources, a check is passed if it finds no flaw and looks nothing up. -/
theorem Check.passes_blank {d : Combine} {check : Check} (cppDir : String)
    (hFlaw : ¬ check.Flawed d) (hCode : ∀ c, check = .code c → c.reference = none) :
    check.Passes blankSources cppDir d := by
  cases check with
  | signature op => exact hFlaw
  | storage field => exact hFlaw
  | names => exact hFlaw
  | code c =>
      refine ⟨none, ?_⟩
      rw [Code.Refers, hCode c rfl]

/-- Checks that can be made without a flaw up to a block that refers to a function can be made
up to the first such block. -/
theorem exists_first_reference {d : Combine} {before after : List Check} {c : Code}
    (hBefore : ∀ check ∈ before, ¬ check.Flawed d) (hc : c.reference ≠ none) :
    ∃ first other rest, before ++ Check.code c :: after = first ++ Check.code other :: rest ∧
      (∀ check ∈ first, ¬ check.Flawed d ∧ ∀ e, check = .code e → e.reference = none) ∧
      other.reference ≠ none := by
  induction before with
  | nil => exact ⟨[], c, after, rfl, by simp, hc⟩
  | cons check before ih =>
      obtain ⟨hHead, hTail⟩ := List.forall_mem_cons.mp hBefore
      by_cases hReference : ∀ e, check = .code e → e.reference = none
      · obtain ⟨first, other, rest, hSplit, hFirst, hOther⟩ := ih hTail
        refine ⟨check :: first, other, rest, by rw [List.cons_append, hSplit, List.cons_append], ?_,
          hOther⟩
        exact List.forall_mem_cons.mpr ⟨⟨hHead, hReference⟩, hFirst⟩
      · push Not at hReference
        obtain ⟨e, rfl, he⟩ := hReference
        exact ⟨[], e, before ++ Check.code c :: after, rfl, by simp, he⟩

section

variable {sources : Sources} {cppDir : String} {d : Combine}

theorem Code.Missing.not_unreadable {c : Code} (h : c.Missing sources cppDir) :
    ¬ c.Unreadable sources cppDir := by
  obtain ⟨r, text, hReference, hText, -⟩ := h
  rintro ⟨r', e, hReference', hError⟩
  cases hReference.symm.trans hReference'
  cases hText.symm.trans hError

theorem Code.Missing.not_passes {c : Code} (h : c.Missing sources cppDir) :
    ¬ (Check.code c).Passes sources cppDir d := by
  have hFails : (Check.code c).FailsWith sources cppDir d
      { cause := .bodyNotFound "" "" "" "" } := Or.inr ⟨h, rfl⟩
  exact Check.not_passes_of_failsWith hFails

/-- There is only one first check that fails. -/
theorem first_failing_unique {before before' after after' : List Check} {check check' : Check}
    (h : before ++ check :: after = before' ++ check' :: after')
    (hBefore : ∀ other ∈ before, other.Passes sources cppDir d)
    (hCheck : ¬ check.Passes sources cppDir d)
    (hBefore' : ∀ other ∈ before', other.Passes sources cppDir d)
    (hCheck' : ¬ check'.Passes sources cppDir d) : check = check' := by
  induction before generalizing before' with
  | nil =>
      cases before' with
      | nil => exact (List.cons.inj h).1
      | cons other rest =>
          obtain ⟨rfl, -⟩ := List.cons.inj h
          exact absurd (hBefore' _ List.mem_cons_self) hCheck
  | cons other rest ih =>
      cases before' with
      | nil =>
          obtain ⟨rfl, -⟩ := List.cons.inj h
          exact absurd (hBefore _ List.mem_cons_self) hCheck'
      | cons other' rest' =>
          exact ih (List.cons.inj h).2 (List.forall_mem_cons.mp hBefore).2
            (List.forall_mem_cons.mp hBefore').2

end

/-- Blank sources hide whatever can be hidden. -/
theorem Combine.stopsAtMissing_blank {d : Combine} (cppDir : String) (h : d.RefersFirst) :
    d.StopsAtMissing blankSources cppDir := by
  obtain ⟨before, c, after, hChecks, hBefore, hc⟩ := h
  obtain ⟨first, other, rest, hSplit, hFirst, hOther⟩ := exists_first_reference hBefore hc
  refine ⟨first, other, rest, hChecks.trans hSplit, fun check hCheck => ?_,
    Code.missing_blank cppDir hOther⟩
  exact Check.passes_blank cppDir (hFirst check hCheck).1 (hFirst check hCheck).2

theorem Combine.StopsAtMissing.refersFirst {sources : Sources} {cppDir : String} {d : Combine}
    (h : d.StopsAtMissing sources cppDir) : d.RefersFirst := by
  obtain ⟨before, c, after, hChecks, hBefore, r, text, hReference, -⟩ := h
  refine ⟨before, c, after, hChecks, fun check hCheck => ?_, by simp [hReference]⟩
  exact Check.not_flawed_of_passes (hBefore check hCheck)

end Descriptor

namespace Combine

open Descriptor (Check)

variable {sources : Sources} {cppDir : String} {d : Descriptor.Combine}

/-- A defective combine is never built. -/
theorem built?_of_defective (h : d.Defective) : built? sources cppDir d = none := by
  obtain ⟨check, hCheck, hFlawed⟩ := d.defective_iff.mp h
  rw [Option.eq_none_iff_forall_ne_some]
  intro c hc
  have hAll := ofDescriptor_succeeds_iff.mp ⟨c, built?_eq_some_iff.mp hc⟩
  exact Check.not_flawed_of_passes (hAll check hCheck) hFlawed

theorem lacksBody_iff_isConfined :
    (∃ e, LacksBody sources cppDir d e) ↔
      ∃ e, (ofDescriptor sources cppDir d).outcome = .error e ∧ e.isConfined = true := by
  constructor
  · rintro ⟨_, combine, owner, func, path, file, hOutcome, -⟩
    exact ⟨_, hOutcome, rfl⟩
  · rintro ⟨e, hOutcome, hConfined⟩
    obtain ⟨combine, owner, func, path, file, rfl⟩ := (isConfined_iff e).mp hConfined
    exact ⟨_, combine, owner, func, path, file, hOutcome, rfl⟩

/-- A combine is dropped exactly if a missing function is the first thing that is wrong. -/
theorem lacksBody_iff :
    (∃ e, LacksBody sources cppDir d e) ↔ d.StopsAtMissing sources cppDir := by
  rw [lacksBody_iff_isConfined]
  have hDecided := decided_ofDescriptor sources cppDir d
  unfold Descriptor.Combine.StopsAtMissing
  generalize (ofDescriptor sources cppDir d).outcome = outcome at hDecided ⊢
  generalize d.checks = checks at hDecided ⊢
  cases hDecided with
  | passed all =>
      constructor
      · rintro ⟨e, hOutcome, -⟩
        cases hOutcome
      · rintro ⟨before, c, after, rfl, -, hMissing⟩
        exact absurd (all (.code c) (by simp)) hMissing.not_passes
  | @failed before after check e prior first =>
      constructor
      · rintro ⟨_, hOutcome, hConfined⟩
        cases hOutcome
        cases check with
        | code c =>
            rcases first with ⟨-, hNot⟩ | ⟨hMissing, -⟩
            · cases hNot.symm.trans hConfined
            · exact ⟨before, c, after, rfl, prior, hMissing⟩
        | signature op => cases first.2.symm.trans hConfined
        | storage field => cases first.2.symm.trans hConfined
        | names => cases first.2.symm.trans hConfined
      · rintro ⟨before', c, after', hSplit, hBefore, hMissing⟩
        obtain rfl : check = .code c := Descriptor.first_failing_unique hSplit prior
          (Check.not_passes_of_failsWith first) hBefore hMissing.not_passes
        rcases first with ⟨hUnreadable, -⟩ | ⟨-, hConfined⟩
        · exact absurd hUnreadable hMissing.not_unreadable
        · exact ⟨e, rfl, hConfined⟩

/-- With blank sources, every combine is built or dropped whose defects, if any, stand behind a
reference. -/
theorem lacksBody_blank {d : Descriptor.Combine} (hHidden : d.Defective → d.RefersFirst)
    (hNone : built? Descriptor.blankSources cppDir d = none) :
    ∃ e, LacksBody Descriptor.blankSources cppDir d e := by
  rw [lacksBody_iff]
  by_cases hFirst : d.RefersFirst
  · exact Descriptor.Combine.stopsAtMissing_blank cppDir hFirst
  · -- There is neither a defect nor a reference, and so the combine would have been built.
    exfalso
    have hSound : ∀ check ∈ d.checks, ¬ check.Flawed d := by
      intro check hCheck hFlawed
      exact hFirst (hHidden (d.defective_iff.mpr ⟨check, hCheck, hFlawed⟩))
    have hAll : ∀ check ∈ d.checks, check.Passes Descriptor.blankSources cppDir d := by
      intro check hCheck
      refine Check.passes_blank cppDir (hSound check hCheck) ?_
      rintro c rfl
      by_contra hReference
      obtain ⟨before, after, hSplit⟩ := List.append_of_mem hCheck
      refine hFirst ⟨before, c, after, hSplit, fun other hOther => hSound other ?_, hReference⟩
      rw [hSplit]
      exact List.mem_append_left _ hOther
    obtain ⟨c, hc⟩ := ofDescriptor_succeeds_iff.mpr hAll
    rw [built?_eq_some_iff.mpr hc] at hNone
    cases hNone

end Combine

namespace Design

/-- A combine that cannot be built has no namesake in the design. -/
theorem name_not_mem_of_built?_eq_none {sources : Sources} {p : Project} {design : Design}
    (h : (elaborate sources p).outcome = .ok design) {d : Descriptor.Combine}
    (hd : d ∈ p.combines) (hNone : Combine.built? sources p.cppDir d = none) :
    d.name ∉ design.combines.map Combine.name := by
  obtain ⟨-, -, hCombines⟩ := elaborate_eq_ok_iff.mp h
  obtain ⟨⟨hDistinct, -⟩, -, hKept⟩ := combinesOf_eq_ok_iff.mp hCombines
  rw [hKept]
  intro hName
  obtain ⟨c, hc, hSame⟩ := List.mem_map.mp hName
  obtain ⟨other, hOther, hBuilt⟩ := List.mem_filterMap.mp hc
  have hNames : other.name = d.name := by
    rw [← hSame, Combine.name_of_ofDescriptor (Combine.built?_eq_some_iff.mp hBuilt)]
  obtain rfl : other = d := List.inj_on_of_nodup_map hDistinct hOther hd hNames
  rw [hNone] at hBuilt
  cases hBuilt

/-- A combine whose descriptor is defective is never part of a design. If its project elaborates
all the same, then a function is missing that is looked up before any defect comes up, and this
is all that is recorded of the combine. Some contents of the source files let a project
through exactly if its bundles can be ordered, names are distinct, and every combine that is
defective refers to a function before its first defect comes up. -/
theorem elaborate_defective (p : Project) :
    (∀ sources design, (elaborate sources p).outcome = .ok design →
      ∀ d ∈ p.combines, d.Defective →
        d.name ∉ design.combines.map Combine.name ∧ d.StopsAtMissing sources p.cppDir ∧
          ∃ e ∈ (elaborate sources p).journal.failures, Combine.LacksBody sources p.cppDir d e) ∧
    ((∃ sources design, (elaborate sources p).outcome = .ok design) ↔
      (p.bundles.map Descriptor.Bundle.name).Nodup ∧
      (∀ b ∈ p.bundles, (b.members.map Descriptor.Member.name).Nodup) ∧
      Descriptor.Acyclic p.bundles ∧
      (p.combines.map Descriptor.Combine.name).Nodup ∧
      ∀ d ∈ p.combines, d.Defective → d.RefersFirst) := by
  have hStops : ∀ sources design, (elaborate sources p).outcome = .ok design →
      ∀ d ∈ p.combines, d.Defective → d.StopsAtMissing sources p.cppDir := by
    intro sources design h d hd hDefective
    obtain ⟨-, -, -, -, hLacks⟩ := (elaborate_succeeds_iff sources p).mp ⟨design, h⟩
    exact Combine.lacksBody_iff.mp (hLacks d hd (Combine.built?_of_defective hDefective))
  constructor
  · intro sources design h d hd hDefective
    have hNone : Combine.built? sources p.cppDir d = none := Combine.built?_of_defective hDefective
    obtain ⟨-, -, hCombines⟩ := elaborate_eq_ok_iff.mp h
    refine ⟨name_not_mem_of_built?_eq_none h hd hNone, hStops sources design h d hd hDefective, ?_⟩
    rw [failures_elaborate h]
    exact exists_of_forall₂_mem (failures_combinesOf hCombines)
      (List.mem_filter.mpr ⟨hd, by simpa using hNone⟩)
  · constructor
    · rintro ⟨sources, design, h⟩
      obtain ⟨hNames, hMembers, hAcyclic, hDistinct, -⟩ :=
        (elaborate_succeeds_iff sources p).mp ⟨design, h⟩
      refine ⟨hNames, hMembers, hAcyclic, hDistinct, fun d hd hDefective => ?_⟩
      exact (hStops sources design h d hd hDefective).refersFirst
    · rintro ⟨hNames, hMembers, hAcyclic, hDistinct, hHidden⟩
      refine ⟨Descriptor.blankSources, (elaborate_succeeds_iff _ p).mpr
        ⟨hNames, hMembers, hAcyclic, hDistinct, fun d hd hNone => ?_⟩⟩
      exact Combine.lacksBody_blank (hHidden d hd) hNone

/-- A combine with a service whose two parameters have one name, and whose body stands in a
source file. -/
def twinParameters : Descriptor.Combine :=
  { name := "Core", comment := none, source := "core.xml", pipeIn := [], pipeOut := []
    requests := []
    services :=
      [{ name := "go", comment := none, params := [⟨"a", "uint8", none⟩, ⟨"a", "uint8", none⟩]
         returns := [], body := some ⟨some ⟨"a.cpp", "run"⟩, []⟩ }]
    functions := [], storage := [], storageNext := [], storageTick := [], configs := [], init := []
    tick := [], applyTick := [], stallable := false }

def twinProject : Project := { cppDir := "cpp", bundles := [], combines := [twinParameters] }

/-- Source files that define one function each, `func`. -/
def oneFunction (func : String) : Sources := fun _ => .ok ("void " ++ func ++ "() \x7b \x7d")

theorem twinParameters_defective : twinParameters.Defective :=
  .signature _ (List.mem_singleton_self _) (by decide)

theorem twinProject_left_out :
    ∃ design, (elaborate (oneFunction "other") twinProject).outcome = .ok design ∧
      twinParameters.name ∉ design.combines.map Combine.name ∧
      twinParameters.StopsAtMissing (oneFunction "other") "cpp" ∧
      (∃ e ∈ (elaborate (oneFunction "other") twinProject).journal.failures,
        Combine.LacksBody (oneFunction "other") "cpp" twinParameters e) ∧
      twinParameters.RefersFirst := by
  have hMember : twinParameters ∈ twinProject.combines := List.mem_singleton_self _
  have hRun : (elaborate (oneFunction "other") twinProject).outcome =
      .ok { bundles := [], order := [], combines := [] } := by decide +kernel
  obtain ⟨hOut, hStops, hReported⟩ :=
    (elaborate_defective twinProject).1 _ _ hRun _ hMember twinParameters_defective
  obtain ⟨-, -, -, -, hHidden⟩ := (elaborate_defective twinProject).2.mp ⟨_, _, hRun⟩
  exact ⟨_, hRun, hOut, hStops, hReported, hHidden _ hMember twinParameters_defective⟩

/-- The repeated parameter stops the compiler as long as the function is there. Without the
function the project elaborates, and nothing is said of the parameter. -/
theorem twinProject_escapes :
    twinParameters.Defective ∧
      (elaborate (oneFunction "run") twinProject).outcome =
        .error { cause := .alreadyBound "a" "another parameter of `go`", file := some "core.xml" } ∧
      (elaborate (oneFunction "other") twinProject).outcome =
        .ok { bundles := [], order := [], combines := [] } ∧
      (elaborate (oneFunction "other") twinProject).journal.failures =
        [{ cause := .bodyNotFound "Core" "service `go`" "run" "cpp/a.cpp"
           file := some "core.xml" }] :=
  ⟨twinParameters_defective, by decide +kernel, by decide +kernel, by decide +kernel⟩

end Design

end Simgen
