import Simgen.Proofs.Cpp.ClassScope
import Simgen.Proofs.Cpp.FileNames
import Simgen.Proofs.Design.Masking

/-! The names that classes can have. The class of a combine cannot be called like another
combine, like one of its own members, or like something that generated files need for
themselves. Nothing else is asked of the name: bundles, and what every class declares, are not
looked at. -/
namespace Simgen

/-- Code is generated for the project: it elaborates, and generated code can use its names. -/
def Project.Accepted (sources : Sources) (p : Project) : Prop :=
  ∃ design, (Design.elaborate sources p).outcome = .ok design ∧ Cpp.checkKeywords design = .ok ()

namespace Descriptor.Combine

def renamed (d : Combine) (name : String) : Combine := { d with name }

/-- Next to the other combines of a project, `d` can have the name. -/
structure CanBeNamed (d : Combine) (others : List Combine) (name : String) : Prop where
  not_combine : name ∉ others.map Combine.name
  not_member : name ∉ d.memberNames
  not_keyword : Cpp.isKeyword name = false
  not_header : name ++ ".h" ∉ Cpp.commonHeaders ++ Cpp.combineHeaders

variable {sources : Sources} {cppDir name : String} {d : Combine}

theorem namesFit_renamed_iff (h : d.NamesFit) :
    (d.renamed name).NamesFit ↔ name ∉ d.memberNames :=
  ⟨fun hFit => hFit.not_class, fun hName => ⟨h.nodup, hName, h.not_builtin⟩⟩

/-- Only the check of the names depends on what the combine is called. -/
theorem passes_renamed_iff (h : d.NamesFit) (check : Check) :
    check.Passes sources cppDir (d.renamed name) ↔
      check.Passes sources cppDir d ∧ (check = .names → name ∉ d.memberNames) := by
  cases check with
  | signature op => exact ⟨fun hPasses => ⟨hPasses, nofun⟩, And.left⟩
  | code c => exact ⟨fun hPasses => ⟨hPasses, nofun⟩, And.left⟩
  | storage field => exact ⟨fun hPasses => ⟨hPasses, nofun⟩, And.left⟩
  | names =>
      constructor
      · intro hPasses
        exact ⟨not_not.mpr h, fun _ => (namesFit_renamed_iff h).mp (not_not.mp hPasses)⟩
      · rintro ⟨-, hName⟩
        exact not_not.mpr ((namesFit_renamed_iff h).mpr (hName rfl))

theorem names_mem_checks (d : Combine) : .names ∈ d.checks := by
  simp [checks]

theorem namesFit_of_passes (h : ∀ check ∈ d.checks, check.Passes sources cppDir d) : d.NamesFit :=
  not_not.mp (h .names d.names_mem_checks)

end Descriptor.Combine

namespace Combine

variable {sources : Sources} {cppDir name : String} {d : Descriptor.Combine}

/-- A combine that can be built can still be built under another name, unless this is the name
of one of its members. -/
theorem ofDescriptor_renamed_iff (h : ∃ c, (ofDescriptor sources cppDir d).outcome = .ok c) :
    (∃ c, (ofDescriptor sources cppDir (d.renamed name)).outcome = .ok c) ↔
      name ∉ d.memberNames := by
  rw [ofDescriptor_succeeds_iff] at h ⊢
  have hFit := Descriptor.Combine.namesFit_of_passes h
  constructor
  · intro hAll
    have hNames := hAll .names (d.renamed name).names_mem_checks
    exact ((Descriptor.Combine.passes_renamed_iff hFit .names).mp hNames).2 rfl
  · intro hName check hCheck
    exact (Descriptor.Combine.passes_renamed_iff hFit check).mpr ⟨h check hCheck, fun _ => hName⟩

/-- A new name does not make a function go missing. -/
theorem not_lacksBody_renamed (h : ∃ c, (ofDescriptor sources cppDir d).outcome = .ok c) :
    ¬ ∃ e, LacksBody sources cppDir (d.renamed name) e := by
  rw [lacksBody_iff]
  rintro ⟨before, c, after, hChecks, -, hMissing⟩
  have hAll := ofDescriptor_succeeds_iff.mp h
  refine absurd (hAll (.code c) ?_) hMissing.not_passes
  change .code c ∈ (d.renamed name).checks
  rw [hChecks]
  simp

/-- What generated code asks of the names of a combine, in terms of its descriptor. -/
theorem combineOffender?_of_ofDescriptor {c : Combine}
    (h : (ofDescriptor sources cppDir d).outcome = .ok c) :
    Cpp.combineOffender? c = none ↔
      Cpp.isKeyword d.name = false ∧ d.name ++ ".h" ∉ Cpp.commonHeaders ++ Cpp.combineHeaders ∧
        ∀ n ∈ d.declaredNames ++ d.paramNames, Cpp.isKeyword n = false := by
  have hMembers := hasMembers_of_ofDescriptor h
  rw [Cpp.combineOffender?_eq_none_iff, hMembers.ownNames, hMembers.paramNames,
    Cpp.shadowsHeader, name_of_ofDescriptor h, List.contains_eq_mem, decide_eq_false_iff_not]

theorem stallable_of_ofDescriptor {c : Combine}
    (h : (ofDescriptor sources cppDir d).outcome = .ok c) : c.stallable = d.stallable := by
  simp only [ofDescriptor, Traced.outcome_bind_eq_ok_iff, Traced.outcome_pure] at h
  obtain ⟨_, -, _, -, _, -, _, -, _, -, _, -, _, -, _, -, hPure⟩ := h
  cases hPure
  rfl

/-- Apart from its members, the class declares what every class does. -/
theorem mem_classScope_iff {c : Combine} (h : (ofDescriptor sources cppDir d).outcome = .ok c)
    {n : String} (hMember : n ∉ d.memberNames) :
    n ∈ Cpp.classScope c ↔ n ∈ d.builtinNames := by
  have hStall : n ∈ Cpp.declaredNames c ↔ n ∈ Cpp.stallNames c := by
    constructor
    · intro hDeclared
      rcases List.mem_append.mp ((Cpp.declaredNames_subperm c).subset hDeclared) with hOwn | hStall
      · rw [(hasMembers_of_ofDescriptor h).memberNames] at hOwn
        exact absurd hOwn hMember
      · exact hStall
    · intro hStall
      exact (Cpp.declaredNames_perm c).mem_iff.mpr (List.mem_append_right _ hStall)
  rw [Cpp.classScope_eq, List.mem_append, hStall, Cpp.stallNames, stallable_of_ofDescriptor h,
    Descriptor.Combine.builtinNames, List.mem_append, List.mem_append, List.mem_cons,
    List.mem_singleton, or_comm (a := n = "ConstructorArguments")]

/-- The combine does not keep code from being generated: it is dropped, or else built with names
that generated code can use. -/
def Admitted (sources : Sources) (cppDir : String) (d : Descriptor.Combine) : Prop :=
  (built? sources cppDir d = none → ∃ e, LacksBody sources cppDir d e) ∧
    ∀ c, built? sources cppDir d = some c → Cpp.combineOffender? c = none

/-- What a new name has to meet if the combine could be built under the old one. -/
theorem admitted_renamed_iff (hBuilt : ∃ c, (ofDescriptor sources cppDir d).outcome = .ok c)
    (h : Admitted sources cppDir d) :
    Admitted sources cppDir (d.renamed name) ↔ name ∉ d.memberNames ∧ Cpp.isKeyword name = false ∧
      name ++ ".h" ∉ Cpp.commonHeaders ++ Cpp.combineHeaders := by
  obtain ⟨c, hc⟩ := hBuilt
  obtain ⟨-, -, hOthers⟩ :=
    (combineOffender?_of_ofDescriptor hc).mp (h.2 c (built?_eq_some_iff.mpr hc))
  constructor
  · rintro ⟨hDropped, hFree⟩
    cases hRenamed : built? sources cppDir (d.renamed name) with
    | none => exact absurd (hDropped hRenamed) (not_lacksBody_renamed ⟨c, hc⟩)
    | some c' =>
        have hc' := built?_eq_some_iff.mp hRenamed
        obtain ⟨hKeyword, hHeader, -⟩ :=
          (combineOffender?_of_ofDescriptor hc').mp (hFree c' hRenamed)
        exact ⟨(ofDescriptor_renamed_iff ⟨c, hc⟩).mp ⟨c', hc'⟩, hKeyword, hHeader⟩
  · rintro ⟨hMember, hKeyword, hHeader⟩
    obtain ⟨c', hc'⟩ := (ofDescriptor_renamed_iff ⟨c, hc⟩).mpr hMember
    have hSome : built? sources cppDir (d.renamed name) = some c' := built?_eq_some_iff.mpr hc'
    constructor
    · intro hNone
      cases hNone.symm.trans hSome
    · intro other hOther
      cases hSome.symm.trans hOther
      exact (combineOffender?_of_ofDescriptor hc').mpr ⟨hKeyword, hHeader, hOthers⟩

end Combine

namespace Project

variable {sources : Sources} {p : Project}

/-- What a project needs for code to be generated, one combine at a time. -/
theorem accepted_iff :
    p.Accepted sources ↔
      ((p.bundles.map Descriptor.Bundle.name).Nodup ∧
        (∀ b ∈ p.bundles, (b.members.map Descriptor.Member.name).Nodup) ∧
        Descriptor.Acyclic p.bundles ∧
        ∀ b ∈ p.bundles, Cpp.bundleOffender? (Bundle.described b) = none) ∧
      (p.combines.map Descriptor.Combine.name).Nodup ∧
      ∀ d ∈ p.combines, Combine.Admitted sources p.cppDir d := by
  have hDesign : ∀ design, (Design.elaborate sources p).outcome = .ok design →
      (Cpp.checkKeywords design = .ok () ↔
        (∀ b ∈ p.bundles, Cpp.bundleOffender? (Bundle.described b) = none) ∧
          ∀ d ∈ p.combines, ∀ c, Combine.built? sources p.cppDir d = some c →
            Cpp.combineOffender? c = none) := by
    intro design h
    obtain ⟨hBundles, -, hCombines⟩ := Design.elaborate_eq_ok_iff.mp h
    rw [Cpp.checkKeywords_eq_ok_iff, (Design.bundlesOf_eq_ok_iff.mp hBundles).2.2,
      (Design.combinesOf_eq_ok_iff.mp hCombines).2.2, List.forall_mem_map]
    simp only [List.mem_filterMap, forall_exists_index, and_imp]
    exact and_congr_right fun _ => ⟨fun h d hd c hc => h c d hd hc, fun h c d hd hc => h d hd c hc⟩
  constructor
  · rintro ⟨design, h, hKeywords⟩
    obtain ⟨hNames, hMembers, hAcyclic, hDistinct, hLacks⟩ :=
      (Design.elaborate_succeeds_iff sources p).mp ⟨design, h⟩
    obtain ⟨hBundles, hCombines⟩ := (hDesign design h).mp hKeywords
    exact ⟨⟨hNames, hMembers, hAcyclic, hBundles⟩, hDistinct,
      fun d hd => ⟨hLacks d hd, hCombines d hd⟩⟩
  · rintro ⟨⟨hNames, hMembers, hAcyclic, hBundles⟩, hDistinct, hAdmitted⟩
    obtain ⟨design, h⟩ := (Design.elaborate_succeeds_iff sources p).mpr
      ⟨hNames, hMembers, hAcyclic, hDistinct, fun d hd => (hAdmitted d hd).1⟩
    exact ⟨design, h, (hDesign design h).mpr ⟨hBundles, fun d hd => (hAdmitted d hd).2⟩⟩

/-- Of the names that every class declares, generated code can use each for something else. -/
theorem usable_of_mem_builtinNames {d : Descriptor.Combine} {name : String}
    (h : name ∈ d.builtinNames) :
    Cpp.isKeyword name = false ∧ name ++ ".h" ∉ Cpp.commonHeaders ++ Cpp.combineHeaders := by
  have hAll : ∀ name ∈ phaseMethods ++ ["ConstructorArguments"] ++ stallMembers,
      Cpp.isKeyword name = false ∧ name ++ ".h" ∉ Cpp.commonHeaders ++ Cpp.combineHeaders := by
    decide
  refine hAll name ?_
  rcases List.mem_append.mp h with hFixed | hStall
  · exact List.mem_append_left _ hFixed
  · split_ifs at hStall
    · exact List.mem_append_right _ hStall
    · cases hStall

/-- Where code is generated, the name of a combine that is built differs from those of the other
combines, those of its own members, keywords, and the names of shared headers. No other name is
excluded: with any name that meets these conditions, and with no other, code is still
generated. So it can be the name of a bundle; and each name that every class declares can be that
of a class, which then declares its own name a second time. -/
theorem accepted_renamed_iff {before after : List Descriptor.Combine} {d : Descriptor.Combine}
    (hCombines : p.combines = before ++ d :: after) (hAccepted : p.Accepted sources)
    (hBuilt : ∃ c, (Combine.ofDescriptor sources p.cppDir d).outcome = .ok c) :
    d.CanBeNamed (before ++ after) d.name ∧
    (∀ name, Accepted sources { p with combines := before ++ d.renamed name :: after } ↔
      d.CanBeNamed (before ++ after) name) ∧
    (∀ name ∈ d.builtinNames, d.CanBeNamed (before ++ after) name ↔
      name ∉ (before ++ after).map Descriptor.Combine.name) ∧
    ∀ c, (Combine.ofDescriptor sources p.cppDir d).outcome = .ok c →
      (c.name ∈ Cpp.classScope c ↔ d.name ∈ d.builtinNames) := by
  obtain ⟨hBundles, hDistinct, hAdmitted⟩ := accepted_iff.mp hAccepted
  rw [hCombines, List.map_append, List.map_cons, List.nodup_middle, List.nodup_cons,
    ← List.map_append] at hDistinct
  rw [hCombines, List.forall_mem_append, List.forall_mem_cons] at hAdmitted
  obtain ⟨hBefore, hHere, hAfter⟩ := hAdmitted
  have hRenamed : ∀ name,
      Accepted sources { p with combines := before ++ d.renamed name :: after } ↔
        d.CanBeNamed (before ++ after) name := by
    intro name
    rw [accepted_iff]
    simp only [List.map_append, List.map_cons, List.nodup_middle, List.nodup_cons,
      List.forall_mem_append, List.forall_mem_cons]
    rw [← List.map_append, Combine.admitted_renamed_iff hBuilt hHere]
    constructor
    · rintro ⟨-, ⟨hCombine, -⟩, -, ⟨hMember, hKeyword, hHeader⟩, -⟩
      exact ⟨hCombine, hMember, hKeyword, hHeader⟩
    · rintro ⟨hCombine, hMember, hKeyword, hHeader⟩
      exact ⟨hBundles, ⟨hCombine, hDistinct.2⟩, hBefore, ⟨hMember, hKeyword, hHeader⟩, hAfter⟩
  have hOwn : d.CanBeNamed (before ++ after) d.name := by
    refine (hRenamed d.name).mp ?_
    have hSame : d.renamed d.name = d := rfl
    rw [hSame, ← hCombines]
    exact hAccepted
  refine ⟨hOwn, hRenamed, ?_, ?_⟩
  · intro name hName
    obtain ⟨hKeyword, hHeader⟩ := usable_of_mem_builtinNames hName
    have hFit := Descriptor.Combine.namesFit_of_passes (Combine.ofDescriptor_succeeds_iff.mp hBuilt)
    exact ⟨fun h => h.not_combine,
      fun h => ⟨h, fun hMember => hFit.not_builtin name hMember hName, hKeyword, hHeader⟩⟩
  · intro c hc
    rw [Combine.name_of_ofDescriptor hc]
    exact Combine.mem_classScope_iff hc hOwn.not_member

/-- A combine with a pipe that can be stalled. -/
def sluice : Descriptor.Combine :=
  { name := "Sluice", comment := none, source := "sluice.xml"
    pipeIn := [⟨"water", "Packet", none⟩], pipeOut := [], requests := [], services := []
    functions := [], storage := [], storageNext := [], storageTick := [], configs := [], init := []
    tick := [], applyTick := [], stallable := true }

/-- One bundle, and two combines that differ in their names only. -/
def sluiceProject (first second : String) : Project :=
  { cppDir := "cpp", bundles := [⟨"Packet", [⟨"bits", "uint8", none⟩], "packet.xml"⟩]
    combines := [sluice.renamed first, sluice.renamed second] }

theorem sluiceProject_renamed :
    Accepted Descriptor.blankSources (sluiceProject "Sluice" "Gate") ∧
      Accepted Descriptor.blankSources (sluiceProject "Packet" "Gate") ∧
      Accepted Descriptor.blankSources (sluiceProject "stalled" "Gate") ∧
      ¬ Accepted Descriptor.blankSources (sluiceProject "Gate" "Gate") ∧
      ¬ Accepted Descriptor.blankSources (sluiceProject "water_pop" "Gate") ∧
      ¬ Accepted Descriptor.blankSources (sluiceProject "bundle" "Gate") := by
  have hAccepted : Accepted Descriptor.blankSources (sluiceProject "Sluice" "Gate") :=
    ⟨_, rfl, by decide +kernel⟩
  have hCombines : (sluiceProject "Sluice" "Gate").combines =
      [] ++ sluice :: [sluice.renamed "Gate"] := rfl
  obtain ⟨-, hRenamed, hBuiltin, -⟩ := accepted_renamed_iff hCombines hAccepted ⟨_, rfl⟩
  refine ⟨hAccepted, (hRenamed "Packet").mpr ?_, (hRenamed "stalled").mpr ?_,
    fun h => ?_, fun h => ?_, fun h => ?_⟩
  · exact ⟨by decide, by decide, by decide, by decide⟩
  · exact (hBuiltin "stalled" (by decide)).mpr (by decide)
  · exact ((hRenamed "Gate").mp h).not_combine (by decide)
  · exact ((hRenamed "water_pop").mp h).not_member (by decide)
  · exact ((hRenamed "bundle").mp h).not_header (by decide)

/-- Code is generated for a class that is called like a bundle, and for one that is called like
the class of its arguments. -/
theorem sluiceProject_clashes :
    ∃ design, (Design.elaborate Descriptor.blankSources
        (sluiceProject "Packet" "ConstructorArguments")).outcome = .ok design ∧
      Cpp.checkKeywords design = .ok () ∧
      (∃ b ∈ design.bundles, ∃ c ∈ design.combines, c.name = b.name) ∧
      ∃ c ∈ design.combines, c.name ∈ Cpp.classScope c :=
  ⟨_, rfl, by decide +kernel, by decide +kernel, by decide +kernel⟩

end Project

end Simgen
