import Simgen.Proofs.Cpp.BundleHeader
import Simgen.Proofs.Design.LaterBlocks
import Simgen.Proofs.Design.Masking

/-! What a project is warned of. The warnings of a project that elaborates without a recorded
failure can be read off its descriptors. A member of unknown type costs a warning and nothing
else: it is declared with the name of its type as it stands. -/
namespace Simgen

namespace Descriptor

/-- The type of the member is neither primitive nor one of the bundles. -/
def Member.Unknown (bundles : List String) (m : Member) : Prop :=
  Primitive.ofName? m.type = none ∧ m.type ∉ bundles

instance (bundles : List String) : DecidablePred (Member.Unknown bundles) :=
  fun _ => inferInstanceAs (Decidable (_ ∧ _))

/-- One warning for every member of unknown type. -/
def Bundle.unknownMembers (bundles : List String) (d : Bundle) : List Warning :=
  (d.members.filter (Member.Unknown bundles)).map fun m => .unknownType d.name m.name m.type

/-- One warning for every phase with more than one block. -/
def Combine.repetitions (d : Combine) : List Warning :=
  (if 1 < d.tick.length then [.duplicateLifecycle d.name "tick"] else []) ++
    if 1 < d.applyTick.length then [.duplicateLifecycle d.name "applytick"] else []

end Descriptor

namespace Bundle

theorem composite?_ofName (type : String) :
    (ValueType.ofName type).composite? =
      if Primitive.ofName? type = none then some type else none := by
  unfold ValueType.ofName
  cases Primitive.ofName? type with
  | none => rfl
  | some p => rfl

/-- The members that a described bundle is warned of. -/
theorem unknown_dependencies (names : List String) (d : Descriptor.Bundle) :
    ((described d).dependencies.filterMap fun (member, type) =>
      if names.contains type then none else some (.unknownType d.name member type)) =
      d.unknownMembers names := by
  unfold described dependencies Descriptor.Bundle.unknownMembers
  rw [← List.filterMap_eq_map (f := fun m : Descriptor.Member =>
      Warning.unknownType d.name m.name m.type),
    List.filterMap_filter, List.filterMap_map, List.filterMap_filterMap]
  apply List.filterMap_congr
  intro m _
  by_cases hPrimitive : Primitive.ofName? m.type = none
  · by_cases hKnown : m.type ∈ names
    · simp [memberOf, composite?_ofName, hPrimitive, hKnown, Descriptor.Member.Unknown]
    · simp [memberOf, composite?_ofName, hPrimitive, hKnown, Descriptor.Member.Unknown]
  · simp [memberOf, composite?_ofName, hPrimitive, Descriptor.Member.Unknown]

theorem unknownTypes_described (ds : List Descriptor.Bundle) :
    unknownTypes (ds.map described) =
      ds.flatMap (·.unknownMembers (ds.map Descriptor.Bundle.name)) := by
  unfold unknownTypes
  rw [names_described, List.flatMap_map]
  congr 1
  funext d
  exact unknown_dependencies _ d

theorem warnings_arrange {bundles : List Bundle} {order : List String}
    (h : (arrange bundles).outcome = .ok order) :
    (arrange bundles).journal.warnings = unknownTypes bundles := by
  have hRun := h
  simp only [arrange, Traced.outcome_bind_eq_ok_iff] at hRun
  obtain ⟨_, -, placed, hPlaced, -⟩ := hRun
  rw [arrange, Traced.journal_bind_of_ok (Traced.outcome_tell _),
    Traced.journal_bind_of_ok hPlaced, Journal.warnings_append]
  exact (congrArg (· ++ []) (Journal.warnings_map_warning _)).trans (List.append_nil _)

end Bundle

namespace Combine

variable {sources : Sources} {cppDir : String}

theorem warnings_repeatedPhase (combine phase : String) (blocks : List Descriptor.Code) :
    (repeatedPhase combine phase blocks).warnings =
      if 1 < blocks.length then [.duplicateLifecycle combine phase] else [] := by
  unfold repeatedPhase
  split
  · rfl
  · rfl

theorem warnings_ofDescriptor {d : Descriptor.Combine} {c : Combine}
    (h : (ofDescriptor sources cppDir d).outcome = .ok c) :
    (ofDescriptor sources cppDir d).journal.warnings = d.repetitions := by
  have hRun := h
  simp only [ofDescriptor_eq, Traced.outcome_bind_eq_ok_iff] at hRun
  obtain ⟨o, hOpening, _, -, tick, hTick, -⟩ := hRun
  rw [journal_of_tick_ok hOpening hTick]
  simp only [Journal.warnings_append, (notes_opening _ _).warnings_eq_nil,
    (notes_leadingCode _ _ _).warnings_eq_nil, warnings_repeatedPhase, List.nil_append,
    List.append_nil]
  rfl

theorem warnings_attempt {d : Descriptor.Combine} {c : Combine}
    (h : (ofDescriptor sources cppDir d).outcome = .ok c) :
    (attempt sources cppDir d).journal.warnings = d.repetitions := by
  rw [attempt_of_ok h, Journal.warnings_append, warnings_ofDescriptor h]
  exact List.append_nil _

end Combine

namespace Design

variable {sources : Sources} {cppDir : String}

/-- Where nothing is recorded as failed, every combine is kept. -/
theorem built_of_failures_eq_nil {p : Project} {design : Design}
    (h : (elaborate sources p).outcome = .ok design)
    (hClean : (elaborate sources p).journal.failures = []) :
    ∀ d ∈ p.combines, ∃ c, (Combine.ofDescriptor sources p.cppDir d).outcome = .ok c := by
  obtain ⟨-, -, hCombines⟩ := elaborate_eq_ok_iff.mp h
  have hDropped := failures_combinesOf hCombines
  rw [← failures_elaborate h, hClean, List.forall₂_nil_right_iff, List.filter_eq_nil_iff]
    at hDropped
  intro d hd
  obtain ⟨c, hc⟩ := Option.ne_none_iff_exists'.mp (by simpa using hDropped d hd)
  exact ⟨c, Combine.built?_eq_some_iff.mp hc⟩

theorem warnings_combinesOf {seen : List String} {ds : List Descriptor.Combine}
    {combines : List Combine} (h : (combinesOf sources cppDir seen ds).outcome = .ok combines)
    (hBuilt : ∀ d ∈ ds, ∃ c, (Combine.ofDescriptor sources cppDir d).outcome = .ok c) :
    (combinesOf sources cppDir seen ds).journal.warnings =
      ds.flatMap Descriptor.Combine.repetitions := by
  induction ds generalizing seen combines with
  | nil => rfl
  | cons d ds ih =>
      obtain ⟨⟨c, hc⟩, hRest⟩ := List.forall_mem_cons.mp hBuilt
      obtain ⟨hFresh, built, rest, hAttempt, hOthers, -⟩ := combinesOf_cons_eq_ok_iff.mp h
      rw [journal_combinesOf_cons hFresh hAttempt hOthers, Journal.warnings_append,
        Combine.warnings_attempt hc, ih hOthers hRest, List.flatMap_cons]

theorem warnings_elaborate {p : Project} {design : Design}
    (h : (elaborate sources p).outcome = .ok design)
    (hClean : (elaborate sources p).journal.failures = []) :
    (elaborate sources p).journal.warnings =
      p.bundles.flatMap (·.unknownMembers (p.bundles.map Descriptor.Bundle.name)) ++
        p.combines.flatMap Descriptor.Combine.repetitions := by
  have hBuilt := built_of_failures_eq_nil h hClean
  obtain ⟨hBundles, hOrder, hCombines⟩ := elaborate_eq_ok_iff.mp h
  obtain ⟨-, -, hDescribed⟩ := bundlesOf_eq_ok_iff.mp hBundles
  rw [journal_elaborate h, Journal.warnings_append, Bundle.warnings_arrange hOrder,
    warnings_combinesOf hCombines hBuilt, hDescribed, Bundle.unknownTypes_described]

end Design

namespace Cpp

theorem memberLine_of_unknown {bundles : List String} {m : Descriptor.Member}
    (h : m.Unknown bundles) (unit : String) :
    memberLine unit m = unit ++ m.type ++ " " ++ m.name ++ ";" := by
  rw [memberLine, if_pos h.1]

/-- The lines of a bundle stand together in the header. -/
theorem exists_bundleLines_eq (style : Style) {bundles : List Descriptor.Bundle}
    {b : Descriptor.Bundle} (hb : b ∈ bundles) :
    ∃ above below, bundleLines style bundles =
      above ++ ["typedef struct \x7b"] ++ b.members.map (memberLine style.unit) ++
        ["\x7d " ++ b.name ++ ";"] ++ below := by
  obtain ⟨before, after, rfl⟩ := List.append_of_mem hb
  refine ⟨bundleLines style before, [""] ++ after.flatMap (blockLines style.unit), ?_⟩
  simp [bundleLines, blockLines]

/-- The warnings of a project that elaborates without a recorded failure are these and no others,
in this order: one for each member of a bundle whose type is neither primitive nor the name of
any bundle of the project, whether that bundle comes earlier or later; then, for each combine, one
for each phase that has more than one block. A member of unknown type is declared all the same,
in its place, with its type as it is spelled and without a value. -/
theorem warnings_exact {sources : Sources} {p : Project} {design : Design}
    (h : (Design.elaborate sources p).outcome = .ok design)
    (hClean : (Design.elaborate sources p).journal.failures = []) :
    (Design.elaborate sources p).journal.warnings =
      p.bundles.flatMap (·.unknownMembers (p.bundles.map Descriptor.Bundle.name)) ++
        p.combines.flatMap Descriptor.Combine.repetitions ∧
    ∀ style, ∀ b ∈ p.bundles, ∀ before m after, b.members = before ++ m :: after →
      m.Unknown (p.bundles.map Descriptor.Bundle.name) →
      ∃ above below, (files style design).head? = some
        { name := "bundle.h"
          contents := unlines (above ++ ["typedef struct \x7b"] ++
            before.map (memberLine style.unit) ++
            [style.unit ++ m.type ++ " " ++ m.name ++ ";"] ++ after.map (memberLine style.unit) ++
            ["\x7d " ++ b.name ++ ";"] ++ below) } := by
  refine ⟨Design.warnings_elaborate h hClean, ?_⟩
  intro style b hb before m after hSplit hUnknown
  obtain ⟨blocks, hBlocks, -, hFile⟩ := Design.exists_blocks h style
  obtain ⟨above, below, hLines⟩ := exists_bundleLines_eq style (hBlocks.mem_iff.mpr hb)
  refine ⟨above, below, ?_⟩
  rw [hFile, hLines, hSplit, List.map_append, List.map_cons, memberLine_of_unknown hUnknown]
  simp only [List.append_assoc, List.cons_append, List.nil_append]

/-- A bundle with a forward reference and a value for a member of unknown type, and a combine in
which both phases are repeated, one of them with a block that refers to nothing. -/
def noisyProject : Project :=
  { cppDir := "cpp"
    bundles :=
      [⟨"Flit", [⟨"route", "Route", none⟩, ⟨"tag", "Label", some "7"⟩,
          ⟨"bits", "uint8", none⟩], "f.xml"⟩,
        ⟨"Route", [⟨"hops", "Hops", none⟩], "r.xml"⟩]
    combines :=
      [{ name := "Switch", comment := none, source := "s.xml", pipeIn := [], pipeOut := []
         requests := [], services := [], functions := [], storage := [], storageNext := []
         storageTick := [], configs := [], init := []
         tick := [⟨none, ["++n;"]⟩, ⟨some ⟨"missing.cpp", "step"⟩, []⟩]
         applyTick := [⟨none, []⟩, ⟨none, []⟩, ⟨none, []⟩], stallable := false }] }

theorem noisyProject_warned :
    ∃ design, (Design.elaborate Descriptor.blankSources noisyProject).outcome = .ok design ∧
      (Design.elaborate Descriptor.blankSources noisyProject).journal.warnings =
        [.unknownType "Flit" "tag" "Label", .unknownType "Route" "hops" "Hops",
          .duplicateLifecycle "Switch" "tick", .duplicateLifecycle "Switch" "applytick"] ∧
      ∃ above below, (files {} design).head? = some
        { name := "bundle.h"
          contents := unlines (above ++ ["typedef struct \x7b", "    Route route;",
            "    Label tag;", "    uint8 bits = 0;", "\x7d Flit;"] ++ below) } := by
  obtain ⟨design, h⟩ : ∃ design,
      (Design.elaborate Descriptor.blankSources noisyProject).outcome = .ok design := ⟨_, rfl⟩
  obtain ⟨hWarnings, hDeclared⟩ := warnings_exact h (by decide +kernel)
  obtain ⟨above, below, hFile⟩ := hDeclared {} _ List.mem_cons_self
    [⟨"route", "Route", none⟩] ⟨"tag", "Label", some "7"⟩ [⟨"bits", "uint8", none⟩] rfl
    (by decide +kernel)
  refine ⟨design, h, hWarnings.trans (by decide +kernel), above, below, hFile.trans ?_⟩
  simp only [List.append_assoc]
  rfl

end Cpp

end Simgen
