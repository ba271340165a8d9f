import Simgen.Proofs.Compile.Output
import Simgen.Proofs.Cpp.MethodDefinitions
import Simgen.Proofs.Design.Code
import Simgen.Proofs.Design.Recovery

/-! Where the code of a combine stands in its files, line by line. -/
namespace Simgen

/-- A combine with all its code left out. -/
def Combine.skeleton (c : Combine) : Combine :=
  { c with
    operations := c.operations.map fun f => { f with body := [] }
    init := []
    tick := []
    applyTick := [] }

namespace Cpp

/-- A definition of a method, its code at the given indentation. -/
def definitionLines (className method parameters indentation : String) (code : Code) :
    List String :=
  DefinitionText.lines className { name := method, parameters, body := code.map (indentation ++ ·) }

/-- The methods that are called in every phase. They call the code of the combine and hold
none of it. -/
def dispatchLines (unit : String) (c : Combine) : List String :=
  definitionLines c.name "all_current_tick" "" unit ["user_current_tick();"] ++
    definitionLines c.name "all_current_applytick" "" unit
      (c.commitPlan.map commitLine ++ ["user_current_applytick();"])

/-- The lines of a source: the code of operations stands as it is, that of phases is indented. -/
def sourceLines (unit : String) (c : Combine) : List String :=
  ["#include \"" ++ (c.name ++ ".h") ++ "\"", ""] ++
    (c.operations.flatMap fun f =>
      definitionLines c.name f.name (signatureText f.signature) "" f.body ++ [""]) ++
    dispatchLines unit c.skeleton ++
    definitionLines c.name "user_current_tick" "" unit c.tick ++
    definitionLines c.name "user_current_applytick" "" unit c.applyTick

/-- The lines of a constructor: injections first, then the code of the combine. -/
def constructorLines (unit : String) (c : Combine) : List String :=
  constructorText unit c.name (assignments c.skeleton) c.init

/-- What stands before the constructor in a header. -/
def headerFront (style : Style) (c : Combine) : List Line :=
  (openingPieces style c ++ argumentPieces c).flatMap Piece.lines

/-- What stands behind the constructor in a header. -/
def headerBack (c : Combine) : List Line := (memberPieces c).flatMap Piece.lines

variable {style : Style} {c : Combine}

theorem laidOut_eq_sourceLines :
    (classSource c).map (Line.laidOut style) = sourceLines style.unit c := by
  have hPlan : c.skeleton.commitPlan = c.commitPlan := rfl
  have hName : c.skeleton.name = c.name := rfl
  simp only [laidOut_classSource, operationTexts, lifecycleTexts, sourceLines, dispatchLines,
    definitionLines, hPlan, hName, List.flatMap_map, List.flatMap_cons, List.flatMap_nil,
    List.map_append, List.map_map, List.map_cons, List.map_nil, Function.comp_def,
    String.empty_append, List.map_id', List.append_nil, List.append_assoc]

theorem parts_skeleton : parts c.skeleton = parts c := by
  have hOperations : c.skeleton.operations.map operationPart = c.operations.map operationPart := by
    rw [Combine.skeleton, List.map_map]
    rfl
  rw [parts, parts, hOperations]
  rfl

theorem headerFront_skeleton : headerFront style c.skeleton = headerFront style c := by
  simp only [headerFront, argumentPieces, injections, parts_skeleton]
  rfl

theorem headerBack_skeleton : headerBack c.skeleton = headerBack c := by
  simp only [headerBack, memberPieces, classMembers, parts_skeleton]
  rfl

/-- The text of a header is the same for all code, but for the lines in the constructor. -/
theorem render_classHeader :
    render style.indent (classHeader style c) =
      render style.indent (headerFront style c.skeleton) ++
        unlines (constructorLines style.unit c) ++ render style.indent (headerBack c.skeleton) := by
  have hConstructor : (constructor c).map (Line.laidOut style) = constructorLines style.unit c :=
    laidOut_constructor
  have hHeader : classHeader style c = headerFront style c ++ constructor c ++ headerBack c := by
    rw [← lines_headerPieces, headerPieces, List.flatMap_append, List.flatMap_append,
      lines_constructorPieces]
    rfl
  rw [hHeader, render_append, render_append, render_eq_unlines (constructor c), hConstructor,
    headerFront_skeleton, headerBack_skeleton]

end Cpp

/-- In a project that is accepted, each combine is left out for lack of a body, or its two
files hold all of its code, and nothing else of them depends on it. Blocks stand where they
belong, in order and line by line: those of operations as they are, those of phases indented
once, and those of the construction, behind all injections, indented twice. -/
theorem Design.files_hold_code {sources : Sources} {p : Project} {design : Design}
    {style : Cpp.Style} {files : List Cpp.File}
    (hDesign : (elaborate sources p).outcome = .ok design)
    (hFiles : (Cpp.generate style design).outcome = .ok files) :
    (files.map Cpp.File.name).Nodup ∧
    ∀ d ∈ p.combines, (∃ e, Combine.LacksBody sources p.cppDir d e) ∨
      ∃ c ∈ design.combines, c.name = d.name ∧ Combine.HoldsCode sources p.cppDir d c ∧
        (∀ line ∈ c.codeLines, '\n' ∉ line.toList) ∧
        { name := d.name ++ ".cpp"
          contents := Cpp.unlines (Cpp.sourceLines style.unit c) : Cpp.File } ∈ files ∧
        { name := d.name ++ ".h"
          contents := Cpp.render style.indent (Cpp.headerFront style c.skeleton) ++
            Cpp.unlines (Cpp.constructorLines style.unit c) ++
            Cpp.render style.indent (Cpp.headerBack c.skeleton) : Cpp.File } ∈ files := by
  obtain ⟨hCheck, rfl⟩ := Cpp.generate_eq_ok_iff.mp hFiles
  obtain ⟨-, -, hCombines⟩ := elaborate_eq_ok_iff.mp hDesign
  obtain ⟨-, hLacks, hBuilt⟩ := combinesOf_eq_ok_iff.mp hCombines
  constructor
  · obtain ⟨hSublist, hDistinct, -⟩ := combinesOf_names hCombines
    exact Cpp.nodup_fileNames (fun c hc => Cpp.not_shadowsHeader_of_checkKeywords hCheck hc)
      (hSublist.nodup hDistinct) style
  · intro d hd
    cases hCombine : Combine.built? sources p.cppDir d with
    | none => exact Or.inl (hLacks d hd hCombine)
    | some c =>
        have hOk := Combine.built?_eq_some_iff.mp hCombine
        have hIn : c ∈ design.combines := hBuilt ▸ List.mem_filterMap.mpr ⟨d, hd, hCombine⟩
        have hHolds := Combine.holdsCode_of_ofDescriptor hOk
        have hName := Combine.name_of_ofDescriptor hOk
        have hOwn : ∀ file ∈ Cpp.combineFiles style c, file ∈ Cpp.files style design :=
          fun file hFile => List.mem_cons_of_mem _ (List.mem_flatMap.mpr ⟨c, hIn, hFile⟩)
        refine Or.inr ⟨c, hIn, hName, hHolds, hHolds.noLineFeed, hOwn _ ?_, hOwn _ ?_⟩
        · simp [Cpp.combineFiles, hName, Cpp.render_eq_unlines, Cpp.laidOut_eq_sourceLines]
        · simp [Cpp.combineFiles, hName, Cpp.render_classHeader]

namespace Design

/-- A combine with code of all kinds: a referenced body, fragments with line ends of both
forms, an empty one, and more than one block for a phase. -/
def relay : Descriptor.Combine :=
  { name := "Relay", comment := none, source := "r.xml", pipeIn := [], pipeOut := [], requests := []
    services := [⟨"load", none, [], [], some ⟨some ⟨"a.cpp", "step"⟩, ["++n;\r\n\r\nm = n;\n"]⟩⟩]
    functions := [⟨"idle", none, [], [], some ⟨none, ["", "\n"]⟩⟩]
    storage := [], storageNext := [], storageTick := [], configs := []
    init := [⟨none, ["a();", "b();"]⟩, ⟨none, ["c();"]⟩]
    tick := [⟨none, ["first();\n  second();"]⟩, ⟨none, ["never();"]⟩]
    applyTick := [], stallable := false }

def relayProject : Project := { cppDir := "cpp", bundles := [], combines := [relay] }

def relaySources : Sources := fun path =>
  if path = "cpp/a.cpp" then .ok "void step() \x7b n = 1;\n  n = 2; \x7d" else .error .notFound

/-- The code of a combine, block by block. -/
def blocks (c : Combine) : List Code :=
  c.operations.map Operation.body ++ [c.init, c.tick, c.applyTick]

theorem relayProject_code :
    ∃ design files, (elaborate relaySources relayProject).outcome = .ok design ∧
      (Cpp.generate {} design).outcome = .ok files ∧
      ∃ c ∈ design.combines, Combine.HoldsCode relaySources "cpp" relay c ∧
        blocks c =
          [["n = 1;", "  n = 2;", "++n;", "", "m = n;"], [""], ["a();", "b();", "c();"],
            ["first();", "  second();"], []] ∧
        { name := "Relay.cpp", contents := Cpp.unlines (Cpp.sourceLines "    " c) } ∈ files := by
  have hRun : ((elaborate relaySources relayProject).outcome.toOption.map fun design =>
      design.combines.map blocks) =
        some [[["n = 1;", "  n = 2;", "++n;", "", "m = n;"], [""], ["a();", "b();", "c();"],
          ["first();", "  second();"], []]] := by
    decide +kernel
  obtain ⟨design, hSome, hBlocks⟩ := Option.map_eq_some_iff.mp hRun
  have hDesign := toOption_eq_some_iff.mp hSome
  have hCheck : Cpp.checkKeywords design = .ok () := by
    have hAll : ((elaborate relaySources relayProject).outcome.toOption.map fun design =>
        (Cpp.checkKeywords design).toOption) = some (some ()) := by
      decide +kernel
    rw [hSome, Option.map_some, Option.some_inj] at hAll
    exact toOption_eq_some_iff.mp hAll
  have hFiles : (Cpp.generate {} design).outcome = .ok (Cpp.files {} design) :=
    Cpp.generate_eq_ok_iff.mpr ⟨hCheck, rfl⟩
  obtain ⟨-, hCombines⟩ := files_hold_code hDesign hFiles
  have hKept : ¬ ∃ e, Combine.LacksBody relaySources "cpp" relay e := by
    rintro ⟨_, _, _, _, _, _, hError, -⟩
    have hBuilt : (Combine.built? relaySources "cpp" relay).isSome = true := by decide +kernel
    rw [Combine.built?, hError] at hBuilt
    cases hBuilt
  obtain ⟨c, hIn, -, hHolds, -, hSource, -⟩ :=
    (hCombines relay List.mem_cons_self).resolve_left hKept
  have hBlock : blocks c ∈ design.combines.map blocks := List.mem_map_of_mem hIn
  rw [hBlocks, List.mem_singleton] at hBlock
  exact ⟨design, _, hDesign, hFiles, c, hIn, hHolds, hBlock, hSource⟩

end Design

end Simgen
