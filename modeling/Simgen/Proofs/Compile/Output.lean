import Simgen.Proofs.Compile.OutputDirectory
import Simgen.Proofs.Cpp.FileNames
import Simgen.Proofs.Design.Elaborate

/-! What a successful compilation leaves in the output directory. The generated files, the
support headers and the library have different names, so that none of them is lost. -/
namespace Simgen

theorem Cpp.generate_eq_ok_iff {style : Style} {d : Design} {fs : List File} :
    (generate style d).outcome = .ok fs ↔ checkKeywords d = .ok () ∧ files style d = fs := by
  rw [generate, Traced.outcome_bind_eq_ok_iff]
  constructor
  · rintro ⟨_, hCheck, hFiles⟩
    rw [Traced.outcome_lift, mapError_eq_ok_iff] at hCheck
    exact ⟨hCheck, Except.ok.inj hFiles⟩
  · rintro ⟨hCheck, rfl⟩
    exact ⟨(), by rw [hCheck]; rfl, rfl⟩

namespace Compile

open Files

variable {base s s' : Store} {root output : String} {place : Location}
  {entries : List (Location × Content)}

theorem ends_prepare_ok {style : Cpp.Style} {design : Design}
    (h : Job.Ends (prepare root output style) s (.ok design) s') :
    ∃ project sources, Job.Ends (openOutput output) s (.ok ()) s' ∧
      Job.Ends (ProjectDirectory.load root) s' (.ok project) s' ∧
      Job.Ends (ProjectDirectory.sources project.sourcePaths) s' (.ok sources) s' ∧
      (Design.elaborate sources project).outcome = .ok design ∧
      (Cpp.generate style design).outcome = .ok (Cpp.files style design) := by
  obtain ⟨_, checked, hCheck, afterCheck⟩ := Job.ends_bind_ok_iff.mp h
  obtain rfl := (ProjectDirectory.observes_check root).eq hCheck
  obtain ⟨_, opened, hOpen, afterOpen⟩ := Job.ends_bind_ok_iff.mp afterCheck
  obtain ⟨project, loaded, hLoad, afterLoad⟩ := Job.ends_bind_ok_iff.mp afterOpen
  obtain rfl := (ProjectDirectory.observes_load root).eq hLoad
  obtain ⟨sources, read, hSources, afterSources⟩ := Job.ends_bind_ok_iff.mp afterLoad
  obtain rfl := (ProjectDirectory.observes_sources _).eq hSources
  obtain ⟨elaborated, _, hElaborate, afterElaborate⟩ := Job.ends_bind_ok_iff.mp afterSources
  obtain ⟨hDesign, rfl⟩ := Job.ends_ofTraced_iff.mp hElaborate
  obtain ⟨_, _, hNote, afterNote⟩ := Job.ends_bind_ok_iff.mp afterElaborate
  obtain ⟨-, rfl⟩ := Job.ends_note_iff.mp hNote
  obtain ⟨files, _, hGenerate, afterGenerate⟩ := Job.ends_bind_ok_iff.mp afterNote
  obtain ⟨hFiles, rfl⟩ := Job.ends_ofTraced_iff.mp hGenerate
  obtain ⟨hPure, rfl⟩ := Job.ends_pure_iff.mp afterGenerate
  cases hPure
  obtain rfl := (Cpp.generate_eq_ok_iff.mp hFiles).2
  exact ⟨project, sources, hOpen, hLoad, hSources, hDesign, hFiles⟩

/-- Copies of the support headers that are there. -/
def headerCopies (s : Store) (cppDir : String) (runtime : Option String) :
    List (Location × Content) :=
  copied s cppDir [] "global.h" ++ runtime.toList.flatMap fun dir =>
    copied s dir [] "common.h" ++ copied s dir [] "vulsimlib.h"

/-- A copy of the library of the runtime. -/
def libraryCopies (s : Store) (runtime : Option String) : List (Location × Content) :=
  runtime.toList.flatMap fun dir => libraryCopy s (Path.join dir "lib")

/-- The combines of an elaborated project have distinct names, and these are identifiers. -/
theorem combine_names_of_load {project : Project} {sources : Sources} {design : Design}
    (hLoad : Job.Ends (ProjectDirectory.load root) s (.ok project) s')
    (hDesign : (Design.elaborate sources project).outcome = .ok design) :
    (design.combines.map Combine.name).Nodup ∧
      ∀ c ∈ design.combines, Ident.isValid c.name = true := by
  obtain ⟨-, -, hCombines⟩ := Design.elaborate_eq_ok_iff.mp hDesign
  obtain ⟨hSublist, hDistinct, -⟩ := Design.combinesOf_names hCombines
  refine ⟨hSublist.nodup hDistinct, fun c hc => ?_⟩
  obtain ⟨d, hd, hBuilt⟩ := Design.exists_descriptor_of_mem_combinesOf hCombines hc
  rw [Combine.name_of_ofDescriptor hBuilt]
  exact ProjectDirectory.isValid_combine_names hLoad hd

theorem Filled.copyHeaders (hs : s.WellFormed) (h : Filled base output place entries s)
    (hTop : AtTop entries)
    (hNew : ∀ name ∈ ["global.h", "common.h", "vulsimlib.h", "lib"],
      [name] ∉ entries.map Prod.fst) {cppDir : String} {runtime : Option String}
    (hEnds : Job.Ends (Compile.copyHeaders cppDir runtime output) s (.ok ()) s') :
    ∃ listed, Filled base output place (entries ++ headerCopies base cppDir runtime) listed ∧
      Filled base output place
        (entries ++ headerCopies base cppDir runtime ++ libraryCopies listed runtime) s' := by
  have hApart : ∀ {more : List (Location × Content)} {other name dir : String},
      [name] ∉ more.map Prod.fst → name ≠ other →
        [name] ∉ (more ++ copied base dir [] other).map Prod.fst := by
    intro more other name dir hMore hOther hIn
    rw [List.map_append, List.mem_append] at hIn
    rcases hIn with hIn | hIn
    · exact hMore hIn
    · exact hOther (List.cons.inj (eq_of_mem_keys_copied hIn)).1
  obtain ⟨_, first, hFirst, hEnds⟩ := Job.ends_bind_ok_iff.mp hEnds
  have hGlobal := h.copyOrWarn hTop (by decide) (hNew "global.h" (by decide)) hFirst
  have hGlobalTop := hTop.append (atTop_copied base cppDir "global.h")
  cases runtime with
  | none =>
      obtain rfl := (Job.ends_note_iff.mp hEnds).2
      exact ⟨first, by simpa [headerCopies] using hGlobal,
        by simpa [headerCopies, libraryCopies] using hGlobal⟩
  | some dir =>
      obtain ⟨_, second, hSecond, hEnds⟩ := Job.ends_bind_ok_iff.mp hEnds
      obtain ⟨_, third, hThird, hEnds⟩ := Job.ends_bind_ok_iff.mp hEnds
      have hCommon := hGlobal.copyOrWarn hGlobalTop (by decide)
        (hApart (hNew "common.h" (by decide)) (by decide)) hSecond
      have hCommonTop := hGlobalTop.append (atTop_copied base dir "common.h")
      have hLibrary := hCommon.copyOrWarn hCommonTop (by decide)
        (hApart (hApart (hNew "vulsimlib.h" (by decide)) (by decide)) (by decide)) hThird
      have hLibraryTop := hCommonTop.append (atTop_copied base dir "vulsimlib.h")
      have hThirdFormed : third.WellFormed :=
        hThird.2 ▸ (hSecond.2 ▸ (hFirst.2 ▸ hs.run _).run _).run _
      have hAll := hLibrary.copyLibrary hThirdFormed hLibraryTop
        (hApart (hApart (hApart (hNew "lib" (by decide)) (by decide)) (by decide)) (by decide))
        hEnds
      exact ⟨third, by simpa [headerCopies] using hLibrary,
        by simpa [headerCopies, libraryCopies] using hAll⟩

/-- After a successful compilation the output directory holds exactly the generated files,
the support headers that were there when it was opened, and the headers that the library held
when all of these had been written. All of them stand at different places. -/
theorem compile_output_exact {settings : Settings} (hs : s.WellFormed) (hOutput : output ≠ "")
    (hPlain : ".." ∉ Path.segments output)
    (h : Job.Ends (compile root output settings) s (.ok ()) s') :
    ∃ opened project sources design listed place,
      Job.Ends (openOutput output) s (.ok ()) opened ∧
      Job.Ends (ProjectDirectory.load root) opened (.ok project) opened ∧
      Job.Ends (ProjectDirectory.sources project.sourcePaths) opened (.ok sources) opened ∧
      (Design.elaborate sources project).outcome = .ok design ∧
      let files := Cpp.files (styleOf settings) design
      let top := units files ++ headerCopies opened project.cppDir settings.runtimeDir
      let all := top ++ libraryCopies listed settings.runtimeDir
      (Cpp.generate (styleOf settings) design).outcome = .ok files ∧
      files.map Cpp.File.name =
        "bundle.h" :: design.combines.flatMap (fun c => [c.name ++ ".h", c.name ++ ".cpp"]) ∧
      Filled opened output place top listed ∧
      s'.find output = .ok (place, .directory) ∧
      (all.map Prod.fst).Nodup ∧
      ∀ inner, inner ≠ [] → ∀ c, s'.get? (inner ++ place) = some c ↔ (inner, c) ∈ all := by
  rw [compile_eq] at h
  obtain ⟨design, opened, hPrepare, hEmit⟩ := Job.ends_bind_ok_iff.mp h
  obtain ⟨project, sources, hOpen, hLoad, hSources, hDesign, hFiles⟩ := ends_prepare_ok hPrepare
  obtain ⟨_, written, hWrite, hCopy⟩ := Job.ends_bind_ok_iff.mp hEmit
  obtain ⟨place, hOpened⟩ := opened_of_openOutput hs hOutput hPlain hOpen
  obtain ⟨hDistinct, hValid⟩ := combine_names_of_load hLoad hDesign
  have hShared : ∀ c ∈ design.combines, Cpp.shadowsHeader c = false := fun c hc =>
    Cpp.not_shadowsHeader_of_checkKeywords (Cpp.generate_eq_ok_iff.mp hFiles).1 hc
  have hCppDir := ProjectDirectory.cppDir_of_load hLoad
  -- The directory is filled in the order of the program: units, headers, library.
  have hEmpty : Filled opened output place [] opened := ⟨hOpened, .nil opened⟩
  have hUnits := hEmpty.writeFiles (fun f hf => Cpp.isName_of_mem_files hValid hf)
    (Cpp.nodup_fileNames hShared hDistinct _) (by simp) hWrite
  have hFresh : ∀ name ∈ ["global.h", "common.h", "vulsimlib.h", "lib"],
      [name] ∉ (units (Cpp.files (styleOf settings) design)).map Prod.fst := by
    intro name hName hIn
    have hFile : name ∈ (Cpp.files (styleOf settings) design).map Cpp.File.name := by
      simpa [units] using hIn
    exact Cpp.not_mem_fileNames hShared _ hName hFile
  have hWritten : written.WellFormed := hWrite.2 ▸ (hOpen.2 ▸ hs.run _).run _
  obtain ⟨listed, hTop, hAll⟩ :=
    hUnits.copyHeaders hWritten (atTop_units _) hFresh hCopy
  rw [← hCppDir] at hTop hAll
  exact ⟨opened, project, sources, design, listed, place, hOpen, hLoad, hSources, hDesign, hFiles,
    Cpp.map_name_files _ _, hTop, hAll.find, hAll.nodup,
    fun inner hInner c => hAll.get?_eq_some_iff hInner⟩

/-- A project with one combine, and a runtime that lacks a header. -/
def workshop : Store :=
  { current := []
    entries :=
      [(["p"], .directory), (["bundle", "p"], .directory), (["combine", "p"], .directory),
        (["cpp", "p"], .directory), (["global.h", "cpp", "p"], .file "int g;\n".toUTF8),
        (["Fetch.xml", "combine", "p"], .file "<combine><name>Fetch</name></combine>".toUTF8),
        (["rt"], .directory), (["common.h", "rt"], .file "int c;\n".toUTF8),
        (["lib", "rt"], .directory), (["queue.hpp", "lib", "rt"], .file "int q;\n".toUTF8),
        (["notes.txt", "lib", "rt"], .file "".toUTF8)] }

def workshopRun : Traced Unit × Store :=
  (compile "p" "out" { runtimeDir := some "rt" }).run workshop

theorem workshop_output :
    workshop.WellFormed ∧ workshopRun.1.outcome = .ok () ∧
      workshopRun.2.names ["out"] =
        ["bundle.h", "Fetch.h", "Fetch.cpp", "global.h", "common.h", "lib"] ∧
      workshopRun.2.names ["lib", "out"] = ["queue.hpp"] ∧
      ∃ all : List (Location × Content), (all.map Prod.fst).Nodup ∧
        ∀ inner, inner ≠ [] → ∀ c,
          workshopRun.2.get? (inner ++ ["out"]) = some c ↔ (inner, c) ∈ all := by
  have hFormed : workshop.WellFormed := by decide +kernel
  -- One evaluation for all that is asked of the run.
  have hRun : workshopRun.1.outcome = .ok () ∧ workshopRun.2.locate "out" = .ok ["out"] ∧
      workshopRun.2.names ["out"] =
        ["bundle.h", "Fetch.h", "Fetch.cpp", "global.h", "common.h", "lib"] ∧
      workshopRun.2.names ["lib", "out"] = ["queue.hpp"] := by
    decide +kernel
  obtain ⟨hOutcome, hLocate, hNames, hLibrary⟩ := hRun
  obtain ⟨_, _, _, _, _, place, -, -, -, -, -, -, -, hFind, hNodup, hGet⟩ :=
    compile_output_exact hFormed (by decide) (by decide) ⟨hOutcome, rfl⟩
  obtain rfl : place = ["out"] :=
    Except.ok.inj ((Store.find_eq_ok_iff.mp hFind).1.symm.trans hLocate)
  exact ⟨hFormed, hOutcome, hNames, hLibrary, _, hNodup, hGet⟩

end Compile

end Simgen
