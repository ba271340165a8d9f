import Simgen.Compile
import Simgen.Proofs.Files.ListingOrder
import Simgen.Proofs.ProjectDirectory

/-! A compilation does not depend on the order in which directories are listed. Each place that
lists one either sorts the names or only asks whether there are any. -/
namespace Simgen

namespace ProjectDirectory

open Files

variable {s : Store}

theorem orderBlind_check (root : String) : Job.OrderBlind (check root) := by
  refine (Job.orderBlind_isDirectory root).bind fun _ =>
    (Job.orderBlind_require _ _).bind fun _ => ?_
  exact Job.orderBlind_forM (fun sub =>
    (Job.orderBlind_isDirectory _).bind fun _ => Job.orderBlind_require _ _) subdirectories

theorem orderBlind_descriptors {α : Type} (parse : String → String → Traced α) (dir : String) :
    Job.OrderBlind (descriptors parse dir) := by
  refine (Job.orderBlind_filesIn dir _).bind fun names => Job.orderBlind_mapM (fun name => ?_) names
  exact (Job.orderBlind_readText _).bind fun _ => (Job.orderBlind_check _ _).bind fun _ =>
    Job.orderBlind_ofTraced _

theorem orderBlind_load (root : String) : Job.OrderBlind (load root) :=
  (orderBlind_check root).bind fun _ => (orderBlind_descriptors _ _).bind fun _ =>
    (orderBlind_descriptors _ _).bind fun _ => Job.orderBlind_pure _

theorem orderBlind_sources (paths : List String) : Job.OrderBlind (sources paths) :=
  (Job.orderBlind_mapM (fun path => (Job.orderBlind_readText path).bind fun _ =>
    Job.orderBlind_pure _) paths).bind fun _ => Job.orderBlind_pure _

/-- Reads a project from files that are already found. -/
def readFiles (root : String) (bundleFiles combineFiles : List String) : Job Project := do
  check root
  let bundles ← bundleFiles.mapM fun name =>
    descriptor Descriptor.Bundle.parse (Path.join (Path.join root "bundle") name)
  let combines ← combineFiles.mapM fun name =>
    descriptor Descriptor.Combine.parse (Path.join (Path.join root "combine") name)
  return { cppDir := Path.join root "cpp", bundles, combines }

/-- The descriptors of a project are read in the byte order of their files. -/
theorem run_load {root : String} {bundleFiles combineFiles : List String}
    (hBundles : Job.Reports (Job.filesIn (Path.join root "bundle") (· = "xml")) s []
      (.ok bundleFiles))
    (hCombines : Job.Reports (Job.filesIn (Path.join root "combine") (· = "xml")) s []
      (.ok combineFiles)) :
    (load root).run s = (readFiles root bundleFiles combineFiles).run s := by
  refine Job.run_bind_congr (observes_check root) rfl fun _ => ?_
  refine Job.run_bind_congr (Job.observes_mapM (fun _ => observes_descriptor _ _) bundleFiles)
    (hBundles.run_bind _) fun bundles => ?_
  exact Job.run_bind_congr (Job.observes_mapM (fun _ => observes_descriptor _ _) combineFiles)
    (hCombines.run_bind _) fun combines => rfl

end ProjectDirectory

namespace Compile

open Files

theorem orderBlind_openOutput (output : String) : Job.OrderBlind (openOutput output) := by
  refine (Job.orderBlind_kind output).bind fun kind => ?_
  split
  · refine Job.orderBlind_list (fun names names' hPerm => ?_) fun answer =>
      (Job.orderBlind_check _ _).bind fun names => Job.orderBlind_require _ _
    simp only [Job.check_ok, pure_bind, hPerm.isEmpty_eq]
  · exact (Job.orderBlind_createDirectories output).bind fun answer => Job.orderBlind_check answer _

theorem orderBlind_writeFile (dir : String) (f : Cpp.File) : Job.OrderBlind (writeFile dir f) := by
  have hWrite : Job.OrderBlind (Job.ask (.write (Path.join dir f.name) f.contents.toUTF8)) :=
    Job.orderBlind_ask (by rintro _ ⟨⟩)
  exact hWrite.bind fun answer => (Job.orderBlind_check answer _).bind fun _ =>
    Job.orderBlind_note _ _

theorem orderBlind_copyFile (source target name : String) :
    Job.OrderBlind (copyFile source target name) := by
  have hCopy : Job.OrderBlind (Job.ask (.copy (Path.join source name) (Path.join target name))) :=
    Job.orderBlind_ask (by rintro _ ⟨⟩)
  exact hCopy.bind fun answer => (Job.orderBlind_check answer _).bind fun _ =>
    Job.orderBlind_note _ _

theorem orderBlind_copyOrWarn (source target name : String) :
    Job.OrderBlind (copyOrWarn source target name) := by
  refine (Job.orderBlind_isFile _).bind fun isFile => ?_
  split
  · exact orderBlind_copyFile source target name
  · exact Job.orderBlind_warn _

theorem orderBlind_copyLibrary (runtime output : String) :
    Job.OrderBlind (copyLibrary runtime output) := by
  refine (Job.orderBlind_isDirectory _).bind fun isDirectory => ?_
  split
  · refine (Job.orderBlind_createDirectories _).bind fun answer =>
      (Job.orderBlind_check answer _).bind fun _ => ?_
    exact (Job.orderBlind_filesIn _ _).bind fun names =>
      Job.orderBlind_forM (orderBlind_copyFile _ _) names
  · exact Job.orderBlind_warn _

theorem orderBlind_copyHeaders (cppDir : String) (runtime : Option String) (output : String) :
    Job.OrderBlind (copyHeaders cppDir runtime output) := by
  refine (orderBlind_copyOrWarn cppDir output "global.h").bind fun _ => ?_
  cases runtime with
  | none => exact Job.orderBlind_note _ _
  | some runtime =>
      exact (orderBlind_copyOrWarn _ _ _).bind fun _ => (orderBlind_copyOrWarn _ _ _).bind fun _ =>
        orderBlind_copyLibrary runtime output

theorem orderBlind_compile (root output : String) (settings : Settings) :
    Job.OrderBlind (compile root output settings) := by
  refine (ProjectDirectory.orderBlind_check root).bind fun _ =>
    (orderBlind_openOutput output).bind fun _ =>
    (ProjectDirectory.orderBlind_load root).bind fun project =>
    (ProjectDirectory.orderBlind_sources _).bind fun sources =>
    (Job.orderBlind_ofTraced _).bind fun design => (Job.orderBlind_note _ _).bind fun _ =>
    (Job.orderBlind_ofTraced _).bind fun files => ?_
  exact (Job.orderBlind_forM (orderBlind_writeFile output) files).bind fun _ =>
    orderBlind_copyHeaders _ _ _

/-- In whatever orders directories are listed, a project is read as the same project or refused with
the same error, the same files are found, and a compilation ends in the same way, with the same
journal and the same files written. The descriptors are the files with the extension `xml`, each of
them read in the byte order of their names. -/
theorem listing_order_irrelevant (s : Store) :
    (∀ root result s', RunsTo s (ProjectDirectory.load root) result s' ↔
      (ProjectDirectory.load root).run s = (result, s')) ∧
    (∀ root bundleNames combineNames, s.list (Path.join root "bundle") = .ok bundleNames →
      s.list (Path.join root "combine") = .ok combineNames →
      ∃ bundleFiles combineFiles, Job.FilesOf s (Path.join root "bundle") (· = "xml") bundleFiles ∧
        Job.FilesOf s (Path.join root "combine") (· = "xml") combineFiles ∧
        (ProjectDirectory.load root).run s =
          (ProjectDirectory.readFiles root bundleFiles combineFiles).run s) ∧
    (∀ dir accepts result s', RunsTo s (Job.filesIn dir accepts) result s' ↔
      (Job.filesIn dir accepts).run s = (result, s')) ∧
    (∀ dir names accepts, s.list dir = .ok names → ∃ files, Job.FilesOf s dir accepts files ∧
      (Job.filesIn dir accepts).run s = (⟨[], .ok files⟩, s)) ∧
    ∀ root output settings result s', RunsTo s (compile root output settings) result s' ↔
      (compile root output settings).run s = (result, s') := by
  refine ⟨fun root _ _ => (ProjectDirectory.orderBlind_load root).runsTo_iff,
    fun root bundleNames combineNames hBundles hCombines => ?_,
    fun dir accepts _ _ => (Job.orderBlind_filesIn dir accepts).runsTo_iff,
    fun dir names accepts hList => Job.exists_filesOf hList accepts,
    fun root output settings _ _ => (orderBlind_compile root output settings).runsTo_iff⟩
  obtain ⟨bundleFiles, hBundleFiles, hBundlesFound⟩ := Job.exists_filesOf hBundles (· = "xml")
  obtain ⟨combineFiles, hCombineFiles, hCombinesFound⟩ := Job.exists_filesOf hCombines (· = "xml")
  exact ⟨bundleFiles, combineFiles, hBundleFiles, hCombineFiles,
    ProjectDirectory.run_load hBundlesFound hCombinesFound⟩

/-- A directory that lists its files as they were made, one of them no descriptor. -/
def shelf : Store :=
  { current := []
    entries :=
      [(["p"], .directory), (["é.xml", "p"], .file .empty), (["b.xml", "p"], .file .empty),
        (["a.txt", "p"], .file .empty), (["C.xml", "p"], .file .empty)] }

theorem shelf_reversed :
    shelf.list "p" = .ok ["é.xml", "b.xml", "a.txt", "C.xml"] ∧
    ∃ next, Job.filesIn "p" (· = "xml") = Program.query (.list "p") next ∧
      (Job.filesIn "p" (· = "xml")).run shelf =
        (next (.ok ["C.xml", "a.txt", "b.xml", "é.xml"])).run shelf := by
  refine ⟨rfl, _, rfl, ((listing_order_irrelevant shelf).2.2.1 _ _ _ _).mp ?_⟩
  have hPerm : ["C.xml", "a.txt", "b.xml", "é.xml"].Perm ["é.xml", "b.xml", "a.txt", "C.xml"] :=
    List.reverse_perm ["é.xml", "b.xml", "a.txt", "C.xml"]
  exact .query (.listed hPerm) (runsTo_run _ _)

end Compile

end Simgen
