import Simgen.Proofs.Compile.Output
import Simgen.Proofs.Files.Frame

/-! What a compilation does to files that are there already. It writes below the place where the
output path ends and nowhere else. A directory that the path leads to has to be empty. But the
path may lead nowhere until directories on it are made, or be empty, and then nobody looks at
what stands where it ends. -/
namespace Simgen.Compile

open Files

variable {base s : Store} {output : String}

/-- Where files are written for an output directory at `place`. -/
inductive Written (place : Location) : Location → Prop where
  | header (stem : String) : Written place ((stem ++ ".h") :: place)
  | source (stem : String) : Written place ((stem ++ ".cpp") :: place)
  | library {name : String} (hName : isHeader name = true) : Written place (name :: "lib" :: place)

theorem Written.below {place file : Location} (h : Written place file) :
    ∃ inner, inner ≠ [] ∧ file = inner ++ place := by
  cases h with
  | header stem => exact ⟨[stem ++ ".h"], List.cons_ne_nil _ _, rfl⟩
  | source stem => exact ⟨[stem ++ ".cpp"], List.cons_ne_nil _ _, rfl⟩
  | @library name hName => exact ⟨[name, "lib"], List.cons_ne_nil _ _, rfl⟩

theorem written_of_mem_files {style : Cpp.Style} {d : Design} {f : Cpp.File}
    (hf : f ∈ Cpp.files style d) (place : Location) : Written place (f.name :: place) := by
  have hName := List.mem_map_of_mem (f := Cpp.File.name) hf
  rw [Cpp.map_name_files] at hName
  rcases List.mem_cons.mp hName with hBundle | hName
  · rw [hBundle]
    exact .header "bundle"
  · obtain ⟨c, -, hOwn⟩ := List.mem_flatMap.mp hName
    rcases List.mem_pair.mp hOwn with hEq | hEq
    · rw [hEq]
      exact .header c.name
    · rw [hEq]
      exact .source c.name

section parts

variable {touched : Location → Prop}

theorem spares_writeFile {f : Cpp.File} (hName : Path.IsName f.name)
    (hTouched : touched (f.name :: base.destination output)) :
    Job.Spares base touched (writeFile output f) := by
  rw [← Store.destination_join base output hName] at hTouched
  refine (Job.spares_write _ hTouched).bind fun _ _ _ _ _ => ?_
  exact ((Job.observes_check _ _).bind fun _ => Job.observes_note _ _).spares

theorem spares_copyFile (source : String) {target name : String} (hName : Path.IsName name)
    (hTouched : touched (name :: base.destination target)) :
    Job.Spares base touched (copyFile source target name) := by
  rw [← Store.destination_join base target hName] at hTouched
  refine (Job.spares_copy _ hTouched).bind fun _ _ _ _ _ => ?_
  exact ((Job.observes_check _ _).bind fun _ => Job.observes_note _ _).spares

theorem spares_copyOrWarn (source : String) {target name : String} (hName : Path.IsName name)
    (hTouched : touched (name :: base.destination target)) :
    Job.Spares base touched (copyOrWarn source target name) := by
  refine (Job.observes_isFile _).spares.bind fun isFile _ _ _ _ => ?_
  cases isFile with
  | false => exact (Job.observes_warn _).spares
  | true => exact spares_copyFile source hName hTouched

end parts

theorem spares_copyLibrary (runtime : String) :
    Job.Spares base (Written (base.destination output)) (copyLibrary runtime output) := by
  refine (Job.observes_isDirectory _).spares.bind fun isDirectory _ _ _ _ => ?_
  cases isDirectory with
  | false => exact (Job.observes_warn _).spares
  | true =>
      refine (Job.spares_createDirectories _).bind fun _ _ _ _ _ => ?_
      refine (Job.observes_check _ _).spares.bind fun _ _ _ _ _ => ?_
      refine (Job.observes_filesIn _ _).spares.bind fun names s s' hs hNames => ?_
      refine Job.spares_forM fun name hIn => ?_
      obtain ⟨hName, hHeader⟩ := Job.of_mem_filesIn hs hNames hIn
      refine spares_copyFile _ hName ?_
      rw [Store.destination_join base output (by decide)]
      exact .library hHeader

theorem spares_emit (root : String) (settings : Settings) {design : Design}
    (hNames : ∀ f ∈ Cpp.files (styleOf settings) design, Path.IsName f.name) :
    Job.Spares base (Written (base.destination output)) (emit root output settings design) := by
  refine (Job.spares_forM fun f hf => ?_).bind fun _ _ _ _ _ => ?_
  · exact spares_writeFile (hNames f hf) (written_of_mem_files hf _)
  refine (spares_copyOrWarn _ (by decide) (.header "global")).bind fun _ _ _ _ _ => ?_
  cases settings.runtimeDir with
  | none => exact (Job.observes_note _ _).spares
  | some runtime =>
      refine (spares_copyOrWarn _ (by decide) (.header "common")).bind fun _ _ _ _ _ => ?_
      refine (spares_copyOrWarn _ (by decide) (.header "vulsimlib")).bind fun _ _ _ _ _ => ?_
      exact spares_copyLibrary runtime

/-- Wherever the output directory is, nothing is written but C++ files in it. -/
theorem spares_compile (root : String) (settings : Settings) :
    Job.Spares base (Written (base.destination output)) (compile root output settings) := by
  rw [compile_eq]
  refine Job.Spares.bind (fun s _ _ => ?_) fun design s s' _ hPrepare => ?_
  · exact .of_grows (gainsDirectories_prepare ⟨rfl, rfl⟩).grows
  · obtain ⟨project, sources, -, hLoad, -, hDesign, -⟩ := ends_prepare_ok hPrepare
    have hValid := (combine_names_of_load hLoad hDesign).2
    exact spares_emit root settings fun f hf => Cpp.isName_of_mem_files hValid hf

/-- If there is anything below the place where the output path ends, files are written only
where the path led nowhere before. -/
theorem kind?_eq_none_of_prepare {root : String} {style : Cpp.Style} {design : Design} {s' : Store}
    (hs : s.WellFormed) (h : Job.Ends (prepare root output style) s (.ok design) s')
    {inner : Location} (hInner : inner ≠ [])
    (hSome : s.get? (inner ++ s.destination output) ≠ none) : s.kind? output = none := by
  obtain ⟨project, sources, hOpen, -⟩ := ends_prepare_ok h
  rcases ends_openOutput_cases hOpen with ⟨-, hList⟩ | ⟨hMissing, -⟩
  · obtain ⟨place, hFind, hNames⟩ := Store.list_eq_ok_iff.mp (hList rfl)
    have hPlace := Store.eq_destination_of_locate (Store.find_eq_ok_iff.mp hFind).1
    rw [hPlace] at hNames
    exact absurd (hs.none_below hNames hInner) hSome
  · exact hMissing

/-- A path without steps upwards does not lead nowhere if something stands below its end. -/
theorem unplain_of_kind?_eq_none (hs : s.WellFormed) (h : s.kind? output = none) {inner : Location}
    (hInner : inner ≠ []) (hSome : s.get? (inner ++ s.destination output) ≠ none) :
    output = "" ∨ ".." ∈ Path.segments output := by
  by_contra hNot
  obtain ⟨hPath, hPlain⟩ := not_or.mp hNot
  obtain ⟨c, hGet⟩ := Option.ne_none_iff_exists'.mp hSome
  have hFind := hs.find_of_get? hPath hPlain (hs.above hGet hInner)
  rw [Store.kind?_eq_directory_iff.mpr ⟨_, hFind⟩] at h
  cases h

/-- Whether a compilation succeeds or fails, every file that was there before is there
afterwards with the same contents, with one exception: the output path is empty or has steps
upwards, it led nowhere before, and the file is one of the C++ files where it ends. -/
theorem compile_keeps_files (hs : s.WellFormed) (root output : String) (settings : Settings)
    {file : Location} {contents : ByteArray} (hFile : s.get? file = some (.file contents)) :
    ((compile root output settings).run s).2.get? file = some (.file contents) ∨
      s.kind? output = none ∧ (output = "" ∨ ".." ∈ Path.segments output) ∧
        Written (s.destination output) file := by
  by_cases hWritten : Written (s.destination output) file
  · obtain ⟨inner, hInner, rfl⟩ := hWritten.below
    have hSome : s.get? (inner ++ s.destination output) ≠ none := by simp [hFile]
    cases hPrepare : ((prepare root output (styleOf settings)).run s).1.outcome with
    | error e =>
        left
        have hGrows := (gainsDirectories_prepare ⟨hPrepare, rfl⟩).grows
        rw [compile_eq, (Job.run_bind_of_error hPrepare _).2]
        exact hGrows.get _ _ hFile
    | ok design =>
        right
        have hMissing := kind?_eq_none_of_prepare hs ⟨hPrepare, rfl⟩ hInner hSome
        exact ⟨hMissing, unplain_of_kind?_eq_none hs hMissing hInner hSome, hWritten⟩
  · left
    exact (spares_compile root settings s hs rfl).get file contents hWritten hFile

/-- The number of bytes in a file. -/
def byteCount : Content → Nat
  | .file contents => contents.size
  | .directory => 0

/-- An empty project next to a directory with a header. -/
def annex : Store :=
  { current := []
    entries :=
      [(["p"], .directory), (["bundle", "p"], .directory), (["combine", "p"], .directory),
        (["cpp", "p"], .directory), (["global.h", "cpp", "p"], .file "int g;\n".toUTF8),
        (["keep"], .directory), (["bundle.h", "keep"], .file "int kept;\n".toUTF8)] }

theorem annex_keeps_files :
    annex.WellFormed ∧
      ((compile "p" "out" {}).run annex).2.get? ["bundle.h", "keep"] =
        some (.file "int kept;\n".toUTF8) ∧
      ((compile "p" "n/../keep" {}).run annex).2.get? ["global.h", "cpp", "p"] =
        some (.file "int g;\n".toUTF8) := by
  have hFormed : annex.WellFormed := by decide +kernel
  refine ⟨hFormed, (compile_keeps_files hFormed "p" "out" {} rfl).resolve_right ?_,
    (compile_keeps_files hFormed "p" "n/../keep" {} rfl).resolve_right ?_⟩
  · rintro ⟨-, hPath, -⟩
    revert hPath
    decide
  · rintro ⟨-, -, hWritten⟩
    obtain ⟨inner, -, hBelow⟩ := hWritten.below
    have hKeep : annex.destination "n/../keep" = ["keep"] := by decide +kernel
    rw [hKeep] at hBelow
    have hLast := congrArg List.getLast? hBelow
    simp at hLast

/-- The header is overwritten: before the missing directory is made, the path to it leads
nowhere, and so its directory passes for a new one. -/
theorem annex_overwritten :
    ((compile "p" "n/../keep" {}).run annex).1.outcome = .ok () ∧
      annex.get? ["bundle.h", "keep"] = some (.file "int kept;\n".toUTF8) ∧
      ((compile "p" "n/../keep" {}).run annex).2.get? ["bundle.h", "keep"] ≠
        some (.file "int kept;\n".toUTF8) := by
  have hCount :
      (((compile "p" "n/../keep" {}).run annex).2.get? ["bundle.h", "keep"]).map byteCount ≠
        some (byteCount (.file "int kept;\n".toUTF8)) := by
    decide +kernel
  exact ⟨by decide +kernel, rfl, fun hKept => hCount (congrArg (Option.map byteCount) hKept)⟩

end Simgen.Compile
