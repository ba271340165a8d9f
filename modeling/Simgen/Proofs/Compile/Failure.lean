import Simgen.Compile
import Simgen.Proofs.ProjectDirectory

/-! What a failed compilation leaves behind. Everything is checked and generated before the
first file is written, and from then on only writing can fail. -/
namespace Simgen

namespace Files.Job

variable {α β : Type}

theorem ofTraced_bind (x : Traced α) (f : α → Traced β) :
    ofTraced (x >>= f) = ofTraced x >>= fun a => ofTraced (f a) := by
  obtain ⟨journal, outcome⟩ := x
  cases outcome with
  | error e => rfl
  | ok a => rfl

theorem ofTraced_pure (a : α) : ofTraced (pure a) = pure a := rfl

/-- Whatever tree the job runs on, it fails with such errors only. -/
def FailsOnly (allowed : Error → Prop) (t : Job α) : Prop :=
  ∀ s e s', Ends t s (.error e) s' → allowed e

section failsOnly

variable {allowed : Error → Prop}

theorem FailsOnly.bind {t : Job α} {f : α → Job β} (ht : FailsOnly allowed t)
    (hf : ∀ a, FailsOnly allowed (f a)) : FailsOnly allowed (t >>= f) := by
  intro s e s' h
  rcases ends_bind_error_iff.mp h with h | ⟨a, middle, -, h⟩
  · exact ht s e s' h
  · exact hf a middle e s' h

theorem failsOnly_pure (a : α) : FailsOnly allowed (pure a : Job α) :=
  fun _ _ _ h => nomatch h.1

theorem failsOnly_note (level : Level) (text : String) : FailsOnly allowed (note level text) :=
  fun _ _ _ h => nomatch h.1

theorem failsOnly_warn (w : Warning) : FailsOnly allowed (warn w) :=
  fun _ _ _ h => nomatch h.1

theorem failsOnly_ask (q : Query) : FailsOnly allowed (ask q) :=
  fun _ _ _ h => nomatch h.1

theorem failsOnly_isFile (path : String) : FailsOnly allowed (isFile path) :=
  fun _ _ _ h => nomatch h.1

theorem failsOnly_check {cause : OsError → Cause} (answer : Except OsError α)
    (h : ∀ e, allowed { cause := cause e }) : FailsOnly allowed (check answer cause) := by
  intro s e s' hEnds
  cases answer with
  | error os =>
      cases hEnds.1
      exact h os
  | ok a => cases hEnds.1

theorem failsOnly_forM {f : α → Job Unit} (hf : ∀ a, FailsOnly allowed (f a)) (items : List α) :
    FailsOnly allowed (items.forM f) := by
  induction items with
  | nil => exact failsOnly_pure ()
  | cons item items ih => exact (hf item).bind fun _ => ih

end failsOnly

end Files.Job

namespace Compile

open Files

variable {s s' : Store}

/-- How files are written under these settings. -/
def styleOf (settings : Settings) : Cpp.Style :=
  { indent := settings.indent, includes := settings.includes }

/-- What a compilation does before it writes. -/
def prepare (root output : String) (style : Cpp.Style) : Job Design := do
  ProjectDirectory.check root
  openOutput output
  let project ← ProjectDirectory.load root
  let sources ← ProjectDirectory.sources project.sourcePaths
  let design ← Job.ofTraced (Design.elaborate sources project)
  Job.note .info "Running the cpp backend"
  let _ ← Job.ofTraced (Cpp.generate style design)
  return design

/-- What a compilation writes. -/
def emit (root output : String) (settings : Settings) (design : Design) : Job Unit := do
  (Cpp.files (styleOf settings) design).forM (writeFile output)
  copyHeaders (Path.join root "cpp") settings.runtimeDir output

theorem compile_eq (root output : String) (settings : Settings) :
    compile root output settings =
      prepare root output (styleOf settings) >>= emit root output settings := by
  simp only [compile, prepare, emit, ProjectDirectory.load, Cpp.generate, Cpp.produce,
    Job.ofTraced_bind, Job.ofTraced_pure, bind_assoc, pure_bind, styleOf]

/-- An output directory that is there is only looked at; one that is missing is created. -/
theorem ends_openOutput_cases {output : String} {r : Except Error Unit}
    (h : Job.Ends (openOutput output) s r s') :
    (s' = s ∧ (r = .ok () → s.list output = .ok [])) ∨
      (s.kind? output = none ∧ s' = (s.createDirectories output).2 ∧
        (r = .ok () → (s.createDirectories output).1 = .ok ())) := by
  have hKind : Job.Ends (Job.ask (.kind output)) s (.ok (s.kind? output)) s := ⟨rfl, rfl⟩
  rw [openOutput, Job.ends_bind_iff_of_ok hKind] at h
  split at h
  · have hList : Job.Ends (Job.ask (.list output)) s (.ok (s.list output)) s := ⟨rfl, rfl⟩
    rw [Job.ends_bind_iff_of_ok hList] at h
    refine Or.inl ⟨?_, ?_⟩
    · exact ((Job.observes_check _ _).bind fun _ => Job.observes_require _ _).eq h
    · rintro rfl
      obtain ⟨names, middle, hCheck, hRequire⟩ := Job.ends_bind_ok_iff.mp h
      rw [Job.ends_check_iff, mapError_eq_ok_iff] at hCheck
      rw [Job.ends_require_iff] at hRequire
      cases names with
      | nil => exact hCheck.1
      | cons name names => cases hRequire.1
  next hNone =>
    have hCreate : Job.Ends (Job.ask (.createDirectories output)) s
        (.ok (s.createDirectories output).1) (s.createDirectories output).2 := ⟨rfl, rfl⟩
    rw [Job.ends_bind_iff_of_ok hCreate, Job.ends_check_iff] at h
    refine Or.inr ⟨by simpa using hNone, h.2.symm, ?_⟩
    rintro rfl
    exact mapError_eq_ok_iff.mp h.1

/-- Before the first file is written, nothing changes but directories on the output path. -/
theorem gainsDirectories_prepare {root output : String} {style : Cpp.Style}
    {r : Except Error Design} (h : Job.Ends (prepare root output style) s r s') :
    Store.GainsDirectories (s.OnPath output) s s' := by
  have hOpen : ∀ {r s'}, Job.Ends (openOutput output) s r s' →
      Store.GainsDirectories (s.OnPath output) s s' := by
    intro r s' h
    rcases ends_openOutput_cases h with ⟨rfl, -⟩ | ⟨-, rfl, -⟩
    · exact .refl s'
    · exact Store.gainsDirectories_createDirectories output s
  -- Only the output directory is made; loading and generating look and compute.
  have hRest : Job.Observes (do
      let project ← ProjectDirectory.load root
      let sources ← ProjectDirectory.sources project.sourcePaths
      let design ← Job.ofTraced (Design.elaborate sources project)
      Job.note .info "Running the cpp backend"
      let _ ← Job.ofTraced (Cpp.generate style design)
      return design) :=
    (ProjectDirectory.observes_load root).bind fun _ =>
      (ProjectDirectory.observes_sources _).bind fun _ => (Job.observes_ofTraced _).bind fun _ =>
        (Job.observes_note _ _).bind fun _ => (Job.observes_ofTraced _).bind fun _ =>
          Job.observes_pure _
  cases r with
  | error e =>
      rcases Job.ends_bind_error_iff.mp h with h | ⟨_, middle, hCheck, h⟩
      · rw [(ProjectDirectory.observes_check root).eq h]
        exact .refl s
      · rw [(ProjectDirectory.observes_check root).eq hCheck] at h
        rcases Job.ends_bind_error_iff.mp h with h | ⟨_, opened, hOpened, h⟩
        · exact hOpen h
        · rw [hRest.eq h]
          exact hOpen hOpened
  | ok design =>
      obtain ⟨_, middle, hCheck, h⟩ := Job.ends_bind_ok_iff.mp h
      rw [(ProjectDirectory.observes_check root).eq hCheck] at h
      obtain ⟨_, opened, hOpened, h⟩ := Job.ends_bind_ok_iff.mp h
      rw [hRest.eq h]
      exact hOpen hOpened

/-- Something could not be written. -/
def Unwritten (e : Error) : Prop := ∃ text, e.cause = .notWritten text

theorem failsOnly_writeFile (dir : String) (f : Cpp.File) :
    Job.FailsOnly Unwritten (writeFile dir f) :=
  (Job.failsOnly_ask _).bind fun answer =>
    (Job.failsOnly_check answer fun _ => ⟨_, rfl⟩).bind fun _ => Job.failsOnly_note _ _

theorem failsOnly_copyFile (source target name : String) :
    Job.FailsOnly Unwritten (copyFile source target name) :=
  (Job.failsOnly_ask _).bind fun answer =>
    (Job.failsOnly_check answer fun _ => ⟨_, rfl⟩).bind fun _ => Job.failsOnly_note _ _

theorem failsOnly_copyOrWarn (source target name : String) :
    Job.FailsOnly Unwritten (copyOrWarn source target name) := by
  refine (Job.failsOnly_isFile _).bind fun isFile => ?_
  cases isFile with
  | false => exact Job.failsOnly_warn _
  | true => exact failsOnly_copyFile source target name

/-- The library is listed behind the creation of a directory, which hides nothing. -/
theorem failsOnly_copyLibrary (runtime output : String) :
    Job.FailsOnly Unwritten (copyLibrary runtime output) := by
  intro s e s' h
  have hKind : Job.Ends (Job.isDirectory (Path.join runtime "lib")) s
      (.ok (s.kind? (Path.join runtime "lib") == some .directory)) s := ⟨rfl, rfl⟩
  rw [copyLibrary, Job.ends_bind_iff_of_ok hKind] at h
  split at h
  next hDirectory =>
    have hCreate : Job.Ends (Job.ask (.createDirectories (Path.join output "lib"))) s
        (.ok (s.createDirectories (Path.join output "lib")).1)
        (s.createDirectories (Path.join output "lib")).2 := ⟨rfl, rfl⟩
    have hGrows := (Store.gainsDirectories_createDirectories (Path.join output "lib") s).grows
    rw [Job.ends_bind_iff_of_ok hCreate] at h
    rcases Job.ends_bind_error_iff.mp h with h | ⟨_, made, hMade, h⟩
    · exact Job.failsOnly_check _ (fun _ => ⟨_, rfl⟩) _ _ _ h
    · rw [(Job.ends_check_iff.mp hMade).2] at hGrows
      obtain ⟨place, hFind⟩ := Store.kind?_eq_directory_iff.mp (by simpa using hDirectory)
      have hList := Store.list_eq_ok_iff.mpr ⟨place, hGrows.find hFind, rfl⟩
      rw [Job.ends_bind_iff_of_ok (Job.ends_filesIn hList _)] at h
      exact Job.failsOnly_forM (failsOnly_copyFile _ _) _ _ _ _ h
  next => exact Job.failsOnly_warn _ _ _ _ h

theorem failsOnly_emit (root output : String) (settings : Settings) (design : Design) :
    Job.FailsOnly Unwritten (emit root output settings design) := by
  refine (Job.failsOnly_forM (failsOnly_writeFile output) _).bind fun _ => ?_
  refine (failsOnly_copyOrWarn _ _ _).bind fun _ => ?_
  cases settings.runtimeDir with
  | none => exact Job.failsOnly_note _ _
  | some runtime =>
      exact (failsOnly_copyOrWarn _ _ _).bind fun _ => (failsOnly_copyOrWarn _ _ _).bind fun _ =>
        failsOnly_copyLibrary runtime output

/-- A compilation that fails for any other reason than that something could not be written
leaves every file as it was and adds none. The only difference it makes is that
directories on the output path may have been created. -/
theorem compile_failure_writes_nothing {root output : String} {settings : Settings} {e : Error}
    (h : ((compile root output settings).run s).1.outcome = .error e)
    (hOther : ∀ text, e.cause ≠ .notWritten text) :
    (∀ place contents, ((compile root output settings).run s).2.get? place = some (.file contents) ↔
      s.get? place = some (.file contents)) ∧
    Store.GainsDirectories (s.OnPath output) s ((compile root output settings).run s).2 := by
  have hGains : Store.GainsDirectories (s.OnPath output) s
      ((compile root output settings).run s).2 := by
    have hEnds : Job.Ends (compile root output settings) s (.error e) _ := ⟨h, rfl⟩
    rw [compile_eq] at hEnds ⊢
    -- An error of the second half would be one of writing.
    rcases Job.ends_bind_error_iff.mp hEnds with hEarly | ⟨design, opened, -, hLate⟩
    · exact gainsDirectories_prepare hEarly
    · obtain ⟨text, hText⟩ := failsOnly_emit root output settings design _ _ _ hLate
      exact absurd hText (hOther text)
  refine ⟨fun place contents => ?_, hGains⟩
  rcases hGains.get place with hSame | ⟨hNone, hMade, -⟩
  · rw [hSame]
  · simp [hNone, hMade]

/-- A project with a bundle that embeds itself. -/
def tangled : Store :=
  { current := []
    entries :=
      [(["p"], .directory), (["bundle", "p"], .directory), (["combine", "p"], .directory),
        (["cpp", "p"], .directory),
        (["Loop.xml", "bundle", "p"], .file ("<bundle><name>Loop</name><member>" ++
          "<name>self</name><type>Loop</type></member></bundle>").toUTF8)] }

theorem tangled_writes_nothing :
    ((compile "p" "x/out" {}).run tangled).1.outcome = .error { cause := .cycle ["Loop"] } ∧
      (((compile "p" "x/out" {}).run tangled).2.get? ["out", "x"]).map Content.kind =
        some .directory ∧
      Store.GainsDirectories (tangled.OnPath "x/out") tangled
        ((compile "p" "x/out" {}).run tangled).2 := by
  have hRun : ((compile "p" "x/out" {}).run tangled).1.outcome =
        .error { cause := .cycle ["Loop"] } ∧
      (((compile "p" "x/out" {}).run tangled).2.get? ["out", "x"]).map Content.kind =
        some .directory := by
    decide +kernel
  exact ⟨hRun.1, hRun.2, (compile_failure_writes_nothing hRun.1 nofun).2⟩

end Compile

end Simgen
