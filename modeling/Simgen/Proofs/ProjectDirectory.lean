import Simgen.ProjectDirectory
import Simgen.Proofs.Descriptor.Schema
import Simgen.Proofs.Files.Job

/-! Reading a project: it changes nothing, and the combines that come out of it have valid
identifiers for names. -/
namespace Simgen

namespace Descriptor

theorem isValid_of_nameOf {e : Markup.Element} {parent name : String}
    (h : nameOf e parent = .ok name) : Ident.isValid name = true := by
  obtain ⟨text, -, hText⟩ := bind_eq_ok_iff.mp h
  split at hText
  next hValid =>
    cases hText
    exact hValid
  next => cases hText

theorem Combine.isValid_name_of_parse {document source : String} {d : Combine}
    (h : (parse document source).outcome = .ok d) : Ident.isValid d.name = true := by
  rw [parse, Traced.outcome_blaming, mapError_eq_ok_iff] at h
  obtain ⟨e, -, hCombine⟩ := Traced.outcome_bind_eq_ok_iff.mp h
  obtain ⟨name, hName, hRest⟩ := Traced.outcome_bind_eq_ok_iff.mp hCombine
  obtain ⟨_, -, hRest⟩ := Traced.outcome_bind_eq_ok_iff.mp hRest
  obtain ⟨_, -, hRest⟩ := Traced.outcome_bind_eq_ok_iff.mp hRest
  cases hRest
  exact isValid_of_nameOf (lift_eq_ok_iff.mp hName)

end Descriptor

namespace ProjectDirectory

open Files

variable {s s' : Store}

theorem observes_check (root : String) : Job.Observes (check root) := by
  refine (Job.observes_isDirectory root).bind fun _ => (Job.observes_require _ _).bind fun _ => ?_
  exact Job.observes_forM (fun sub =>
    (Job.observes_isDirectory _).bind fun _ => Job.observes_require _ _) subdirectories

theorem observes_descriptor {α : Type} (parse : String → String → Traced α) (path : String) :
    Job.Observes (descriptor parse path) :=
  (Job.observes_readText path).bind fun _ => (Job.observes_check _ _).bind fun _ =>
    Job.observes_ofTraced _

theorem observes_descriptors {α : Type} (parse : String → String → Traced α) (dir : String) :
    Job.Observes (descriptors parse dir) :=
  (Job.observes_filesIn dir _).bind fun names =>
    Job.observes_mapM (fun _ => observes_descriptor parse _) names

theorem observes_load (root : String) : Job.Observes (load root) :=
  (observes_check root).bind fun _ => (observes_descriptors _ _).bind fun _ =>
    (observes_descriptors _ _).bind fun _ => Job.observes_pure _

theorem observes_sources (paths : List String) : Job.Observes (sources paths) :=
  (Job.observes_mapM (fun path => (Job.observes_readText path).bind fun _ =>
    Job.observes_pure _) paths).bind fun _ => Job.observes_pure _

/-- Every descriptor that was read was parsed from some document. -/
theorem exists_parse_of_mem_descriptors {α : Type} {parse : String → String → Traced α}
    {dir : String} {ds : List α} (h : Job.Ends (descriptors parse dir) s (.ok ds) s') {d : α}
    (hd : d ∈ ds) : ∃ document source, (parse document source).outcome = .ok d := by
  obtain ⟨names, listed, -, hRead⟩ := Job.ends_bind_ok_iff.mp h
  obtain ⟨name, -, before, after, hOne⟩ := Job.exists_ends_of_mem_mapM hRead hd
  obtain ⟨_, _, -, hOne⟩ := Job.ends_bind_ok_iff.mp hOne
  obtain ⟨document, _, -, hOne⟩ := Job.ends_bind_ok_iff.mp hOne
  exact ⟨document, _, (Job.ends_ofTraced_iff.mp hOne).1⟩

theorem cppDir_of_load {root : String} {p : Project} (h : Job.Ends (load root) s (.ok p) s') :
    p.cppDir = Path.join root "cpp" := by
  obtain ⟨_, _, -, h⟩ := Job.ends_bind_ok_iff.mp h
  obtain ⟨bundles, _, -, h⟩ := Job.ends_bind_ok_iff.mp h
  obtain ⟨combines, _, -, h⟩ := Job.ends_bind_ok_iff.mp h
  cases (Job.ends_pure_iff.mp h).1
  rfl

theorem isValid_combine_names {root : String} {p : Project}
    (h : Job.Ends (load root) s (.ok p) s') {d : Descriptor.Combine} (hd : d ∈ p.combines) :
    Ident.isValid d.name = true := by
  obtain ⟨_, _, -, h⟩ := Job.ends_bind_ok_iff.mp h
  obtain ⟨bundles, _, -, h⟩ := Job.ends_bind_ok_iff.mp h
  obtain ⟨combines, _, hCombines, h⟩ := Job.ends_bind_ok_iff.mp h
  cases (Job.ends_pure_iff.mp h).1
  obtain ⟨document, source, hParse⟩ := exists_parse_of_mem_descriptors hCombines hd
  exact Descriptor.Combine.isValid_name_of_parse hParse

end ProjectDirectory

end Simgen
