import Simgen.Files.Search
import Simgen.Proofs.Files.Job
import Simgen.Proofs.Files.WellFormed

/-! Looking for a file upwards. A path that is tried from the working directory and from each
directory above it leads to what it would lead to if that directory were the working one. -/
namespace Simgen.Files.Store

variable {s : Store} {dir : Location} {path : String}

/-- The tree as it is seen from another directory. -/
def seenFrom (s : Store) (dir : Location) : Store := { s with current := dir }

@[simp] theorem seenFrom_current (s : Store) : s.seenFrom s.current = s := rfl

@[simp] theorem get?_seenFrom (s : Store) (dir place : Location) :
    (s.seenFrom dir).get? place = s.get? place := rfl

theorem walk_seenFrom (s : Store) (dir start : Location) (segments : List String) :
    (s.seenFrom dir).walk start segments = s.walk start segments := by
  induction segments generalizing start with
  | nil => rfl
  | cons segment rest ih => simp only [walk, get?_seenFrom, ih]

/-- The nearest directory, upwards from the working one, from which a path leads to a file. -/
def nearest? (s : Store) (path : String) : Option Location :=
  s.current.tails.find? fun dir => (s.seenFrom dir).kind? path == some .file

theorem exists_tails_eq_cons (place : Location) : ∃ above, place.tails = place :: above := by
  cases place with
  | nil => exact ⟨[], rfl⟩
  | cons name outer => exact ⟨outer.tails, List.tails_cons name outer⟩

theorem nearest?_of_kind? (h : s.kind? path = some .file) : s.nearest? path = some s.current := by
  obtain ⟨above, hAbove⟩ := exists_tails_eq_cons s.current
  rw [nearest?, hAbove]
  exact List.find?_cons_of_pos (by simpa using h)

namespace WellFormed

theorem isName_of_mem (hs : s.WellFormed) {place : Location} {c : Content}
    (h : s.get? place = some c) : ∀ name ∈ place, Path.IsName name := by
  induction place generalizing c with
  | nil => exact fun _ hName => absurd hName List.not_mem_nil
  | cons name outer ih =>
      obtain ⟨hName, hOuter⟩ := hs.outer h
      exact List.forall_mem_cons.mpr ⟨hName, ih hOuter⟩

theorem directory_of_suffix (hs : s.WellFormed) {place : Location}
    (h : s.get? place = some .directory) (hSuffix : dir <:+ place) :
    s.get? dir = some .directory := by
  obtain ⟨inner, rfl⟩ := hSuffix
  cases inner with
  | nil => exact h
  | cons name inner => exact hs.above h (List.cons_ne_nil _ _)

/-- The names on the path of a directory lead to it from the root. -/
theorem walk_reverse (hs : s.WellFormed) (h : s.get? dir = some .directory) :
    s.walk [] dir.reverse = .ok dir := by
  induction dir with
  | nil => rfl
  | cons name outer ih =>
      obtain ⟨hName, hOuter⟩ := hs.outer h
      rw [List.reverse_cons, walk_append_eq_ok_iff]
      refine ⟨outer, ih hOuter, ?_⟩
      rw [walk_cons_eq_ok_iff, walk_nil_eq_ok_iff, enter_of_isName hName]
      exact ⟨hOuter, rfl⟩

theorem find_seenFrom (hs : s.WellFormed) (h : s.get? dir = some .directory) (hPath : path ≠ "") :
    s.find (Path.join (Path.absolute dir.reverse) path) = (s.seenFrom dir).find path := by
  have hLocate : s.locate (Path.join (Path.absolute dir.reverse) path) =
      (s.seenFrom dir).locate path := by
    cases hAbsolute : Path.isAbsolute path with
    | true =>
        rw [Path.join, hAbsolute, Bool.true_or, if_pos rfl, locate, locate, walk_seenFrom,
          hAbsolute]
        rfl
    | false =>
        have hNames : ∀ part ∈ dir.reverse, part ≠ "" ∧ '/' ∉ part.toList := by
          intro part hPart
          have hName := hs.isName_of_mem h part (List.mem_reverse.mp hPart)
          exact ⟨hName.ne_empty, hName.no_slash⟩
        rw [locate, locate, if_neg (Path.join_ne_empty _ hPath), if_neg hPath, walk_seenFrom,
          Path.isAbsolute_join _ hAbsolute, Path.isAbsolute_absolute, hAbsolute,
          Path.segments_join _ hAbsolute, Path.segments_absolute hNames]
        exact walk_append (hs.walk_reverse h) _
  rw [find, find, hLocate, Path.hasTrailingSlash_join _ hPath]
  rfl

theorem kind?_seenFrom (hs : s.WellFormed) (h : s.get? dir = some .directory) (hPath : path ≠ "") :
    s.kind? (Path.join (Path.absolute dir.reverse) path) = (s.seenFrom dir).kind? path := by
  rw [kind?, kind?, hs.find_seenFrom h hPath]

theorem read_seenFrom (hs : s.WellFormed) (h : s.get? dir = some .directory) (hPath : path ≠ "") :
    s.read (Path.join (Path.absolute dir.reverse) path) = (s.seenFrom dir).read path := by
  rw [read, read, hs.find_seenFrom h hPath]

end WellFormed

end Simgen.Files.Store

namespace Simgen.Files.Job

variable {s : Store} {path : String}

theorem reports_firstFile? (s : Store) (paths : List String) :
    Reports (firstFile? paths) s [] (.ok (paths.find? fun path => s.kind? path == some .file)) := by
  induction paths with
  | nil => rfl
  | cons path paths ih =>
      have hKind : Reports (isFile path) s [] (.ok (s.kind? path == some .file)) := rfl
      refine hKind.bind ?_
      rw [List.find?_cons]
      cases s.kind? path == some .file with
      | true => rfl
      | false => exact ih

theorem reports_candidates (hs : s.WellFormed) (hHome : s.get? s.current = some .directory)
    (hRelative : Path.isAbsolute path = false) :
    Reports (candidates path) s []
      (.ok (s.current.tails.map fun dir => Path.join (Path.absolute dir.reverse) path)) := by
  have hUpwards := congrArg (List.map (Path.join · path))
    (Path.upwards_absolute (hs.isName_of_mem hHome))
  rw [List.map_map] at hUpwards
  have hAsk : Reports (ask .workingDirectory) s [] (.ok (.ok s.workingDirectory)) := rfl
  rw [candidates, hRelative]
  refine hAsk.bind ?_
  exact congrArg (fun paths => (Traced.mk [] (.ok paths), s)) hUpwards

/-- A search ends at the path from the nearest directory. -/
theorem reports_search? (hs : s.WellFormed) (hHome : s.get? s.current = some .directory)
    (hPath : path ≠ "") :
    Reports (search? path) s []
      (.ok ((s.nearest? path).map fun dir => Path.join (Path.absolute dir.reverse) path)) := by
  have hFound : (s.current.tails.map fun dir => Path.join (Path.absolute dir.reverse) path).find?
      (fun path => s.kind? path == some .file) =
        (s.nearest? path).map fun dir => Path.join (Path.absolute dir.reverse) path := by
    have hKinds : ∀ dir ∈ s.current.tails,
        (s.kind? (Path.join (Path.absolute dir.reverse) path) == some .file) =
          ((s.seenFrom dir).kind? path == some .file) := by
      intro dir hDir
      rw [hs.kind?_seenFrom (hs.directory_of_suffix hHome ((List.mem_tails _ _).mp hDir)) hPath]
    rw [List.find?_map, Store.nearest?, ← List.head?_filter, ← List.head?_filter,
      ← List.filter_congr hKinds]
    rfl
  rw [← hFound]
  cases hAbsolute : Path.isAbsolute path with
  | false => exact (reports_candidates hs hHome hAbsolute).bind (reports_firstFile? s _)
  | true =>
      have hOne : Reports (candidates path) s [] (.ok [path]) := by
        rw [candidates, hAbsolute]
        rfl
      -- All the paths are the same one, so that the first decides.
      have hSame : (s.current.tails.map fun dir => Path.join (Path.absolute dir.reverse) path) =
          s.current.tails.map fun _ => path := by
        simp [Path.join, hAbsolute]
      have hFirst : (s.current.tails.map fun _ => path).find? (s.kind? · == some .file) =
          [path].find? (s.kind? · == some .file) := by
        obtain ⟨above, hAbove⟩ := Store.exists_tails_eq_cons s.current
        rw [hAbove, List.map_cons, List.find?_cons, List.find?_cons]
        cases hKind : s.kind? path == some .file with
        | true => rfl
        | false => simpa using fun _ => by simpa using hKind
      rw [hSame, hFirst]
      exact hOne.bind (reports_firstFile? s [path])

end Simgen.Files.Job
