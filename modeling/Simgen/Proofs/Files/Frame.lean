import Simgen.Proofs.Files.Job
import Simgen.Proofs.Files.WellFormed

/-! Which files a run can change. Whatever is written goes to the place where its path ends, so
that files at other places are kept. Making directories changes no file at all. -/
namespace Simgen.Files

namespace Store

variable {s s' s'' : Store} {touched : Location → Prop}

/-- The place where a path ends, whether or not the tree lets it be followed. -/
def destination (s : Store) (path : String) : Location :=
  (Path.segments path).foldl enter (s.origin path)

theorem eq_destination_of_locate {path : String} {place : Location}
    (h : s.locate path = .ok place) : place = s.destination path :=
  walk_eq_foldl (locate_eq_ok_iff.mp h).2

theorem destination_congr (h : s'.current = s.current) (path : String) :
    s'.destination path = s.destination path := by
  rw [destination, destination, origin, origin, h]

theorem destination_join (s : Store) (outer : String) {name : String} (hName : Path.IsName name) :
    s.destination (Path.join outer name) = name :: s.destination outer := by
  rw [destination, origin, Path.segments_join outer hName.isAbsolute,
    Path.isAbsolute_join outer hName.isAbsolute, List.foldl_append, hName.segments]
  exact enter_of_isName hName _

/-- Every file of `s` is in `s'` with the same contents, unless it stands at a touched place. -/
structure KeepsFiles (touched : Location → Prop) (s s' : Store) : Prop where
  current : s'.current = s.current
  get : ∀ place contents, ¬ touched place → s.get? place = some (.file contents) →
    s'.get? place = some (.file contents)

namespace KeepsFiles

theorem refl (s : Store) : KeepsFiles touched s s := ⟨rfl, fun _ _ _ hGet => hGet⟩

theorem trans (h : KeepsFiles touched s s') (h' : KeepsFiles touched s' s'') :
    KeepsFiles touched s s'' := by
  refine ⟨h'.current.trans h.current, fun place contents hPlace hGet => ?_⟩
  exact h'.get place contents hPlace (h.get place contents hPlace hGet)

theorem of_grows (h : Grows s s') : KeepsFiles touched s s' :=
  ⟨h.current, fun place contents _ hGet => h.get place (.file contents) hGet⟩

theorem write {path : String} {contents : ByteArray} (hTouched : touched (s.destination path))
    (h : s.write path contents = .ok s') : KeepsFiles touched s s' := by
  obtain ⟨place, hLocate, hNot, -, rfl⟩ := write_eq_ok_iff.mp h
  have hRoot : place ≠ [] := by
    rintro rfl
    exact hNot (get?_root s)
  rw [← eq_destination_of_locate hLocate] at hTouched
  refine ⟨current_insert s place _, fun other old hOther hGet => ?_⟩
  rw [get?_insert hRoot, if_neg, hGet]
  rintro rfl
  exact hOther hTouched

/-- A copy that is broken off has changed its target all the same, but nothing else. -/
theorem copy (source : String) {target : String} (hTouched : touched (s.destination target)) :
    KeepsFiles touched s (s.copy source target).2 := by
  unfold Store.copy
  split
  · exact refl s
  split
  · exact refl s
  next emptied hEmptied =>
    have hFirst : KeepsFiles touched s emptied := write hTouched hEmptied
    split
    · exact hFirst
    split
    · exact hFirst
    next filled hFilled =>
      rw [← destination_congr hFirst.current] at hTouched
      exact hFirst.trans (write hTouched hFilled)

end KeepsFiles

end Store

namespace Job

variable {α β : Type} {s s' base : Store} {touched : Location → Prop}

/-- On every tree with the current directory of `base`, and whether or not it fails, the job
changes files at touched places only. -/
def Spares (base : Store) (touched : Location → Prop) (t : Job α) : Prop :=
  ∀ s, s.WellFormed → s.current = base.current → Store.KeepsFiles touched s (t.run s).2

theorem Observes.spares {t : Job α} (h : Observes t) : Spares base touched t := by
  intro s _ _
  rw [h s]
  exact .refl s

/-- The second part may rely on what the first part found. -/
theorem Spares.bind {t : Job α} {f : α → Job β} (ht : Spares base touched t)
    (hf : ∀ a s s', s.WellFormed → Ends t s (.ok a) s' → Spares base touched (f a)) :
    Spares base touched (t >>= f) := by
  intro s hs hCurrent
  have hFirst := ht s hs hCurrent
  cases hOutcome : (t.run s).1.outcome with
  | error e =>
      rw [(run_bind_of_error hOutcome f).2]
      exact hFirst
  | ok a =>
      rw [(run_bind_of_ok hOutcome f).2]
      exact hFirst.trans
        (hf a s _ hs ⟨hOutcome, rfl⟩ _ (hs.run t) (hFirst.current.trans hCurrent))

theorem spares_forM {f : α → Job Unit} {items : List α}
    (hf : ∀ a ∈ items, Spares base touched (f a)) : Spares base touched (items.forM f) := by
  induction items with
  | nil => exact (observes_pure ()).spares
  | cons item items ih =>
      obtain ⟨hHead, hTail⟩ := List.forall_mem_cons.mp hf
      exact hHead.bind fun _ _ _ _ _ => ih hTail

theorem spares_write {path : String} (contents : ByteArray)
    (h : touched (base.destination path)) : Spares base touched (ask (.write path contents)) := by
  intro s _ hCurrent
  rw [← Store.destination_congr hCurrent] at h
  change Store.KeepsFiles touched s (s.answer (.write path contents)).2
  rw [Store.answer]
  split
  next written hWritten => exact .write h hWritten
  next => exact .refl s

theorem spares_copy (source : String) {target : String} (h : touched (base.destination target)) :
    Spares base touched (ask (.copy source target)) := by
  intro s _ hCurrent
  rw [← Store.destination_congr hCurrent] at h
  exact .copy source h

theorem spares_createDirectories (path : String) :
    Spares base touched (ask (.createDirectories path)) :=
  fun s _ _ => .of_grows (Store.gainsDirectories_createDirectories path s).grows

/-- The files that are found in a directory have names in it, and extensions that are wanted. -/
theorem of_mem_filesIn (hs : s.WellFormed) {dir : String} {accepts : String → Bool}
    {names : List String} (h : Ends (filesIn dir accepts) s (.ok names) s') {name : String}
    (hName : name ∈ names) : Path.IsName name ∧ (Path.extension? name).any accepts = true := by
  have hAsk : Ends (ask (.list dir)) s (.ok (s.list dir)) s := ⟨rfl, rfl⟩
  cases hList : s.list dir with
  | error e =>
      rw [filesIn, ends_bind_iff_of_ok hAsk, hList] at h
      cases h.1
  | ok listed =>
      obtain ⟨place, -, hListed⟩ := Store.list_eq_ok_iff.mp hList
      cases (ends_filesIn hList accepts).1.symm.trans h.1
      have hSorted := (List.mergeSort_perm _ _).mem_iff.mp (List.mem_filter.mp hName).1
      obtain ⟨hThere, hAccepted⟩ := List.mem_filter.mp hSorted
      rw [← hListed, Store.mem_names_iff, Option.ne_none_iff_exists'] at hThere
      obtain ⟨c, hGet⟩ := hThere
      exact ⟨(hs.outer hGet).1, hAccepted⟩

end Job

end Simgen.Files
