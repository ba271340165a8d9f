import Simgen.Proofs.Files.WellFormed

/-! Trees that differ by new entries only, and the operations that add such entries:
creating a directory, and copying to a place where nothing stands. -/
namespace Simgen.Files.Store

variable {s s' s'' : Store} {new : List (Location × Content)}

/-- `s'` holds the entries of `s` and, at places where `s` has none, the new ones. -/
structure Adds (new : List (Location × Content)) (s s' : Store) : Prop where
  current : s'.current = s.current
  nodup : (new.map Prod.fst).Nodup
  fresh : ∀ e ∈ new, s.get? e.1 = none
  get : ∀ place c, s'.get? place = some c ↔ (place, c) ∈ new ∨ s.get? place = some c

namespace Adds

theorem nil (s : Store) : Adds [] s s := ⟨rfl, List.nodup_nil, by simp, by simp⟩

theorem grows (h : Adds new s s') : Grows s s' :=
  ⟨h.current, fun place c hGet => (h.get place c).mpr (Or.inr hGet)⟩

theorem get?_eq_none_iff (h : Adds new s s') {place : Location} :
    s'.get? place = none ↔ place ∉ new.map Prod.fst ∧ s.get? place = none := by
  simp only [Option.eq_none_iff_forall_ne_some, ne_eq, h.get, not_or, forall_and, List.mem_map,
    not_exists, not_and]
  refine and_congr_left fun _ => ⟨?_, ?_⟩
  · rintro hNot ⟨_, c⟩ hIn rfl
    exact hNot c hIn
  · intro hNot c hIn
    exact hNot _ hIn rfl

/-- One more entry at a place where nothing stands. -/
theorem snoc (h : Adds new s s') {place : Location} {c : Content} (hFree : s'.get? place = none)
    (hCurrent : s''.current = s'.current)
    (hGet : ∀ other, s''.get? other = if other = place then some c else s'.get? other) :
    Adds (new ++ [(place, c)]) s s'' := by
  obtain ⟨hNew, hOld⟩ := h.get?_eq_none_iff.mp hFree
  refine ⟨hCurrent.trans h.current, ?_, ?_, ?_⟩
  · rw [List.map_append]
    exact h.nodup.append (List.nodup_singleton _) (by simpa using hNew)
  · intro e he
    rcases List.mem_append.mp he with he | he
    · exact h.fresh e he
    · rw [List.mem_singleton.mp he]
      exact hOld
  · intro other c'
    rw [hGet, List.mem_append, List.mem_singleton, Prod.mk.injEq]
    by_cases hOther : other = place
    · subst hOther
      have hNone : (other, c') ∉ new := fun hIn => hNew (List.mem_map_of_mem hIn)
      simp [hOld, hNone, eq_comm]
    · simp [hOther, h.get]

theorem walk_of_files (h : Adds new s s') (hFiles : ∀ e ∈ new, e.2 ≠ .directory)
    {start place : Location} {segments : List String} (hWalk : s'.walk start segments = .ok place) :
    s.walk start segments = .ok place := by
  induction segments generalizing start with
  | nil => exact hWalk
  | cons segment rest ih =>
      obtain ⟨hStart, hRest⟩ := walk_cons_eq_ok_iff.mp hWalk
      have hOld : s.get? start = some .directory := by
        rcases (h.get _ _).mp hStart with hIn | hOld
        · exact absurd rfl (hFiles _ hIn)
        · exact hOld
      exact walk_cons_eq_ok_iff.mpr ⟨hOld, ih hRest⟩

/-- New files open no new paths: what is found, if it is not one of them, was found before. -/
theorem find_of_files (h : Adds new s s') (hFiles : ∀ e ∈ new, e.2 ≠ .directory)
    {path : String} {place : Location} {c : Content} (hFind : s'.find path = .ok (place, c))
    (hPlace : place ∉ new.map Prod.fst) : s.find path = .ok (place, c) := by
  obtain ⟨hLocate, hGet, hSlash⟩ := find_eq_ok_iff.mp hFind
  obtain ⟨hPath, hWalk⟩ := locate_eq_ok_iff.mp hLocate
  refine find_eq_ok_iff.mpr ⟨locate_eq_ok_iff.mpr ⟨hPath, ?_⟩, ?_, hSlash⟩
  · rw [← h.grows.origin]
    exact h.walk_of_files hFiles hWalk
  · rcases (h.get _ _).mp hGet with hIn | hOld
    · exact absurd (List.mem_map_of_mem hIn) hPlace
    · exact hOld

end Adds

/-- Copying to a place where nothing stands puts the contents of the source there. -/
theorem copy_of_free {source target : String} {contents : ByteArray} {place : Location}
    (hRead : s.read source = .ok contents) (hLocate : s.locate target = .ok place)
    (hFree : s.get? place = none) (hSlash : Path.hasTrailingSlash target = false) :
    (s.copy source target).1 = .ok () ∧ (s.copy source target).2.current = s.current ∧
      ∀ other, (s.copy source target).2.get? other =
        if other = place then some (.file contents) else s.get? other := by
  have hPlace := ne_root_of_get?_eq_none hFree
  -- A copy first empties its target, which is not its source: the source is there already.
  let emptied := s.insert place (.file .empty)
  have hGrows : Grows s emptied := .insert hPlace hFree _
  have hEmptied : s.write target .empty = .ok emptied :=
    write_eq_ok_iff.mpr ⟨place, hLocate, by simp [hFree], hSlash, rfl⟩
  have hAgain : emptied.read source = .ok contents := hGrows.read hRead
  have hFilled : emptied.write target contents = .ok (emptied.insert place (.file contents)) := by
    refine write_eq_ok_iff.mpr ⟨place, hGrows.locate hLocate, ?_, hSlash, rfl⟩
    simp [emptied, get?_insert hPlace]
  have hCopy : s.copy source target = (.ok (), emptied.insert place (.file contents)) := by
    simp only [copy, hRead, hEmptied, hAgain, hFilled]
  rw [hCopy]
  refine ⟨rfl, by simp [emptied], fun other => ?_⟩
  rw [get?_insert hPlace, get?_insert hPlace]
  split <;> rfl

theorem createDirectories_of_locate {path : String} {place : Location}
    (hLocate : s.locate path = .ok place) (hFree : s.get? place = none) :
    s.createDirectories path = (.ok (), s.insert place .directory) := by
  have hMade : s.createDirectory path = .ok (s.insert place .directory) :=
    createDirectory_eq_ok_iff.mpr ⟨place, hLocate, hFree, rfl⟩
  rw [createDirectories, createUpTo, if_neg (locate_eq_ok_iff.mp hLocate).1, hMade]

/-- Once directories have been created, the path leads to one. -/
theorem kind?_createDirectories {path : String} (hPath : path ≠ "")
    (h : (s.createDirectories path).1 = .ok ()) :
    (s.createDirectories path).2.kind? path = some .directory := by
  have hMade : ∀ {s s' : Store}, s.createDirectory path = .ok s' →
      s'.kind? path = some .directory := by
    intro s s' hCreate
    obtain ⟨place, hLocate, hFree, rfl⟩ := createDirectory_eq_ok_iff.mp hCreate
    have hPlace := ne_root_of_get?_eq_none hFree
    refine kind?_eq_directory_iff.mpr ⟨place, find_eq_directory_iff.mpr ⟨?_, ?_⟩⟩
    · exact (Grows.insert hPlace hFree _).locate hLocate
    · simp [get?_insert hPlace]
  have hThere : ∀ (s : Store) (e : OsError),
      (if s.kind? path = some .directory then .ok () else .error e : Except OsError Unit) = .ok () →
        s.kind? path = some .directory := by
    intro s e hOk
    split at hOk
    next hKind => exact hKind
    next => cases hOk
  rw [createDirectories, createUpTo, if_neg hPath] at h ⊢
  revert h
  split
  next made hCreate => exact fun _ => hMade hCreate
  next =>
    split
    next => intro h; cases h
    next parent hParent =>
      split
      next => intro h; cases h
      next above hAbove =>
        split
        next last hCreate => exact fun _ => hMade hCreate
        next e hCreate => exact hThere above e
  next e _ _ => exact hThere s e

end Simgen.Files.Store
