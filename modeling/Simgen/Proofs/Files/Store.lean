import Simgen.Files.Store
import Simgen.Proofs.Files.Path
import Simgen.Proofs.Journal
import Simgen.Proofs.Keyed

/-! Looking things up in a stored tree, before and after it has grown. What a path leads to
in a tree, it leads to in every tree that keeps the old entries. -/
namespace Simgen.Files.Store

variable {s s' s'' : Store}

@[simp] theorem get?_root (s : Store) : s.get? [] = some .directory := rfl

@[simp] theorem current_insert (s : Store) (place : Location) (c : Content) :
    (s.insert place c).current = s.current := by
  unfold insert
  split <;> rfl

theorem entries_insert (s : Store) (place : Location) (c : Content) :
    (s.insert place c).entries =
      if (s.entries.lookup place).isSome then
        s.entries.map fun e => if e.1 = place then (place, c) else e
      else s.entries ++ [(place, c)] := by
  unfold insert
  split <;> rfl

/-- Inserting changes the tree at one place only. -/
theorem get?_insert {place : Location} (hPlace : place ≠ []) (c : Content) (other : Location) :
    (s.insert place c).get? other = if other = place then some c else s.get? other := by
  by_cases hRoot : other = []
  · subst hRoot
    simp [Ne.symm hPlace]
  · rw [get?, get?, if_neg hRoot, if_neg hRoot, entries_insert, lookup_put]

/-- The place that a segment leads to. -/
def enter (place : Location) (segment : String) : Location :=
  if segment = "." then place else if segment = ".." then place.tail else segment :: place

/-- The place that a path starts from. -/
def origin (s : Store) (path : String) : Location := if Path.isAbsolute path then [] else s.current

theorem enter_of_isName {name : String} (h : Path.IsName name) (place : Location) :
    enter place name = name :: place := by
  rw [enter, if_neg h.ne_dot, if_neg h.ne_dots]

theorem walk_nil_eq_ok_iff {start place : Location} :
    s.walk start [] = .ok place ↔ place = start := by
  rw [walk, Except.ok.injEq, eq_comm]

theorem walk_cons_eq_ok_iff {start place : Location} {segment : String} {rest : List String} :
    s.walk start (segment :: rest) = .ok place ↔
      s.get? start = some .directory ∧ s.walk (enter start segment) rest = .ok place := by
  rw [walk]
  cases s.get? start with
  | none => simp
  | some c =>
      cases c with
      | file contents => simp
      | directory => simp [enter]

theorem walk_append {start middle : Location} {first : List String}
    (h : s.walk start first = .ok middle) (rest : List String) :
    s.walk start (first ++ rest) = s.walk middle rest := by
  induction first generalizing start with
  | nil => rw [walk_nil_eq_ok_iff.mp h, List.nil_append]
  | cons segment first ih =>
      obtain ⟨hStart, hFirst⟩ := walk_cons_eq_ok_iff.mp h
      rw [List.cons_append, walk, hStart]
      exact ih hFirst

theorem walk_append_eq_ok_iff {start place : Location} {first rest : List String} :
    s.walk start (first ++ rest) = .ok place ↔
      ∃ middle, s.walk start first = .ok middle ∧ s.walk middle rest = .ok place := by
  induction first generalizing start with
  | nil => simp [walk]
  | cons segment first ih =>
      rw [List.cons_append, walk_cons_eq_ok_iff, ih]
      simp only [walk_cons_eq_ok_iff]
      constructor
      · rintro ⟨hStart, middle, hFirst, hRest⟩
        exact ⟨middle, ⟨hStart, hFirst⟩, hRest⟩
      · rintro ⟨middle, ⟨hStart, hFirst⟩, hRest⟩
        exact ⟨hStart, middle, hFirst, hRest⟩

theorem walk_eq_foldl {start place : Location} {segments : List String}
    (h : s.walk start segments = .ok place) : place = segments.foldl enter start := by
  induction segments generalizing start with
  | nil => exact (Except.ok.inj h).symm
  | cons segment rest ih => exact ih (walk_cons_eq_ok_iff.mp h).2

theorem locate_eq_ok_iff {path : String} {place : Location} :
    s.locate path = .ok place ↔
      path ≠ "" ∧ s.walk (s.origin path) (Path.segments path) = .ok place := by
  rw [locate]
  split
  next hEmpty => simp [hEmpty]
  next hPath => simp [hPath, origin]

/-- A name in a directory leads to the entry of that name below it. -/
theorem locate_join_eq_ok_iff {outer name : String} (hName : Path.IsName name) {place : Location} :
    s.locate (Path.join outer name) = .ok place ↔
      ∃ middle, s.walk (s.origin outer) (Path.segments outer) = .ok middle ∧
        s.get? middle = some .directory ∧ place = name :: middle := by
  rw [locate_eq_ok_iff, origin, Path.isAbsolute_join outer hName.isAbsolute,
    Path.segments_join outer hName.isAbsolute, hName.segments, walk_append_eq_ok_iff]
  simp only [walk_cons_eq_ok_iff, walk_nil_eq_ok_iff, enter_of_isName hName]
  constructor
  · rintro ⟨-, middle, hWalk, hDirectory, rfl⟩
    exact ⟨middle, hWalk, hDirectory, rfl⟩
  · rintro ⟨middle, hWalk, hDirectory, rfl⟩
    exact ⟨Path.join_ne_empty outer hName.ne_empty, middle, hWalk, hDirectory, rfl⟩

theorem find_eq_ok_iff {path : String} {place : Location} {c : Content} :
    s.find path = .ok (place, c) ↔ s.locate path = .ok place ∧ s.get? place = some c ∧
      (c.kind = .file → Path.hasTrailingSlash path = false) := by
  rw [find, bind_eq_ok_iff]
  constructor
  · rintro ⟨found, hLocate, h⟩
    split at h
    next => cases h
    next contents hGet =>
      split at h
      next => cases h
      next hSlash =>
        cases h
        exact ⟨hLocate, hGet, fun _ => by simpa using hSlash⟩
    next hGet =>
      cases h
      exact ⟨hLocate, hGet, fun hKind => nomatch hKind⟩
  · rintro ⟨hLocate, hGet, hSlash⟩
    refine ⟨place, hLocate, ?_⟩
    cases c with
    | file contents => simp [hGet, hSlash rfl]
    | directory => simp [hGet]

theorem kind?_eq_some_iff {path : String} {kind : Kind} :
    s.kind? path = some kind ↔ ∃ place c, s.find path = .ok (place, c) ∧ c.kind = kind := by
  unfold kind?
  cases s.find path with
  | error e => simp
  | ok found =>
      obtain ⟨place, c⟩ := found
      simp

theorem find_eq_directory_iff {path : String} {place : Location} :
    s.find path = .ok (place, .directory) ↔
      s.locate path = .ok place ∧ s.get? place = some .directory := by
  rw [find_eq_ok_iff]
  simp [Content.kind]

theorem kind?_eq_directory_iff {path : String} :
    s.kind? path = some .directory ↔ ∃ place, s.find path = .ok (place, .directory) := by
  rw [kind?_eq_some_iff]
  constructor
  · rintro ⟨place, c, hFind, hKind⟩
    cases c with
    | file contents => cases hKind
    | directory => exact ⟨place, hFind⟩
  · rintro ⟨place, hFind⟩
    exact ⟨place, .directory, hFind, rfl⟩

theorem read_eq_ok_iff {path : String} {contents : ByteArray} :
    s.read path = .ok contents ↔ ∃ place, s.find path = .ok (place, .file contents) := by
  unfold read
  cases s.find path with
  | error e => simp [bind, Except.bind]
  | ok found =>
      obtain ⟨place, c⟩ := found
      cases c <;> simp [bind, Except.bind]

theorem kind?_eq_file_iff {path : String} :
    s.kind? path = some .file ↔ ∃ contents, s.read path = .ok contents := by
  simp only [kind?_eq_some_iff, read_eq_ok_iff]
  constructor
  · rintro ⟨place, c, hFind, hKind⟩
    cases c with
    | file contents => exact ⟨contents, place, hFind⟩
    | directory => cases hKind
  · rintro ⟨contents, place, hFind⟩
    exact ⟨place, .file contents, hFind, rfl⟩

theorem list_eq_ok_iff {path : String} {names : List String} :
    s.list path = .ok names ↔
      ∃ place, s.find path = .ok (place, .directory) ∧ s.names place = names := by
  unfold list
  cases s.find path with
  | error e => simp [bind, Except.bind]
  | ok found =>
      obtain ⟨place, c⟩ := found
      cases c <;> simp [bind, Except.bind]

section join

variable {dir name : String} {place : Location} (hFind : s.find dir = .ok (place, .directory))
  (hName : Path.IsName name)

include hFind hName

theorem locate_join : s.locate (Path.join dir name) = .ok (name :: place) := by
  obtain ⟨hLocate, hGet, -⟩ := find_eq_ok_iff.mp hFind
  exact (locate_join_eq_ok_iff hName).mpr ⟨place, (locate_eq_ok_iff.mp hLocate).2, hGet, rfl⟩

theorem read_join_eq_ok_iff {contents : ByteArray} :
    s.read (Path.join dir name) = .ok contents ↔
      s.get? (name :: place) = some (.file contents) := by
  have hLocate := locate_join hFind hName
  rw [read_eq_ok_iff]
  constructor
  · rintro ⟨found, hFound⟩
    obtain ⟨hThere, hGet, -⟩ := find_eq_ok_iff.mp hFound
    rwa [← Except.ok.inj (hThere.symm.trans hLocate)]
  · intro hGet
    exact ⟨_, find_eq_ok_iff.mpr ⟨hLocate, hGet, fun _ => hName.hasTrailingSlash_join dir⟩⟩

end join

/-- Every entry of `s` stands in `s'` unchanged. -/
structure Grows (s s' : Store) : Prop where
  current : s'.current = s.current
  get : ∀ place c, s.get? place = some c → s'.get? place = some c

namespace Grows

theorem trans (h : Grows s s') (h' : Grows s' s'') : Grows s s'' :=
  ⟨h'.current.trans h.current, fun place c hGet => h'.get place c (h.get place c hGet)⟩

theorem insert {place : Location} (hPlace : place ≠ []) (hFree : s.get? place = none)
    (c : Content) : Grows s (s.insert place c) := by
  refine ⟨current_insert s place c, fun other old hOld => ?_⟩
  rw [get?_insert hPlace, if_neg, hOld]
  rintro rfl
  rw [hFree] at hOld
  cases hOld

theorem origin (h : Grows s s') (path : String) : s'.origin path = s.origin path := by
  rw [Store.origin, Store.origin, h.current]

theorem walk (h : Grows s s') {start place : Location} {segments : List String}
    (hWalk : s.walk start segments = .ok place) : s'.walk start segments = .ok place := by
  induction segments generalizing start with
  | nil => exact hWalk
  | cons segment rest ih =>
      obtain ⟨hStart, hRest⟩ := walk_cons_eq_ok_iff.mp hWalk
      exact walk_cons_eq_ok_iff.mpr ⟨h.get start _ hStart, ih hRest⟩

theorem locate (h : Grows s s') {path : String} {place : Location}
    (hLocate : s.locate path = .ok place) : s'.locate path = .ok place := by
  obtain ⟨hPath, hWalk⟩ := locate_eq_ok_iff.mp hLocate
  exact locate_eq_ok_iff.mpr ⟨hPath, by rw [h.origin]; exact h.walk hWalk⟩

theorem find (h : Grows s s') {path : String} {place : Location} {c : Content}
    (hFind : s.find path = .ok (place, c)) : s'.find path = .ok (place, c) := by
  obtain ⟨hLocate, hGet, hSlash⟩ := find_eq_ok_iff.mp hFind
  exact find_eq_ok_iff.mpr ⟨h.locate hLocate, h.get place c hGet, hSlash⟩

theorem read (h : Grows s s') {path : String} {contents : ByteArray}
    (hRead : s.read path = .ok contents) : s'.read path = .ok contents := by
  obtain ⟨place, hFind⟩ := read_eq_ok_iff.mp hRead
  exact read_eq_ok_iff.mpr ⟨place, h.find hFind⟩

end Grows

/-- Apart from new directories at certain places, `s'` is `s`: no file differs. -/
structure GainsDirectories (among : Location → Prop) (s s' : Store) : Prop where
  current : s'.current = s.current
  get : ∀ place, s'.get? place = s.get? place ∨
    s.get? place = none ∧ s'.get? place = some .directory ∧ among place

namespace GainsDirectories

variable {among : Location → Prop}

theorem refl (s : Store) : GainsDirectories among s s := ⟨rfl, fun _ => Or.inl rfl⟩

theorem trans (h : GainsDirectories among s s') (h' : GainsDirectories among s' s'') :
    GainsDirectories among s s'' := by
  refine ⟨h'.current.trans h.current, fun place => ?_⟩
  rcases h'.get place with hSame | ⟨hNone, hSome, hAmong⟩
  · rw [hSame]
    exact h.get place
  · rcases h.get place with hBefore | ⟨-, hMade, -⟩
    · exact Or.inr ⟨hBefore ▸ hNone, hSome, hAmong⟩
    · rw [hNone] at hMade
      cases hMade

theorem insert {place : Location} (hPlace : place ≠ []) (hFree : s.get? place = none)
    (hAmong : among place) : GainsDirectories among s (s.insert place .directory) := by
  refine ⟨current_insert s place _, fun other => ?_⟩
  rw [get?_insert hPlace]
  by_cases hOther : other = place
  · subst hOther
    exact Or.inr ⟨hFree, by simp, hAmong⟩
  · exact Or.inl (by simp [hOther])

theorem mono {more : Location → Prop} (hMore : ∀ place, among place → more place)
    (h : GainsDirectories among s s') : GainsDirectories more s s' := by
  refine ⟨h.current, fun place => ?_⟩
  rcases h.get place with hSame | ⟨hNone, hSome, hAmong⟩
  · exact Or.inl hSame
  · exact Or.inr ⟨hNone, hSome, hMore place hAmong⟩

theorem grows (h : GainsDirectories among s s') : Grows s s' := by
  refine ⟨h.current, fun place c hGet => ?_⟩
  rcases h.get place with hSame | ⟨hNone, -, -⟩
  · rw [hSame, hGet]
  · rw [hGet] at hNone
    cases hNone

end GainsDirectories

/-- An initial part of the path leads to the place. -/
def OnPath (s : Store) (path : String) (place : Location) : Prop :=
  ∃ before, before <+: Path.segments path ∧ place = before.foldl enter (s.origin path)

theorem onPath_of_locate {path : String} {place : Location} (h : s.locate path = .ok place) :
    s.OnPath path place :=
  ⟨_, List.prefix_rfl, walk_eq_foldl (locate_eq_ok_iff.mp h).2⟩

/-- Dots lead nowhere. -/
theorem foldl_enter_filter (start : Location) (segments : List String) :
    (segments.filter (· ≠ ".")).foldl enter start = segments.foldl enter start := by
  induction segments generalizing start with
  | nil => rfl
  | cons segment rest ih =>
      by_cases hDot : segment = "."
      · subst hDot
        simpa [enter] using ih start
      · simpa [hDot] using ih (enter start segment)

theorem OnPath.of_parent {path parent : String} (hParent : Path.parent? path = some parent)
    {place : Location} (h : s.OnPath parent place) : s.OnPath path place := by
  obtain ⟨before, hPrefix, rfl⟩ := h
  obtain ⟨hSegments, hAbsolute⟩ := Path.segments_parent hParent
  rw [hSegments] at hPrefix
  have hComponents : before.filter (· ≠ ".") <+: (Path.segments path).filter (· ≠ ".") := by
    rw [← Path.filter_components]
    exact (hPrefix.trans (List.dropLast_prefix _)).filter _
  obtain ⟨before', hPrefix', hSame⟩ := List.prefix_filter_iff.mp hComponents
  refine ⟨before', hPrefix', ?_⟩
  rw [origin, hAbsolute, ← foldl_enter_filter _ before, hSame, foldl_enter_filter]
  rfl

theorem createDirectory_eq_ok_iff {path : String} :
    s.createDirectory path = .ok s' ↔
      ∃ place, s.locate path = .ok place ∧ s.get? place = none ∧
        s' = s.insert place .directory := by
  unfold createDirectory
  cases s.locate path with
  | error e => simp [bind, Except.bind]
  | ok place =>
      cases hGet : s.get? place with
      | some c => simp [bind, Except.bind, hGet]
      | none => simp [bind, Except.bind, hGet, eq_comm]

theorem ne_root_of_get?_eq_none {place : Location} (h : s.get? place = none) : place ≠ [] := by
  rintro rfl
  cases h

theorem gainsDirectories_of_createDirectory {path : String} (h : s.createDirectory path = .ok s') :
    GainsDirectories (s.OnPath path) s s' := by
  obtain ⟨place, hLocate, hFree, rfl⟩ := createDirectory_eq_ok_iff.mp h
  exact .insert (ne_root_of_get?_eq_none hFree) hFree (onPath_of_locate hLocate)

/-- Whether or not it succeeds in the end, creating directories adds directories on the
path and nothing else. -/
theorem gainsDirectories_createUpTo (path : String) (depth : Nat) (s : Store) :
    GainsDirectories (s.OnPath path) s (s.createUpTo path depth).2 := by
  induction depth generalizing path s with
  | zero => exact .refl s
  | succ depth ih =>
      rw [createUpTo]
      split
      · exact .refl s
      split
      next made hMade => exact gainsDirectories_of_createDirectory hMade
      next hMissing =>
        split
        · exact .refl s
        next parent hParent =>
          have hAbove : GainsDirectories (s.OnPath path) s (s.createUpTo parent depth).2 :=
            (ih parent s).mono fun _ => OnPath.of_parent hParent
          split
          next e made hMade =>
            rw [hMade] at hAbove
            exact hAbove
          next made hMade =>
            rw [hMade] at hAbove
            have hOnPath : made.OnPath path = s.OnPath path := by
              funext place
              rw [OnPath, OnPath, hAbove.grows.origin]
            split
            next last hLast =>
              exact hAbove.trans (hOnPath ▸ gainsDirectories_of_createDirectory hLast)
            next e => exact hAbove
      next e => exact .refl s

theorem gainsDirectories_createDirectories (path : String) (s : Store) :
    GainsDirectories (s.OnPath path) s (s.createDirectories path).2 :=
  gainsDirectories_createUpTo path _ s

end Simgen.Files.Store
