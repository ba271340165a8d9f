import Simgen.Proofs.Files.Store
import Mathlib.Data.List.Nodup

/-! Stored trees are trees: every entry has a name of its own and stands in a directory.
Whatever is asked of such a tree, and however often, it stays one. -/
namespace Simgen.Files.Store

variable {s s' : Store}

structure WellFormed (s : Store) : Prop where
  nodup : (s.entries.map Prod.fst).Nodup
  rooted : ∀ place ∈ s.entries.map Prod.fst, ∃ name outer, place = name :: outer ∧
    Path.IsName name ∧ s.get? outer = some .directory

instance (c : Option Content) : Decidable (c = some .directory) :=
  match c with
  | some .directory => isTrue rfl
  | some (.file _) => isFalse nofun
  | none => isFalse nofun

instance (s : Store) : Decidable s.WellFormed :=
  decidable_of_iff ((s.entries.map Prod.fst).Nodup ∧
      ∀ place ∈ s.entries.map Prod.fst, place ≠ [] ∧
        Path.IsName (place.headD "") ∧ s.get? place.tail = some .directory) <| by
    constructor
    · rintro ⟨hNodup, hRooted⟩
      refine ⟨hNodup, fun place hPlace => ?_⟩
      obtain ⟨hNe, hName, hOuter⟩ := hRooted place hPlace
      obtain ⟨name, outer, rfl⟩ := List.exists_cons_of_ne_nil hNe
      exact ⟨name, outer, rfl, hName, hOuter⟩
    · rintro ⟨hNodup, hRooted⟩
      refine ⟨hNodup, fun place hPlace => ?_⟩
      obtain ⟨name, outer, rfl, hName, hOuter⟩ := hRooted place hPlace
      exact ⟨List.cons_ne_nil _ _, hName, hOuter⟩

theorem get?_eq_none_iff {place : Location} :
    s.get? place = none ↔ place ≠ [] ∧ place ∉ s.entries.map Prod.fst := by
  unfold get?
  split
  next hRoot => simp [hRoot]
  next hPlace =>
    rw [lookup_eq_none_iff_notMem]
    exact ⟨fun hNot => ⟨hPlace, hNot⟩, And.right⟩

theorem map_fst_insert (s : Store) (place : Location) (c : Content) :
    (s.insert place c).entries.map Prod.fst = s.entries.map Prod.fst ∨
      place ∉ s.entries.map Prod.fst ∧
        (s.insert place c).entries.map Prod.fst = s.entries.map Prod.fst ++ [place] := by
  rw [entries_insert]
  exact keys_put s.entries place c

namespace WellFormed

theorem outer (hs : s.WellFormed) {name : String} {outer : Location} {c : Content}
    (h : s.get? (name :: outer) = some c) :
    Path.IsName name ∧ s.get? outer = some .directory := by
  have hIn : name :: outer ∈ s.entries.map Prod.fst := by
    by_contra hNot
    rw [get?_eq_none_iff.mpr ⟨List.cons_ne_nil _ _, hNot⟩] at h
    cases h
  obtain ⟨name', outer', hEq, hName, hOuter⟩ := hs.rooted _ hIn
  cases hEq
  exact ⟨hName, hOuter⟩

/-- Above every entry there are directories all the way. -/
theorem above (hs : s.WellFormed) {inner place : Location} {c : Content}
    (h : s.get? (inner ++ place) = some c) (hInner : inner ≠ []) :
    s.get? place = some .directory := by
  induction inner generalizing c with
  | nil => exact absurd rfl hInner
  | cons name inner ih =>
      obtain ⟨-, hOuter⟩ := hs.outer h
      cases inner with
      | nil => exact hOuter
      | cons next inner => exact ih hOuter (List.cons_ne_nil _ _)

theorem insert (hs : s.WellFormed) {name : String} {outer : Location} (hName : Path.IsName name)
    (hOuter : s.get? outer = some .directory) (hOld : s.get? (name :: outer) ≠ some .directory)
    (c : Content) : (s.insert (name :: outer) c).WellFormed := by
  -- The new entry takes the place of no directory, so that nothing loses the one it stands in.
  have hKeep : ∀ place, s.get? place = some .directory →
      (s.insert (name :: outer) c).get? place = some .directory := by
    intro place hPlace
    rw [get?_insert (List.cons_ne_nil _ _), if_neg, hPlace]
    rintro rfl
    exact hOld hPlace
  have hRooted : ∀ place ∈ s.entries.map Prod.fst, ∃ name' outer', place = name' :: outer' ∧
      Path.IsName name' ∧ (s.insert (name :: outer) c).get? outer' = some .directory := by
    intro place hPlace
    obtain ⟨name', outer', hEq, hName', hOuter'⟩ := hs.rooted place hPlace
    exact ⟨name', outer', hEq, hName', hKeep outer' hOuter'⟩
  rcases map_fst_insert s (name :: outer) c with hKeys | ⟨hNew, hKeys⟩
  · exact ⟨hKeys ▸ hs.nodup, hKeys ▸ hRooted⟩
  · refine ⟨?_, ?_⟩
    · rw [hKeys]
      exact hs.nodup.append (List.nodup_singleton _) (by simpa using hNew)
    · rw [hKeys]
      intro place hPlace
      rcases List.mem_append.mp hPlace with hPlace | hPlace
      · exact hRooted place hPlace
      · exact ⟨name, outer, List.mem_singleton.mp hPlace, hName, hKeep outer hOuter⟩

/-- A path that leads to no directory ends with a name in one. -/
theorem of_locate (hs : s.WellFormed) {path : String} {place : Location}
    (h : s.locate path = .ok place) (hPlace : s.get? place ≠ some .directory) :
    ∃ name outer, place = name :: outer ∧ Path.IsName name ∧ s.get? outer = some .directory := by
  obtain ⟨hPath, hWalk⟩ := locate_eq_ok_iff.mp h
  rcases List.eq_nil_or_concat (Path.segments path) with hNil | ⟨first, last, hLast⟩
  · rw [hNil, walk_nil_eq_ok_iff] at hWalk
    subst hWalk
    cases hAbsolute : Path.isAbsolute path with
    | true => simp [origin, hAbsolute] at hPlace
    | false => exact absurd hNil (Path.segments_ne_nil hPath hAbsolute)
  · have hMem : last ∈ Path.segments path := by simp [hLast]
    obtain ⟨hEmpty, hSlash⟩ := Path.of_mem_segments hMem
    rw [hLast, List.concat_eq_append, walk_append_eq_ok_iff] at hWalk
    obtain ⟨middle, -, hWalk⟩ := hWalk
    rw [walk_cons_eq_ok_iff, walk_nil_eq_ok_iff] at hWalk
    obtain ⟨hMiddle, rfl⟩ := hWalk
    by_cases hDot : last = "."
    · simp [enter, hDot, hMiddle] at hPlace
    · by_cases hDots : last = ".."
      · have hTail : s.get? middle.tail = some .directory := by
          cases middle with
          | nil => rfl
          | cons name outer => exact (hs.outer hMiddle).2
        simp [enter, hDots, hTail] at hPlace
      · have hName : Path.IsName last := ⟨hEmpty, hSlash, hDot, hDots⟩
        exact ⟨last, middle, enter_of_isName hName middle, hName, hMiddle⟩

end WellFormed

theorem write_eq_ok_iff {path : String} {contents : ByteArray} :
    s.write path contents = .ok s' ↔ ∃ place, s.locate path = .ok place ∧
      s.get? place ≠ some .directory ∧ Path.hasTrailingSlash path = false ∧
        s' = s.insert place (.file contents) := by
  rw [write, bind_eq_ok_iff]
  refine exists_congr fun place => and_congr_right fun _ => ?_
  split
  next hDirectory => simp [hDirectory]
  next hOther =>
    have hNot : s.get? place ≠ some .directory := fun h => hOther h
    cases hSlash : Path.hasTrailingSlash path with
    | true => simp
    | false => simp [hNot, eq_comm]

namespace WellFormed

theorem write (hs : s.WellFormed) {path : String} {contents : ByteArray}
    (h : s.write path contents = .ok s') : s'.WellFormed := by
  obtain ⟨place, hLocate, hPlace, -, rfl⟩ := write_eq_ok_iff.mp h
  obtain ⟨name, outer, rfl, hName, hOuter⟩ := hs.of_locate hLocate hPlace
  exact hs.insert hName hOuter hPlace _

theorem createDirectory (hs : s.WellFormed) {path : String} (h : s.createDirectory path = .ok s') :
    s'.WellFormed := by
  obtain ⟨place, hLocate, hFree, rfl⟩ := createDirectory_eq_ok_iff.mp h
  have hPlace : s.get? place ≠ some .directory := by simp [hFree]
  obtain ⟨name, outer, rfl, hName, hOuter⟩ := hs.of_locate hLocate hPlace
  exact hs.insert hName hOuter hPlace _

theorem createUpTo (hs : s.WellFormed) (path : String) (depth : Nat) :
    (s.createUpTo path depth).2.WellFormed := by
  induction depth generalizing path s with
  | zero => exact hs
  | succ depth ih =>
      rw [Store.createUpTo]
      split
      · exact hs
      split
      next made hMade => exact hs.createDirectory hMade
      next =>
        split
        · exact hs
        next parent hParent =>
          have hAbove := ih hs parent
          split
          next e made hMade => exact hMade ▸ hAbove
          next made hMade =>
            rw [hMade] at hAbove
            split
            next last hLast => exact hAbove.createDirectory hLast
            next => exact hAbove
      next => exact hs

theorem copy (hs : s.WellFormed) (source target : String) :
    (s.copy source target).2.WellFormed := by
  unfold Store.copy
  split
  · exact hs
  split
  · exact hs
  next emptied hEmptied =>
    have hEmptied := hs.write hEmptied
    split
    · exact hEmptied
    split
    · exact hEmptied
    next filled hFilled => exact hEmptied.write hFilled

/-- One question keeps a tree a tree. -/
theorem answer (hs : s.WellFormed) (q : Query) : (s.answer q).2.WellFormed := by
  cases q with
  | workingDirectory => exact hs
  | kind path => exact hs
  | list path => exact hs
  | read path => exact hs
  | write path contents =>
      rw [Store.answer]
      split
      next written hWritten => exact hs.write hWritten
      next => exact hs
  | createDirectories path => exact hs.createUpTo path _
  | copy source target => exact hs.copy source target

/-- And so does a run of any length. -/
theorem run {α : Type} (hs : s.WellFormed) (p : Program α) : (p.run s).2.WellFormed := by
  induction p generalizing s with
  | done a => exact hs
  | query q next ih => exact ih _ (hs.answer q)

end WellFormed

/-- Removing an entry takes away what stands at its place and below, and nothing else. -/
theorem get?_remove {path : String} {place : Location} {c : Content}
    (h : s.find path = .ok (place, c)) {other : Location} (hOther : other ≠ []) :
    (s.remove path).get? other = if place <:+ other then none else s.get? other := by
  have hSuffix : place.isSuffixOf other = decide (place <:+ other) := by
    rw [Bool.eq_iff_iff, List.isSuffixOf_iff_suffix, decide_eq_true_iff]
  rw [remove, h, get?, get?, if_neg hOther, if_neg hOther,
    lookup_filter s.entries (fun key => !place.isSuffixOf key), hSuffix]
  by_cases hBelow : place <:+ other <;> simp [hBelow]

theorem WellFormed.remove (hs : s.WellFormed) (path : String) : (s.remove path).WellFormed := by
  cases hFind : s.find path with
  | error e =>
      rw [Store.remove, hFind]
      exact hs
  | ok found =>
      obtain ⟨place, c⟩ := found
      have hKeys : ((s.remove path).entries.map Prod.fst).Sublist (s.entries.map Prod.fst) := by
        rw [Store.remove, hFind]
        exact List.filter_sublist.map _
      refine ⟨hKeys.nodup hs.nodup, fun key hKey => ?_⟩
      obtain ⟨name, outer, rfl, hName, hOuter⟩ := hs.rooted key (hKeys.subset hKey)
      refine ⟨name, outer, rfl, hName, ?_⟩
      cases outer with
      | nil => rfl
      | cons next rest =>
          -- The directory is above an entry that stays, so the removed place is not above it.
          have hStays : (s.remove path).get? (name :: next :: rest) ≠ none := fun hNone =>
            (get?_eq_none_iff.mp hNone).2 hKey
          rw [get?_remove hFind (List.cons_ne_nil _ _)] at hStays ⊢
          rw [if_neg, hOuter]
          intro hBelow
          exact hStays (if_pos (hBelow.trans (List.suffix_cons _ _)))

theorem mem_names_iff {name : String} {place : Location} :
    name ∈ s.names place ↔ s.get? (name :: place) ≠ none := by
  rw [ne_eq, get?_eq_none_iff, not_and, not_not]
  simp only [ne_eq, reduceCtorEq, not_false_eq_true, forall_const, names, List.mem_filterMap,
    List.mem_map]
  refine exists_congr fun e => and_congr_right fun _ => ?_
  cases e.1 with
  | nil => simp
  | cons first outer => simp [and_comm]

theorem nodup_names (hs : s.WellFormed) (place : Location) : (s.names place).Nodup := by
  have hKeys : s.names place = (s.entries.map Prod.fst).filterMap fun key =>
      if key.tail = place then key.head? else none := by
    rw [List.filterMap_map, names]
    refine List.filterMap_congr fun e _ => ?_
    rw [Function.comp_apply]
    cases e.1 with
    | nil => simp
    | cons name outer => rfl
  have hKey : ∀ {key : Location} {name : String},
      (if key.tail = place then key.head? else none) = some name → key = name :: place := by
    intro key name hName
    rw [Option.ite_none_right_eq_some] at hName
    rw [← hName.1]
    exact List.eq_cons_of_mem_head? hName.2
  rw [hKeys]
  refine hs.nodup.filterMap fun key key' name hName hName' => ?_
  exact (hKey hName).trans (hKey hName').symm

/-- There is nothing below an empty directory, at any depth. -/
theorem WellFormed.none_below (hs : s.WellFormed) {place : Location} (hEmpty : s.names place = [])
    {inner : Location} (hInner : inner ≠ []) : s.get? (inner ++ place) = none := by
  by_contra hSome
  obtain ⟨c, hGet⟩ := Option.ne_none_iff_exists'.mp hSome
  obtain ⟨first, name, rfl⟩ := (List.eq_nil_or_concat inner).resolve_left hInner
  have hTop : s.get? (name :: place) ≠ none := by
    rw [List.concat_eq_append, List.append_assoc, List.singleton_append] at hGet
    cases first with
    | nil =>
        rw [List.nil_append] at hGet
        simp [hGet]
    | cons next rest => simp [hs.above hGet (List.cons_ne_nil _ _)]
  have hMem := mem_names_iff.mpr hTop
  rw [hEmpty] at hMem
  cases hMem

/-- The files of a directory, as a listing followed by a look at each name finds them. -/
theorem WellFormed.mem_files_iff (hs : s.WellFormed) {dir : String} {place : Location}
    (hFind : s.find dir = .ok (place, .directory)) {keep : String → Bool} {name : String} :
    name ∈ ((s.names place).filter keep).filter
        (fun name => s.kind? (Path.join dir name) == some .file) ↔
      keep name = true ∧ ∃ contents, s.get? (name :: place) = some (.file contents) := by
  simp only [List.mem_filter, beq_iff_eq, kind?_eq_file_iff, mem_names_iff]
  constructor
  · rintro ⟨⟨hSome, hKeep⟩, contents, hRead⟩
    obtain ⟨c, hGet⟩ := Option.ne_none_iff_exists'.mp hSome
    exact ⟨hKeep, contents, (read_join_eq_ok_iff hFind (hs.outer hGet).1).mp hRead⟩
  · rintro ⟨hKeep, contents, hGet⟩
    refine ⟨⟨by simp [hGet], hKeep⟩, contents, ?_⟩
    exact (read_join_eq_ok_iff hFind (hs.outer hGet).1).mpr hGet

/-- Without steps upwards, a path leads downwards only. -/
theorem suffix_foldl_enter {segments : List String} (h : ".." ∉ segments) (start : Location) :
    start <:+ segments.foldl enter start := by
  induction segments generalizing start with
  | nil => exact List.suffix_rfl
  | cons segment rest ih =>
      rw [List.mem_cons, not_or] at h
      have hStep : start <:+ enter start segment := by
        unfold enter
        split
        · exact List.suffix_rfl
        · rw [if_neg (Ne.symm h.1)]
          exact List.suffix_cons _ _
      exact hStep.trans (ih h.2 _)

/-- Such a path leads to every directory that stands where it ends. -/
theorem WellFormed.walk_of_get? (hs : s.WellFormed) {segments : List String}
    (hPlain : ".." ∉ segments) {start : Location}
    (h : s.get? (segments.foldl enter start) = some .directory) :
    s.walk start segments = .ok (segments.foldl enter start) := by
  induction segments generalizing start with
  | nil => rfl
  | cons segment rest ih =>
      refine walk_cons_eq_ok_iff.mpr ⟨?_, ih (fun hIn => hPlain (List.mem_cons_of_mem _ hIn)) h⟩
      obtain ⟨added, hAdded⟩ := suffix_foldl_enter hPlain start
      rw [← hAdded] at h
      cases added with
      | nil => exact h
      | cons name added => exact hs.above h (List.cons_ne_nil _ _)

theorem WellFormed.find_of_get? (hs : s.WellFormed) {path : String} (hPath : path ≠ "")
    (hPlain : ".." ∉ Path.segments path)
    (h : s.get? ((Path.segments path).foldl enter (s.origin path)) = some .directory) :
    s.find path = .ok ((Path.segments path).foldl enter (s.origin path), .directory) :=
  find_eq_directory_iff.mpr ⟨locate_eq_ok_iff.mpr ⟨hPath, hs.walk_of_get? hPlain h⟩, h⟩

end Simgen.Files.Store
