import Simgen.Proofs.Compile.Failure
import Simgen.Proofs.Files.Additions

/-! The output directory while it is filled. It is empty when it is opened, and every file
that is written or copied adds one entry to it and changes nothing else. -/
namespace Simgen.Compile

open Files

variable {base s s' : Store} {output : String} {place : Location}

/-- The output path leads to an empty directory. -/
structure Opened (s : Store) (output : String) (place : Location) : Prop where
  find : s.find output = .ok (place, .directory)
  empty : ∀ inner, inner ≠ [] → s.get? (inner ++ place) = none

theorem opened_of_list {s : Store} (hs : s.WellFormed) (h : s.list output = .ok []) :
    ∃ place, Opened s output place := by
  obtain ⟨place, hFind, hNames⟩ := Store.list_eq_ok_iff.mp h
  exact ⟨place, hFind, fun inner hInner => hs.none_below hNames hInner⟩

theorem opened_of_createDirectories (hs : s.WellFormed) (hPath : output ≠ "")
    (hPlain : ".." ∉ Path.segments output) (hMissing : s.kind? output = none)
    (hOk : (s.createDirectories output).1 = .ok ()) :
    ∃ place, Opened (s.createDirectories output).2 output place := by
  have hGains := Store.gainsDirectories_createDirectories output s
  obtain ⟨place, hFind⟩ :=
    Store.kind?_eq_directory_iff.mp (Store.kind?_createDirectories hPath hOk)
  have hWalk := (Store.locate_eq_ok_iff.mp (Store.find_eq_ok_iff.mp hFind).1).2
  rw [hGains.grows.origin] at hWalk
  have hPlace := Store.walk_eq_foldl hWalk
  refine ⟨place, hFind, fun inner hInner => ?_⟩
  rcases hGains.get (inner ++ place) with hSame | ⟨-, -, before, ⟨rest, hSplit⟩, hOn⟩
  · -- An old entry below the place would make the path lead to a directory before.
    rw [hSame]
    by_contra hSome
    obtain ⟨c, hGet⟩ := Option.ne_none_iff_exists'.mp hSome
    have hThere := hs.above hGet hInner
    rw [hPlace] at hThere
    have hOld := hs.find_of_get? hPath hPlain hThere
    rw [Store.kind?_eq_directory_iff.mpr ⟨_, hOld⟩] at hMissing
    cases hMissing
  · -- A new one stands on the path, and so not below its end.
    exfalso
    rw [← hSplit, List.mem_append, not_or] at hPlain
    have hSuffix := Store.suffix_foldl_enter hPlain.2 (before.foldl Store.enter (s.origin output))
    rw [← List.foldl_append, hSplit, ← hPlace, ← hOn] at hSuffix
    have hLength := hSuffix.length_le
    rw [List.length_append] at hLength
    exact hInner (List.eq_nil_of_length_eq_zero (by omega))

theorem opened_of_openOutput (hs : s.WellFormed) (hPath : output ≠ "")
    (hPlain : ".." ∉ Path.segments output) (h : Job.Ends (openOutput output) s (.ok ()) s') :
    ∃ place, Opened s' output place := by
  rcases ends_openOutput_cases h with ⟨rfl, hList⟩ | ⟨hMissing, rfl, hOk⟩
  · exact opened_of_list hs (hList rfl)
  · exact opened_of_createDirectories hs hPath hPlain hMissing (hOk rfl)

/-- Entries, given by their places inside a directory, as entries of the whole tree. -/
def under (place : Location) (entries : List (Location × Content)) : List (Location × Content) :=
  entries.map fun e => (e.1 ++ place, e.2)

/-- `s` is `base` with exactly these entries in the output directory, which was empty. -/
structure Filled (base : Store) (output : String) (place : Location)
    (entries : List (Location × Content)) (s : Store) : Prop where
  opened : Opened base output place
  adds : base.Adds (under place entries) s

/-- The entries that files to be written make. -/
def units (files : List Cpp.File) : List (Location × Content) :=
  files.map fun f => ([f.name], .file f.contents.toUTF8)

/-- The entry that a copy makes, if its source can be read. -/
def copyAt (place : Location) : Except OsError ByteArray → List (Location × Content)
  | .ok contents => [(place, .file contents)]
  | .error _ => []

/-- What a copy of the file `name` of a directory adds. -/
def copied (s : Store) (source : String) (inner : Location) (name : String) :
    List (Location × Content) :=
  copyAt (name :: inner) (s.read (Path.join source name))

theorem copied_of_read {source name : String} {contents : ByteArray}
    (h : s.read (Path.join source name) = .ok contents) (inner : Location) :
    copied s source inner name = [(name :: inner, .file contents)] := by
  rw [copied, h, copyAt]

theorem copied_of_unread {source name : String}
    (h : ∀ contents, s.read (Path.join source name) ≠ .ok contents) (inner : Location) :
    copied s source inner name = [] := by
  unfold copied
  cases hRead : s.read (Path.join source name) with
  | ok contents => exact absurd hRead (h contents)
  | error e => rfl

theorem mem_copied {source name : String} {inner : Location} {e : Location × Content}
    (h : e ∈ copied s source inner name) : ∃ contents, e = (name :: inner, .file contents) := by
  unfold copied at h
  cases hRead : s.read (Path.join source name) with
  | ok contents =>
      rw [hRead] at h
      exact ⟨contents, List.mem_singleton.mp h⟩
  | error e =>
      rw [hRead] at h
      cases h

/-- Files that stand in the output directory itself. -/
def AtTop (entries : List (Location × Content)) : Prop :=
  ∀ e ∈ entries, ∃ name contents, e = ([name], .file contents)

theorem atTop_units (files : List Cpp.File) : AtTop (units files) := by
  intro e he
  obtain ⟨f, -, rfl⟩ := List.mem_map.mp he
  exact ⟨_, _, rfl⟩

theorem atTop_copied (s : Store) (source name : String) : AtTop (copied s source [] name) :=
  fun _ he => ⟨name, mem_copied he⟩

theorem AtTop.append {first second : List (Location × Content)} (hFirst : AtTop first)
    (hSecond : AtTop second) : AtTop (first ++ second) :=
  List.forall_mem_append.mpr ⟨hFirst, hSecond⟩

theorem eq_of_mem_keys_copied {source name : String} {inner key : Location}
    (h : key ∈ (copied s source inner name).map Prod.fst) : key = name :: inner := by
  obtain ⟨e, he, rfl⟩ := List.mem_map.mp h
  obtain ⟨contents, rfl⟩ := mem_copied he
  rfl

namespace Filled

variable {entries : List (Location × Content)}

theorem find (h : Filled base output place entries s) : s.find output = .ok (place, .directory) :=
  h.adds.grows.find h.opened.find

theorem mem_keys_under {inner : Location} :
    inner ++ place ∈ (under place entries).map Prod.fst ↔ inner ∈ entries.map Prod.fst := by
  simp [under]

theorem nodup (h : Filled base output place entries s) : (entries.map Prod.fst).Nodup := by
  have hNodup := h.adds.nodup
  rw [under, List.map_map] at hNodup
  refine List.Nodup.of_map (· ++ place) ?_
  rwa [List.map_map]

theorem get?_eq_some_iff (h : Filled base output place entries s) {inner : Location}
    (hInner : inner ≠ []) {c : Content} :
    s.get? (inner ++ place) = some c ↔ (inner, c) ∈ entries := by
  rw [h.adds.get, h.opened.empty inner hInner]
  simp [under]

theorem grows {more : List (Location × Content)} (h : Filled base output place entries s)
    (h' : Filled base output place more s') (hMore : entries ⊆ more) : Store.Grows s s' := by
  refine ⟨h'.adds.current.trans h.adds.current.symm, fun other c hGet => ?_⟩
  rw [h'.adds.get]
  exact ((h.adds.get other c).mp hGet).imp_left fun hIn => List.map_subset _ hMore hIn

theorem of_perm {same : List (Location × Content)} (h : Filled base output place entries s)
    (hPerm : entries.Perm same) : Filled base output place same s := by
  have hUnder : (under place entries).Perm (under place same) := hPerm.map _
  refine ⟨h.opened, h.adds.current, ?_, ?_, ?_⟩
  · exact (hUnder.map Prod.fst).nodup_iff.mp h.adds.nodup
  · exact fun e he => h.adds.fresh e (hUnder.mem_iff.mpr he)
  · exact fun other c => by rw [h.adds.get, hUnder.mem_iff]

theorem free (h : Filled base output place entries s) {inner : Location} (hInner : inner ≠ [])
    (hNew : inner ∉ entries.map Prod.fst) : s.get? (inner ++ place) = none :=
  h.adds.get?_eq_none_iff.mpr ⟨fun hIn => hNew (mem_keys_under.mp hIn), h.opened.empty inner hInner⟩

theorem snoc (h : Filled base output place entries s) {inner : Location} (hInner : inner ≠ [])
    (hNew : inner ∉ entries.map Prod.fst) {c : Content} (hCurrent : s'.current = s.current)
    (hGet : ∀ other, s'.get? other = if other = inner ++ place then some c else s.get? other) :
    Filled base output place (entries ++ [(inner, c)]) s' := by
  refine ⟨h.opened, ?_⟩
  rw [under, List.map_append]
  exact h.adds.snoc (h.free hInner hNew) hCurrent hGet

/-- Writing a file of a new name adds it. -/
theorem writeFile (h : Filled base output place entries s) {f : Cpp.File}
    (hName : Path.IsName f.name) (hNew : [f.name] ∉ entries.map Prod.fst)
    (hEnds : Job.Ends (Compile.writeFile output f) s (.ok ()) s') :
    Filled base output place (entries ++ [([f.name], .file f.contents.toUTF8)]) s' := by
  have hFree : s.get? (f.name :: place) = none := h.free (List.cons_ne_nil _ _) hNew
  have hWrite : s.write (Path.join output f.name) f.contents.toUTF8 =
      .ok (s.insert (f.name :: place) (.file f.contents.toUTF8)) :=
    Store.write_eq_ok_iff.mpr ⟨_, Store.locate_join h.find hName, by simp [hFree],
      hName.hasTrailingSlash_join _, rfl⟩
  have hAsk : Job.Ends (Job.ask (.write (Path.join output f.name) f.contents.toUTF8)) s
      (.ok (.ok ())) (s.insert (f.name :: place) (.file f.contents.toUTF8)) := by
    rw [Job.ends_ask_iff, Store.answer, hWrite]
    exact ⟨rfl, rfl⟩
  rw [Compile.writeFile, Job.ends_bind_iff_of_ok hAsk] at hEnds
  obtain ⟨_, middle, hCheck, hNote⟩ := Job.ends_bind_ok_iff.mp hEnds
  obtain rfl := (Job.ends_check_iff.mp hCheck).2.trans (Job.ends_note_iff.mp hNote).2
  exact h.snoc (List.cons_ne_nil _ _) hNew (Store.current_insert _ _ _)
    (Store.get?_insert (List.cons_ne_nil _ _) _)

/-- Writing files of distinct new names adds them all. -/
theorem writeFiles (h : Filled base output place entries s) {files : List Cpp.File}
    (hNames : ∀ f ∈ files, Path.IsName f.name) (hDistinct : (files.map Cpp.File.name).Nodup)
    (hNew : ∀ f ∈ files, [f.name] ∉ entries.map Prod.fst)
    (hEnds : Job.Ends (files.forM (Compile.writeFile output)) s (.ok ()) s') :
    Filled base output place (entries ++ units files) s' := by
  induction files generalizing entries s with
  | nil =>
      obtain rfl := (Job.ends_pure_iff.mp hEnds).2
      simpa [units] using h
  | cons f files ih =>
      obtain ⟨hName, hNames⟩ := List.forall_mem_cons.mp hNames
      obtain ⟨hFresh, hNew⟩ := List.forall_mem_cons.mp hNew
      rw [List.map_cons, List.nodup_cons] at hDistinct
      obtain ⟨_, middle, hFirst, hRest⟩ := Job.ends_bind_ok_iff.mp hEnds
      have hMore := ih (h.writeFile hName hFresh hFirst) hNames hDistinct.2 ?_ hRest
      · simpa [units] using hMore
      · intro g hg hIn
        rw [List.map_append, List.mem_append] at hIn
        rcases hIn with hIn | hIn
        · exact hNew g hg hIn
        · have hSame : g.name = f.name := by simpa using hIn
          exact hDistinct.1 (hSame ▸ List.mem_map_of_mem hg)

/-- Copying a file to a new place adds its contents. -/
theorem copyFile (h : Filled base output place entries s) {source target name : String}
    {inner : Location} {contents : ByteArray} (hName : Path.IsName name)
    (hTarget : s.find target = .ok (inner ++ place, .directory))
    (hRead : s.read (Path.join source name) = .ok contents)
    (hNew : name :: inner ∉ entries.map Prod.fst)
    (hEnds : Job.Ends (Compile.copyFile source target name) s (.ok ()) s') :
    Filled base output place (entries ++ [(name :: inner, .file contents)]) s' := by
  obtain ⟨hOk, hCurrent, hGet⟩ := Store.copy_of_free hRead (Store.locate_join hTarget hName)
    (h.free (List.cons_ne_nil _ _) hNew) (hName.hasTrailingSlash_join target)
  have hAsk : Job.Ends (Job.ask (.copy (Path.join source name) (Path.join target name))) s
      (.ok (.ok ())) (s.copy (Path.join source name) (Path.join target name)).2 :=
    ⟨congrArg Except.ok hOk, rfl⟩
  rw [Compile.copyFile, Job.ends_bind_iff_of_ok hAsk] at hEnds
  obtain ⟨_, middle, hCheck, hNote⟩ := Job.ends_bind_ok_iff.mp hEnds
  obtain rfl := (Job.ends_check_iff.mp hCheck).2.trans (Job.ends_note_iff.mp hNote).2
  exact h.snoc (List.cons_ne_nil _ _) hNew hCurrent hGet

/-- Copying files that were there early on adds what they held then. -/
theorem copyFiles {early : Store} (hEarly : Store.Grows early s)
    (h : Filled base output place entries s) {source target : String} {inner : Location}
    (hTarget : s.find target = .ok (inner ++ place, .directory)) {names : List String}
    (hNames : ∀ name ∈ names, Path.IsName name ∧
      ∃ contents, early.read (Path.join source name) = .ok contents)
    (hDistinct : names.Nodup) (hNew : ∀ name ∈ names, name :: inner ∉ entries.map Prod.fst)
    (hEnds : Job.Ends (names.forM (Compile.copyFile source target)) s (.ok ()) s') :
    Filled base output place (entries ++ names.flatMap (copied early source inner)) s' := by
  induction names generalizing entries s with
  | nil =>
      obtain rfl := (Job.ends_pure_iff.mp hEnds).2
      simpa using h
  | cons name names ih =>
      obtain ⟨⟨hName, contents, hRead⟩, hNames⟩ := List.forall_mem_cons.mp hNames
      obtain ⟨hFresh, hNew⟩ := List.forall_mem_cons.mp hNew
      rw [List.nodup_cons] at hDistinct
      obtain ⟨_, middle, hFirst, hRest⟩ := Job.ends_bind_ok_iff.mp hEnds
      have hOne := h.copyFile hName hTarget (hEarly.read hRead) hFresh hFirst
      have hGrows := h.grows hOne (List.subset_append_left _ _)
      have hMore := ih (hEarly.trans hGrows) hOne (hGrows.find hTarget) hNames hDistinct.2 ?_ hRest
      · simpa [copied_of_read hRead] using hMore
      · intro other hOther hIn
        rw [List.map_append, List.mem_append] at hIn
        rcases hIn with hIn | hIn
        · exact hNew other hOther hIn
        · have hSame : other = name := by simpa using hIn
          exact hDistinct.1 (hSame ▸ hOther)

/-- A support file is copied if it was there when the output directory was opened: none of
the files written since is in its place. -/
theorem copyOrWarn (h : Filled base output place entries s) (hTop : AtTop entries)
    {source name : String} (hName : Path.IsName name) (hNew : [name] ∉ entries.map Prod.fst)
    (hEnds : Job.Ends (Compile.copyOrWarn source output name) s (.ok ()) s') :
    Filled base output place (entries ++ copied base source [] name) s' := by
  have hKind : Job.Ends (Job.isFile (Path.join source name)) s
      (.ok (s.kind? (Path.join source name) == some .file)) s := ⟨rfl, rfl⟩
  rw [Compile.copyOrWarn, Job.ends_bind_iff_of_ok hKind] at hEnds
  split at hEnds
  next hFile =>
    obtain ⟨contents, hRead⟩ := Store.kind?_eq_file_iff.mp (by simpa using hFile)
    obtain ⟨found, hFind⟩ := Store.read_eq_ok_iff.mp hRead
    obtain ⟨middle, -, -, rfl⟩ :=
      (Store.locate_join_eq_ok_iff hName).mp (Store.find_eq_ok_iff.mp hFind).1
    -- The source may well lie in the output directory, but it is none of the new files.
    have hOld : base.find (Path.join source name) = .ok (name :: middle, .file contents) := by
      refine h.adds.find_of_files ?_ hFind ?_
      · intro e he
        obtain ⟨inner, hInner, rfl⟩ := List.mem_map.mp he
        obtain ⟨_, _, rfl⟩ := hTop inner hInner
        intro hKind
        cases hKind
      · intro hIn
        obtain ⟨e, he, hKey⟩ := List.mem_map.mp hIn
        obtain ⟨inner, hInner, rfl⟩ := List.mem_map.mp he
        obtain ⟨other, _, rfl⟩ := hTop inner hInner
        obtain rfl := (List.cons.inj hKey).1
        exact hNew (List.mem_map_of_mem hInner)
    rw [copied_of_read (Store.read_eq_ok_iff.mpr ⟨_, hOld⟩)]
    exact h.copyFile hName h.find hRead hNew hEnds
  next hNone =>
    obtain rfl := (Job.ends_warn_iff.mp hEnds).2
    rw [copied_of_unread, List.append_nil]
    · exact h
    · intro contents hRead
      have hFile := Store.kind?_eq_file_iff.mpr ⟨contents, h.adds.grows.read hRead⟩
      exact hNone (by simp [hFile])

end Filled

/-- Whether a file of the library is a header. -/
def isHeader (name : String) : Bool :=
  (Path.extension? name).any fun extension => extension = "h" || extension = "hpp"

/-- The entries that a copy of the library makes, if it is there. -/
def libraryCopy (s : Store) (lib : String) : List (Location × Content) :=
  match s.list lib with
  | .ok names => (["lib"], .directory) :: (names.filter isHeader).flatMap (copied s lib ["lib"])
  | .error _ => []

theorem flatMap_copied_filter (s : Store) (source : String) (inner : Location)
    (names : List String) :
    (names.filter fun name => s.kind? (Path.join source name) == some .file).flatMap
      (copied s source inner) = names.flatMap (copied s source inner) := by
  induction names with
  | nil => rfl
  | cons name names ih =>
      rw [List.filter_cons, List.flatMap_cons]
      split
      next => rw [List.flatMap_cons, ih]
      next hNone =>
        rw [ih, copied_of_unread, List.nil_append]
        intro contents hRead
        exact hNone (by simp [Store.kind?_eq_file_iff.mpr ⟨contents, hRead⟩])

/-- Making the directory for the library adds no file to any directory. -/
theorem perm_headers {made : Store} (hs : s.WellFormed) (hMade : made.WellFormed) {lib : String}
    {libPlace : Location} (hFind : s.find lib = .ok (libPlace, .directory))
    (hAfter : made.find lib = .ok (libPlace, .directory))
    (hSame : ∀ place contents, made.get? place = some (.file contents) ↔
      s.get? place = some (.file contents)) :
    ((Ident.sort ((made.names libPlace).filter isHeader)).filter fun name =>
        made.kind? (Path.join lib name) == some .file).Perm
      (((s.names libPlace).filter isHeader).filter fun name =>
        s.kind? (Path.join lib name) == some .file) := by
  have hSort : (Ident.sort ((made.names libPlace).filter isHeader)).Perm
      ((made.names libPlace).filter isHeader) := List.mergeSort_perm _ _
  refine (hSort.filter _).trans ((List.perm_ext_iff_of_nodup ?_ ?_).mpr fun name => ?_)
  · exact ((Store.nodup_names hMade libPlace).filter _).filter _
  · exact ((Store.nodup_names hs libPlace).filter _).filter _
  · simp only [hMade.mem_files_iff hAfter, hs.mem_files_iff hFind, hSame]

namespace Filled

variable {entries : List (Location × Content)}

theorem createLibrary (h : Filled base output place entries s)
    (hNew : ["lib"] ∉ entries.map Prod.fst) :
    ∃ made, Job.Ends (Job.ask (.createDirectories (Path.join output "lib"))) s (.ok (.ok ())) made ∧
      made.find (Path.join output "lib") = .ok (["lib"] ++ place, .directory) ∧
      Filled base output place (entries ++ [(["lib"], .directory)]) made ∧
      ∀ other contents, made.get? other = some (.file contents) ↔
        s.get? other = some (.file contents) := by
  have hFree : s.get? ("lib" :: place) = none := h.free (List.cons_ne_nil _ _) hNew
  have hLocate : s.locate (Path.join output "lib") = .ok ("lib" :: place) :=
    Store.locate_join h.find (by decide)
  let made := s.insert ("lib" :: place) .directory
  have hGet : ∀ other, made.get? other =
      if other = "lib" :: place then some .directory else s.get? other :=
    Store.get?_insert (List.cons_ne_nil _ _) _
  have hFilled : Filled base output place (entries ++ [(["lib"], .directory)]) made :=
    h.snoc (List.cons_ne_nil _ _) hNew (Store.current_insert _ _ _) hGet
  have hGrows := h.grows hFilled (List.subset_append_left _ _)
  refine ⟨made, ?_, ?_, hFilled, fun other contents => ?_⟩
  · rw [Job.ends_ask_iff, Store.answer, Store.createDirectories_of_locate hLocate hFree]
    exact ⟨rfl, rfl⟩
  · exact Store.find_eq_directory_iff.mpr ⟨hGrows.locate hLocate, by simp [hGet]⟩
  · rw [hGet]
    split
    next hOther => simp [hOther, hFree]
    next => exact Iff.rfl

theorem copyLibrary (hs : s.WellFormed) (h : Filled base output place entries s)
    (hTop : AtTop entries) (hNew : ["lib"] ∉ entries.map Prod.fst) {runtime : String}
    (hEnds : Job.Ends (Compile.copyLibrary runtime output) s (.ok ()) s') :
    Filled base output place (entries ++ libraryCopy s (Path.join runtime "lib")) s' := by
  have hKind : Job.Ends (Job.isDirectory (Path.join runtime "lib")) s
      (.ok (s.kind? (Path.join runtime "lib") == some .directory)) s := ⟨rfl, rfl⟩
  rw [Compile.copyLibrary, Job.ends_bind_iff_of_ok hKind] at hEnds
  generalize Path.join runtime "lib" = lib at hEnds ⊢
  split at hEnds
  next hDirectory =>
    obtain ⟨libPlace, hFind⟩ := Store.kind?_eq_directory_iff.mp (by simpa using hDirectory)
    obtain ⟨made, hCreate, hTarget, hFilled, hSame⟩ := h.createLibrary hNew
    have hMade : made.WellFormed := hCreate.2 ▸ hs.run _
    have hGrows := h.grows hFilled (List.subset_append_left _ _)
    have hPerm := perm_headers hs hMade hFind (hGrows.find hFind) hSame
    have hList : made.list lib = .ok _ := Store.list_eq_ok_iff.mpr ⟨_, hGrows.find hFind, rfl⟩
    rw [Job.ends_bind_iff_of_ok hCreate] at hEnds
    obtain ⟨_, middle, hCheck, hEnds⟩ := Job.ends_bind_ok_iff.mp hEnds
    obtain rfl := (Job.ends_check_iff.mp hCheck).2
    rw [Job.ends_bind_iff_of_ok (Job.ends_filesIn hList _)] at hEnds
    have hCopied := hFilled.copyFiles hGrows hTarget ?_ ?_ ?_ hEnds
    · refine hCopied.of_perm ?_
      rw [libraryCopy, Store.list_eq_ok_iff.mpr ⟨_, hFind, rfl⟩, List.append_assoc]
      refine ((hPerm.flatMap_right _).cons _).append_left entries |>.trans ?_
      rw [flatMap_copied_filter]
    · intro name hIn
      obtain ⟨-, contents, hGet⟩ := (hs.mem_files_iff hFind).mp (hPerm.mem_iff.mp hIn)
      have hName := (hs.outer hGet).1
      exact ⟨hName, contents, (Store.read_join_eq_ok_iff hFind hName).mpr hGet⟩
    · exact hPerm.nodup_iff.mpr (((Store.nodup_names hs libPlace).filter _).filter _)
    · -- The names so far are of one part, those in the library of two.
      intro name _ hIn
      rw [List.map_append, List.mem_append] at hIn
      rcases hIn with hIn | hIn
      · obtain ⟨e, he, hKey⟩ := List.mem_map.mp hIn
        obtain ⟨_, _, rfl⟩ := hTop e he
        cases hKey
      · simp at hIn
  next hNone =>
    obtain rfl := (Job.ends_warn_iff.mp hEnds).2
    have hUnlisted : libraryCopy s lib = [] := by
      unfold libraryCopy
      split
      next names hList =>
        obtain ⟨libPlace, hFind, -⟩ := Store.list_eq_ok_iff.mp hList
        exact absurd (by simp [Store.kind?_eq_directory_iff.mpr ⟨libPlace, hFind⟩]) hNone
      next => rfl
    rwa [hUnlisted, List.append_nil]

end Filled

end Simgen.Compile
