import Simgen.Files.Path
import Mathlib.Data.List.Infix

/-! How paths fall into segments. Joining a name to a path adds one segment at the end, and
the parent of a path has the components of the path but the last. -/
namespace Simgen.Files.Path

/-- A name that an entry of a directory can have. -/
structure IsName (name : String) : Prop where
  ne_empty : name ≠ ""
  no_slash : '/' ∉ name.toList
  ne_dot : name ≠ "."
  ne_dots : name ≠ ".."

instance (name : String) : Decidable (IsName name) :=
  decidable_of_iff (name ≠ "" ∧ '/' ∉ name.toList ∧ name ≠ "." ∧ name ≠ "..")
    ⟨fun ⟨h₁, h₂, h₃, h₄⟩ => ⟨h₁, h₂, h₃, h₄⟩, fun h => ⟨h.1, h.2, h.3, h.4⟩⟩

/-- A name that ends in anything but a dot is neither empty nor made of dots. -/
theorem IsName.of_getLast? {name : String} (hSlash : '/' ∉ name.toList) {last : Char}
    (hLast : name.toList.getLast? = some last) (hDot : last ≠ '.') : IsName name := by
  refine ⟨?_, hSlash, ?_, ?_⟩
  · rintro rfl
    simp at hLast
  · rintro rfl
    simp [Ne.symm hDot] at hLast
  · rintro rfl
    simp [Ne.symm hDot] at hLast

theorem split_of_no_slash {current cs : List Char} (h : '/' ∉ cs) :
    split current cs = [String.ofList (current.reverse ++ cs)] := by
  induction cs generalizing current with
  | nil => simp [split]
  | cons c cs ih =>
      rw [List.mem_cons, not_or] at h
      rw [split, if_neg (Ne.symm h.1), ih h.2]
      simp

theorem split_slash (current first rest : List Char) :
    split current (first ++ '/' :: rest) = split current first ++ split [] rest := by
  induction first generalizing current with
  | nil => simp [split]
  | cons c cs ih =>
      by_cases hc : c = '/'
      · simp [split, hc, ih]
      · simp [split, hc, ih]

theorem no_slash_of_mem_split {current cs : List Char} (hCurrent : '/' ∉ current) {piece : String}
    (h : piece ∈ split current cs) : '/' ∉ piece.toList := by
  induction cs generalizing current with
  | nil =>
      rw [split, List.mem_singleton] at h
      simpa [h] using hCurrent
  | cons c cs ih =>
      rw [split] at h
      split at h
      next hc =>
        rcases List.mem_cons.mp h with rfl | h
        · simpa using hCurrent
        · exact ih (by simp) h
      next hc =>
        refine ih ?_ h
        rw [List.mem_cons, not_or]
        exact ⟨Ne.symm hc, hCurrent⟩

/-- A piece that has begun with a character is not empty. -/
theorem exists_ne_empty_mem_split {current : List Char} (hCurrent : current ≠ [])
    (cs : List Char) : ∃ piece ∈ split current cs, piece ≠ "" := by
  have hPiece : String.ofList current.reverse ≠ "" := by
    intro h
    have hList := congrArg String.toList h
    simp at hList
    exact hCurrent hList
  induction cs generalizing current with
  | nil => exact ⟨_, List.mem_singleton_self _, hPiece⟩
  | cons c cs ih =>
      rw [split]
      split
      · exact ⟨_, List.mem_cons_self, hPiece⟩
      · exact ih (List.cons_ne_nil _ _) (by simp)

theorem of_mem_segments {path segment : String} (h : segment ∈ segments path) :
    segment ≠ "" ∧ '/' ∉ segment.toList := by
  obtain ⟨hPiece, hFull⟩ := List.mem_filter.mp h
  exact ⟨by simpa using hFull, no_slash_of_mem_split List.not_mem_nil hPiece⟩

theorem segments_ne_nil {path : String} (hPath : path ≠ "") (hRelative : isAbsolute path = false) :
    segments path ≠ [] := by
  intro hNil
  cases hList : path.toList with
  | nil => exact hPath (String.toList_injective (by simpa using hList))
  | cons c cs =>
      have hc : c ≠ '/' := by
        rintro rfl
        simp [isAbsolute, hList] at hRelative
      obtain ⟨piece, hPiece, hFull⟩ := exists_ne_empty_mem_split (List.cons_ne_nil c []) cs
      have hMem : piece ∈ segments path := by
        refine List.mem_filter.mpr ⟨?_, by simpa using hFull⟩
        rwa [hList, split, if_neg hc]
      rw [hNil] at hMem
      cases hMem

@[simp] theorem segments_empty : segments "" = [] := by decide

theorem segments_slash (first rest : String) :
    segments (first ++ "/" ++ rest) = segments first ++ segments rest := by
  have hList : (first ++ "/" ++ rest).toList = first.toList ++ '/' :: rest.toList := by simp
  rw [segments, hList, split_slash, List.filter_append, segments, segments]

theorem segments_of_no_slash {name : String} (hEmpty : name ≠ "") (hSlash : '/' ∉ name.toList) :
    segments name = [name] := by
  simp [segments, split_of_no_slash hSlash, hEmpty]

theorem segments_intercalate {parts : List String}
    (h : ∀ part ∈ parts, part ≠ "" ∧ '/' ∉ part.toList) :
    segments ("/".intercalate parts) = parts := by
  induction parts with
  | nil => exact segments_empty
  | cons part parts ih =>
      obtain ⟨⟨hEmpty, hSlash⟩, hRest⟩ := List.forall_mem_cons.mp h
      cases parts with
      | nil => simpa using segments_of_no_slash hEmpty hSlash
      | cons next parts =>
          rw [String.intercalate_cons_cons, segments_slash, ih hRest,
            segments_of_no_slash hEmpty hSlash]
          rfl

/-- The absolute path through directories, the outermost first. -/
def absolute (parts : List String) : String := "/" ++ "/".intercalate parts

theorem segments_absolute {parts : List String}
    (h : ∀ part ∈ parts, part ≠ "" ∧ '/' ∉ part.toList) : segments (absolute parts) = parts := by
  have hSlash := segments_slash "" ("/".intercalate parts)
  rwa [String.empty_append, segments_empty, List.nil_append, segments_intercalate h] at hSlash

/-- A path that ends in a slash is one without it, and a slash. -/
theorem exists_eq_append_slash {path : String} (h : path.toList.getLast? = some '/') :
    ∃ first, path = first ++ "/" := by
  obtain ⟨cs, hcs⟩ := List.getLast?_eq_some_iff.mp h
  refine ⟨String.ofList cs, String.toList_injective ?_⟩
  simpa using hcs

theorem isAbsolute_of_no_slash {name : String} (h : '/' ∉ name.toList) :
    isAbsolute name = false := by
  cases hList : name.toList with
  | nil => simp [isAbsolute, hList]
  | cons c cs =>
      rw [hList, List.mem_cons, not_or] at h
      simpa [isAbsolute, hList] using Ne.symm h.1

theorem IsName.isAbsolute {name : String} (h : IsName name) : isAbsolute name = false :=
  isAbsolute_of_no_slash h.no_slash

theorem IsName.segments {name : String} (h : IsName name) : segments name = [name] :=
  segments_of_no_slash h.ne_empty h.no_slash

theorem IsName.hasTrailingSlash {name : String} (h : IsName name) :
    hasTrailingSlash name = false := by
  rw [Path.hasTrailingSlash, decide_eq_false_iff_not]
  exact fun hLast => h.no_slash (List.mem_of_getLast? hLast)

theorem isAbsolute_append {first rest : String} (h : first ≠ "") :
    isAbsolute (first ++ rest) = isAbsolute first := by
  cases hList : first.toList with
  | nil => exact absurd (String.toList_injective (by simpa using hList)) h
  | cons c cs => simp [isAbsolute, hList]

theorem isAbsolute_absolute (parts : List String) : isAbsolute (absolute parts) = true :=
  isAbsolute_append (by decide)

section join

variable {inner : String} (outer : String)

theorem segments_join (hRelative : isAbsolute inner = false) :
    segments (join outer inner) = segments outer ++ segments inner := by
  rw [join, hRelative, Bool.false_or]
  by_cases hOuter : outer = ""
  · simp [hOuter]
  · rw [if_neg (by simpa using hOuter)]
    by_cases hSlash : outer.toList.getLast? = some '/'
    · obtain ⟨first, rfl⟩ := exists_eq_append_slash hSlash
      have hFirst : segments (first ++ "/") = segments first := by
        simpa using segments_slash first ""
      rw [if_pos hSlash, segments_slash, hFirst]
    · rw [if_neg hSlash, segments_slash]

theorem isAbsolute_join (hRelative : isAbsolute inner = false) :
    isAbsolute (join outer inner) = isAbsolute outer := by
  rw [join, hRelative, Bool.false_or]
  by_cases hOuter : outer = ""
  · subst hOuter
    simpa [isAbsolute] using hRelative
  · rw [if_neg (by simpa using hOuter)]
    split
    · exact isAbsolute_append hOuter
    · rw [String.append_assoc]
      exact isAbsolute_append hOuter

theorem exists_join_eq_append (outer inner : String) :
    ∃ first, join outer inner = first ++ inner := by
  unfold join
  split
  · exact ⟨"", by simp⟩
  · split
    · exact ⟨outer, rfl⟩
    · exact ⟨outer ++ "/", rfl⟩

variable (hInner : inner ≠ "")

include hInner

theorem join_ne_empty : join outer inner ≠ "" := by
  obtain ⟨first, hFirst⟩ := exists_join_eq_append outer inner
  intro h
  have hList := congrArg String.toList (hFirst.symm.trans h)
  rw [String.toList_append, String.toList_empty, List.append_eq_nil_iff] at hList
  exact hInner (String.toList_injective (by simpa using hList.2))

theorem hasTrailingSlash_join : hasTrailingSlash (join outer inner) = hasTrailingSlash inner := by
  obtain ⟨first, hFirst⟩ := exists_join_eq_append outer inner
  have hList : inner.toList ≠ [] := by
    intro hNil
    exact hInner (String.toList_injective (by simpa using hNil))
  rw [hFirst, hasTrailingSlash, hasTrailingSlash, String.toList_append,
    List.getLast?_append_of_ne_nil _ hList]

end join

theorem IsName.hasTrailingSlash_join {name : String} (h : IsName name) (outer : String) :
    Path.hasTrailingSlash (join outer name) = false :=
  (Path.hasTrailingSlash_join outer h.ne_empty).trans h.hasTrailingSlash

/-- Apart from dots, components are segments. -/
theorem filter_components (path : String) :
    (components path).filter (· ≠ ".") = (segments path).filter (· ≠ ".") := by
  unfold components
  cases segments path with
  | nil => rfl
  | cons first rest =>
      by_cases hFirst : first = "."
      · by_cases hAbsolute : isAbsolute path = true
        · simp [hFirst, hAbsolute]
        · simp [hFirst, hAbsolute]
      · simp [hFirst]

theorem mem_segments_of_mem_components {path part : String} (h : part ∈ components path) :
    part ∈ segments path := by
  unfold components at h
  cases hSegments : segments path with
  | nil => simp [hSegments] at h
  | cons first rest =>
      simp only [hSegments, List.mem_append, List.mem_filter] at h
      rcases h with hFirst | ⟨hRest, -⟩
      · split at hFirst
        · cases hFirst
        · exact List.mem_cons.mpr (Or.inl (List.mem_singleton.mp hFirst))
      · exact List.mem_cons_of_mem _ hRest

theorem segments_parent {path parent : String} (h : parent? path = some parent) :
    segments parent = (components path).dropLast ∧ isAbsolute parent = isAbsolute path := by
  have hParts : ∀ part ∈ (components path).dropLast, part ≠ "" ∧ '/' ∉ part.toList :=
    fun part hPart =>
      of_mem_segments (mem_segments_of_mem_components (List.dropLast_subset _ hPart))
  have hParent : parent = (if isAbsolute path then "/" else "") ++
      "/".intercalate (components path).dropLast := by
    unfold parent? at h
    split at h
    · cases h
    · exact (Option.some.inj h).symm
  by_cases hAbsolute : isAbsolute path = true
  · rw [if_pos hAbsolute] at hParent
    rw [hParent, ← absolute, segments_absolute hParts, hAbsolute]
    exact ⟨rfl, isAbsolute_absolute _⟩
  · rw [if_neg hAbsolute, String.empty_append] at hParent
    rw [hParent, segments_intercalate hParts]
    refine ⟨rfl, ?_⟩
    rw [Bool.not_eq_true] at hAbsolute
    rw [hAbsolute]
    cases hRest : (components path).dropLast with
    | nil => rfl
    | cons part parts =>
        obtain ⟨hEmpty, hSlash⟩ := hParts part (by rw [hRest]; exact List.mem_cons_self)
        cases parts with
        | nil => simpa using isAbsolute_of_no_slash hSlash
        | cons next parts =>
            rw [String.intercalate_cons_cons, String.append_assoc, isAbsolute_append hEmpty]
            exact isAbsolute_of_no_slash hSlash

theorem components_absolute {parts : List String} (h : ∀ part ∈ parts, IsName part) :
    components (absolute parts) = parts := by
  rw [components, segments_absolute fun part hPart =>
    ⟨(h part hPart).ne_empty, (h part hPart).no_slash⟩]
  cases parts with
  | nil => rfl
  | cons first rest =>
      obtain ⟨hFirst, hRest⟩ := List.forall_mem_cons.mp h
      have hKeep : rest.filter (· ≠ ".") = rest :=
        List.filter_eq_self.mpr fun part hPart => by simpa using (hRest part hPart).ne_dot
      simp only [hKeep, decide_eq_false hFirst.ne_dot, Bool.false_and, Bool.false_eq_true,
        if_false, List.singleton_append]

/-- Leaving out one name after the other from the end. -/
theorem map_take_range {α : Type} (place : List α) :
    (List.range (place.length + 1)).reverse.map (place.reverse.take ·) =
      place.tails.map List.reverse := by
  induction place with
  | nil => rfl
  | cons name outer ih =>
      have hShort : (List.range (outer.length + 1)).reverse.map ((name :: outer).reverse.take ·) =
          (List.range (outer.length + 1)).reverse.map (outer.reverse.take ·) := by
        refine List.map_congr_left fun n hn => ?_
        rw [List.mem_reverse, List.mem_range] at hn
        rw [List.reverse_cons, List.take_append_of_le_length]
        rw [List.length_reverse]
        omega
      rw [List.length_cons, List.range_succ, List.reverse_append, List.reverse_singleton,
        List.singleton_append, List.map_cons, hShort, ih, List.tails_cons, List.map_cons]
      congr 1
      exact List.take_of_length_le (by simp)

/-- Upwards from a directory there are the directories on its path, the root at last. -/
theorem upwards_absolute {place : List String} (h : ∀ name ∈ place, IsName name) :
    upwards (absolute place.reverse) = place.tails.map fun dir => absolute dir.reverse := by
  have hParts : components (absolute place.reverse) = place.reverse :=
    components_absolute fun name hName => h name (List.mem_reverse.mp hName)
  have hMap := congrArg (List.map absolute) (map_take_range place)
  rw [List.map_map, List.map_map] at hMap
  simp only [upwards, hParts, isAbsolute_absolute, if_true, List.length_reverse]
  exact hMap

end Simgen.Files.Path
