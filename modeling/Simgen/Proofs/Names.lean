import Simgen.Combine.Namespace
import Mathlib.Data.List.Nodup

/-! Lists whose entries have distinct names. -/
namespace Simgen

variable {α : Type}

/-- Reading names one by one against those seen before finds out whether they are distinct. -/
theorem nodup_cons_unseen_iff {name : String} {names seen : List String} (hFresh : name ∉ seen) :
    ((name :: names).Nodup ∧ ∀ n ∈ name :: names, n ∉ seen) ↔
      names.Nodup ∧ ∀ n ∈ names, n ∉ name :: seen := by
  rw [List.nodup_cons, List.forall_mem_cons]
  constructor
  · rintro ⟨⟨hIn, hNodup⟩, -, hUnseen⟩
    refine ⟨hNodup, fun n hn => ?_⟩
    rw [List.mem_cons, not_or]
    exact ⟨fun hEq => hIn (hEq ▸ hn), hUnseen n hn⟩
  · rintro ⟨hNodup, hUnseen⟩
    refine ⟨⟨fun hIn => hUnseen name hIn List.mem_cons_self, hNodup⟩, hFresh, ?_⟩
    intro n hn hSeen
    exact hUnseen n hn (List.mem_cons_of_mem _ hSeen)

theorem firstRepeat_eq_none_iff (seen names : List String) :
    firstRepeat seen names = none ↔ names.Nodup ∧ ∀ n ∈ names, n ∉ seen := by
  induction names generalizing seen with
  | nil => simp [firstRepeat]
  | cons name names ih =>
      by_cases hSeen : name ∈ seen
      · simp [firstRepeat, hSeen]
      · rw [firstRepeat, if_neg (by simpa using hSeen), ih, nodup_cons_unseen_iff hSeen]

/-- An entry of distinctly named ones is found by its name. -/
theorem find?_name_of_mem {name : α → String} {entries : List α}
    (hNames : (entries.map name).Nodup) {entry : α} (hEntry : entry ∈ entries) :
    entries.find? (fun other => name other = name entry) = some entry := by
  obtain ⟨before, after, rfl⟩ := List.append_of_mem hEntry
  rw [List.find?_eq_some_iff_append]
  refine ⟨by simp, before, after, rfl, ?_⟩
  intro other hOther
  rw [List.map_append, List.nodup_append] at hNames
  simpa using hNames.2.2 (name other) (List.mem_map_of_mem hOther) (name entry) (by simp)

/-- Looking up the names of some entries finds these entries. -/
theorem filterMap_find?_map {name : α → String} {entries found : List α}
    (hNames : (entries.map name).Nodup) (hFound : ∀ entry ∈ found, entry ∈ entries) :
    ((found.map name).filterMap fun n => entries.find? fun entry => name entry = n) = found := by
  have hSelf : ∀ entry ∈ found, entries.find? (fun other => name other = name entry) =
      some entry := fun entry hEntry => find?_name_of_mem hNames (hFound entry hEntry)
  rw [List.filterMap_map]
  calc found.filterMap _ = found.filterMap some := List.filterMap_congr hSelf
    _ = found := List.filterMap_some

/-- Looking up the names in another order finds every entry once, where its name stands. -/
theorem filterMap_find?_of_perm {name : α → String} {entries : List α}
    (hNames : (entries.map name).Nodup) {order : List String}
    (hOrder : order.Perm (entries.map name)) :
    (order.filterMap fun n => entries.find? fun entry => name entry = n).Perm entries ∧
      (order.filterMap fun n => entries.find? fun entry => name entry = n).map name = order := by
  constructor
  · have hPerm := hOrder.filterMap fun n => entries.find? fun entry => name entry = n
    rwa [filterMap_find?_map hNames fun _ hEntry => hEntry] at hPerm
  · have hNamed : ∀ n ∈ order,
        (entries.find? fun entry => name entry = n).map name = some n := by
      intro n hn
      obtain ⟨entry, hEntry, rfl⟩ := List.mem_map.mp (hOrder.mem_iff.mp hn)
      rw [find?_name_of_mem hNames hEntry, Option.map_some]
    rw [List.map_filterMap]
    calc order.filterMap _ = order.filterMap some := List.filterMap_congr hNamed
      _ = order := List.filterMap_some

theorem filter_key_of_mem {κ : Type} [DecidableEq κ] {key : α → κ} {entries : List α}
    (hKeys : (entries.map key).Nodup) {entry : α} (hEntry : entry ∈ entries) :
    entries.filter (fun other => key other = key entry) = [entry] := by
  obtain ⟨before, after, rfl⟩ := List.append_of_mem hEntry
  rw [List.map_append, List.map_cons, List.nodup_middle, List.nodup_cons,
    ← List.map_append] at hKeys
  have hNone : ∀ others : List α, (∀ other ∈ others, key other ≠ key entry) →
      others.filter (fun other => key other = key entry) = [] := by
    intro others hNe
    simpa [List.filter_eq_nil_iff] using hNe
  have hOthers : ∀ other ∈ before ++ after, key other ≠ key entry := by
    intro other hOther hEq
    exact hKeys.1 (hEq ▸ List.mem_map_of_mem hOther)
  rw [List.forall_mem_append] at hOthers
  rw [List.filter_append, List.filter_cons_of_pos (by simp), hNone before hOthers.1,
    hNone after hOthers.2, List.nil_append]

end Simgen
