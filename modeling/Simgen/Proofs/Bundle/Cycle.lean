import Simgen.Proofs.Bundle.Ordering
import Simgen.Proofs.Journal

/-! Which bundles can be declared at all: those from which no cycle of embeddings can be
reached. The ordering places exactly these, and blames exactly the others. -/
namespace Simgen.Bundle

variable {bundles : List Bundle}

namespace Ordering

/-- What a name embeds is declared before the name is first. -/
theorem Declarable.idxOf_lt {order : List String} (h : Declarable bundles order)
    {name inner : String} (hName : name ∈ order) (hEmbeds : Embeds bundles name inner) :
    inner ∈ order ∧ order.idxOf inner < order.idxOf name := by
  obtain ⟨before, after, hSplit, hFirst⟩ := List.eq_append_cons_of_mem hName
  have hBefore : inner ∈ before := h before name after hSplit inner hEmbeds
  refine ⟨by rw [hSplit]; exact List.mem_append_left _ hBefore, ?_⟩
  rw [hSplit, List.idxOf_append_of_mem hBefore, List.idxOf_append_of_notMem hFirst,
    List.idxOf_cons_self, Nat.add_zero]
  exact List.idxOf_lt_length_of_mem hBefore

theorem Declarable.transGen {order : List String} (h : Declarable bundles order)
    {name inner : String} (hName : name ∈ order)
    (hPath : Relation.TransGen (Embeds bundles) name inner) :
    inner ∈ order ∧ order.idxOf inner < order.idxOf name := by
  induction hPath with
  | single hEmbeds => exact h.idxOf_lt hName hEmbeds
  | tail _ hEmbeds ih =>
      obtain ⟨hMem, hLess⟩ := ih
      obtain ⟨hInner, hNext⟩ := h.idxOf_lt hMem hEmbeds
      exact ⟨hInner, hNext.trans hLess⟩

/-- A name from which a cycle can be reached has no place in any declarable order. -/
theorem Declarable.not_reachesCycle {order : List String} (h : Declarable bundles order)
    {name : String} (hName : name ∈ order) : ¬ ReachesCycle bundles name := by
  rintro ⟨inner, hPath, hCycle⟩
  have hInner : inner ∈ order := by
    rcases Relation.reflTransGen_iff_eq_or_transGen.mp hPath with rfl | hSteps
    · exact hName
    · exact (h.transGen hName hSteps).1
  exact Nat.lt_irrefl _ (h.transGen hInner hCycle).2

/-- When the queue is empty, a bundle is placed as soon as all that it embeds is placed. -/
theorem mem_final_placed_iff (hNames : (bundles.map Bundle.name).Nodup) (name : String) :
    name ∈ (final bundles).placed ↔ name ∈ bundles.map Bundle.name ∧
      unplaced bundles (final bundles).placed name = 0 := by
  have h := (sound_final hNames).mem_iff name
  rwa [final_queue hNames, List.append_nil] at h

/-- A bundle that is not placed embeds another one that is not, and so on into a cycle. -/
theorem reachesCycle_iff_not_placed (hNames : (bundles.map Bundle.name).Nodup) {name : String}
    (hName : name ∈ bundles.map Bundle.name) :
    ReachesCycle bundles name ↔ name ∉ (final bundles).placed := by
  constructor
  · intro hCycle hPlaced
    exact (sound_final hNames).declarable.not_reachesCycle hPlaced hCycle
  · intro hLeft
    let stuck := (bundles.map Bundle.name).filter (fun n => n ∉ (final bundles).placed)
    -- Each bundle that is left over waits for another one that is left over.
    have hStuck : ∀ n ∈ stuck, ∃ m ∈ stuck, Embeds bundles n m := by
      intro n hn
      obtain ⟨hIn, hNot⟩ := List.mem_filter.mp hn
      have hWaits : ¬ unplaced bundles (final bundles).placed n = 0 := by
        intro hZero
        exact of_decide_eq_true hNot ((mem_final_placed_iff hNames n).mpr ⟨hIn, hZero⟩)
      rw [unplaced_eq_zero_iff] at hWaits
      push Not at hWaits
      obtain ⟨inner, hEmbeds, hInner⟩ := hWaits
      exact ⟨inner, List.mem_filter.mpr ⟨hEmbeds.1, decide_eq_true hInner⟩, hEmbeds⟩
    exact reachesCycle_of_endless hStuck (List.mem_filter.mpr ⟨hName, decide_eq_true hLeft⟩)

theorem final_blocked_eq (hNames : (bundles.map Bundle.name).Nodup) :
    (final bundles).blocked = (bundles.map Bundle.name).filter
      (fun n => unplaced bundles (final bundles).placed n ≠ 0) := by
  have hCounts : (final bundles).waiting = _ := (sound_final hNames).counts
  rw [blocked, hCounts, List.filter_map, List.map_map]
  simp [Function.comp_def]

/-- The bundles that still wait in the end are those from which a cycle can be reached. -/
theorem mem_final_blocked_iff (hNames : (bundles.map Bundle.name).Nodup) (name : String) :
    name ∈ (final bundles).blocked ↔ ReachesCycle bundles name := by
  rw [final_blocked_eq hNames, List.mem_filter, decide_eq_true_eq]
  constructor
  · rintro ⟨hIn, hWaits⟩
    rw [reachesCycle_iff_not_placed hNames hIn, mem_final_placed_iff hNames]
    exact fun hPlaced => hWaits hPlaced.2
  · intro hCycle
    have hIn := hCycle.mem
    refine ⟨hIn, fun hZero => ?_⟩
    rw [reachesCycle_iff_not_placed hNames hIn, mem_final_placed_iff hNames] at hCycle
    exact hCycle ⟨hIn, hZero⟩

theorem nodup_final_placed (hNames : (bundles.map Bundle.name).Nodup) :
    (final bundles).placed.Nodup :=
  (List.nodup_append.mp (sound_final hNames).nodup).1

/-- If as many bundles are placed as there are, the order is a rearrangement of the list. -/
theorem final_placed_perm (hNames : (bundles.map Bundle.name).Nodup)
    (hLength : (final bundles).placed.length = bundles.length) :
    (final bundles).placed.Perm (bundles.map Bundle.name) := by
  have hSubset : (final bundles).placed ⊆ bundles.map Bundle.name :=
    fun n hn => ((mem_final_placed_iff hNames n).mp hn).1
  have hSubperm := List.subperm_of_subset (nodup_final_placed hNames) hSubset
  exact hSubperm.perm_of_length_le (by rw [List.length_map, hLength])

/-- Some bundle is left over exactly if there is a cycle. -/
theorem exists_onCycle_iff (hNames : (bundles.map Bundle.name).Nodup) :
    (∃ name, OnCycle bundles name) ↔ (final bundles).placed.length ≠ bundles.length := by
  constructor
  · rintro ⟨name, hCycle⟩ hLength
    have hReaches : ReachesCycle bundles name := ⟨name, .refl, hCycle⟩
    have hPlaced : name ∈ (final bundles).placed :=
      (final_placed_perm hNames hLength).mem_iff.mpr hReaches.mem
    exact (reachesCycle_iff_not_placed hNames hReaches.mem).mp hReaches hPlaced
  · intro hLength
    by_contra hNone
    have hAll : ∀ n, n ∈ (final bundles).placed ↔ n ∈ bundles.map Bundle.name := by
      intro n
      refine ⟨fun hn => ((mem_final_placed_iff hNames n).mp hn).1, fun hn => ?_⟩
      by_contra hLeft
      obtain ⟨inner, -, hCycle⟩ := (reachesCycle_iff_not_placed hNames hn).mpr hLeft
      exact hNone ⟨inner, hCycle⟩
    have hPerm := (List.perm_ext_iff_of_nodup (nodup_final_placed hNames) hNames).mpr hAll
    exact hLength (by rw [hPerm.length_eq, List.length_map])

end Ordering

theorem arrange_outcome (bundles : List Bundle) :
    (arrange bundles).outcome =
      (declarationOrder bundles).mapError fun cause => { cause := cause } := by
  cases h : declarationOrder bundles with
  | error cause => simp [arrange, h, bind]
  | ok order => simp [arrange, h, bind]

theorem arrange_eq_ok_iff {order : List String} :
    (arrange bundles).outcome = .ok order ↔
      (Ordering.final bundles).placed.length = bundles.length ∧
        (Ordering.final bundles).placed = order := by
  rw [arrange_outcome, mapError_eq_ok_iff, declarationOrder]
  split_ifs with hLength
  · simp [hLength]
  · simp [hLength]

theorem arrange_eq_error_iff {e : Error} :
    (arrange bundles).outcome = .error e ↔
      (Ordering.final bundles).placed.length ≠ bundles.length ∧
        e = { cause := .cycle (Ordering.final bundles).blocked } := by
  rw [arrange_outcome, declarationOrder]
  split_ifs with hLength
  · simp [hLength]
  · simp [hLength, eq_comm]

/-- Ordering fails exactly if some bundle lies on a cycle of embeddings. The failure names
the bundles that lie on a cycle or embed one that does, over any number of steps, each
once and in list order. A bundle that a cycle merely embeds is not among them. -/
theorem arrange_fails_exactly_on_cycles (bundles : List Bundle)
    (hNames : (bundles.map Bundle.name).Nodup) :
    ((∃ e, (arrange bundles).outcome = .error e) ↔ ∃ name, OnCycle bundles name) ∧
    ∀ e, (arrange bundles).outcome = .error e → ∃ blamed : List String,
      e = { cause := .cycle blamed } ∧ blamed.Nodup ∧ blamed.Sublist (bundles.map Bundle.name) ∧
        ∀ name, name ∈ blamed ↔ ReachesCycle bundles name := by
  constructor
  · rw [Ordering.exists_onCycle_iff hNames]
    simp only [arrange_eq_error_iff]
    constructor
    · rintro ⟨_, hLength, _⟩
      exact hLength
    · intro hLength
      exact ⟨_, hLength, rfl⟩
  · intro e hError
    have hSublist : (Ordering.final bundles).blocked.Sublist (bundles.map Bundle.name) := by
      rw [Ordering.final_blocked_eq hNames]
      exact List.filter_sublist
    exact ⟨_, (arrange_eq_error_iff.mp hError).2, hSublist.nodup hNames, hSublist,
      Ordering.mem_final_blocked_iff hNames⟩

/-- Two bundles that embed each other, one of them twice, with a bundle above and one below. -/
def entangled : List Bundle :=
  [{ name := "Leaf", members := [⟨"bits", .primitive .uint8, some "0"⟩] },
    { name := "Frame", members := [⟨"head", .composite "Ring", none⟩] },
    { name := "Ring"
      members := [⟨"a", .composite "Link", none⟩, ⟨"b", .composite "Link", none⟩] },
    { name := "Link"
      members := [⟨"ring", .composite "Ring", none⟩, ⟨"leaf", .composite "Leaf", none⟩] }]

theorem entangled_blamed :
    (entangled.map Bundle.name).Nodup ∧
      (arrange entangled).outcome = .error { cause := .cycle ["Frame", "Ring", "Link"] } ∧
      ReachesCycle entangled "Frame" ∧ ¬ ReachesCycle entangled "Leaf" := by
  have hNames : (entangled.map Bundle.name).Nodup := by decide
  have hOutcome : (arrange entangled).outcome =
      .error { cause := .cycle ["Frame", "Ring", "Link"] } := by
    rw [arrange_eq_error_iff]
    decide
  obtain ⟨blamed, hCause, -, -, hMem⟩ :=
    (arrange_fails_exactly_on_cycles entangled hNames).2 _ hOutcome
  cases hCause
  refine ⟨hNames, hOutcome, (hMem "Frame").mp (by decide), ?_⟩
  intro hLeaf
  exact absurd ((hMem "Leaf").mpr hLeaf) (by decide)

end Simgen.Bundle
