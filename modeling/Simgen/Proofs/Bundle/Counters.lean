import Simgen.Proofs.Bundle.Ordering
import Simgen.Proofs.Keyed

/-! The ordering of bundles seen from inside. Between taking a bundle from the queue and releasing
the last bundle that embeds it, a counter still holds the edges to that bundle which are yet to be
released. With these added, what the counters say is true at every moment, so that none of them is
ever taken below zero. -/
namespace Simgen.Bundle.Ordering

variable {bundles : List Bundle} {n : Nat} {s : Ordering} {pending : List String}

/-- A moment of the ordering: `n` bundles have been taken from the queue, and the last of them has
yet to release `pending`. -/
inductive Reaches (bundles : List Bundle) : Nat → Ordering → List String → Prop where
  | start : Reaches bundles 0 (start bundles) []
  | take {n : Nat} {s : Ordering} {name : String} {rest : List String}
      (prior : Reaches bundles n s []) (hQueue : s.queue = name :: rest) :
      Reaches bundles (n + 1) { s with queue := rest, placed := s.placed ++ [name] }
        (embedders bundles name)
  | release {n : Nat} {s : Ordering} {name : String} {later : List String}
      (prior : Reaches bundles n s (name :: later)) : Reaches bundles n (s.release name) later

/-- How many edges the counter of a bundle has to account for: those to bundles that are not placed,
and those that are yet to be released. -/
def owed (bundles : List Bundle) (s : Ordering) (pending : List String) (name : String) : Nat :=
  unplaced bundles s.placed name + pending.count name

/-- The invariant at every moment of the ordering. -/
structure Accounted (bundles : List Bundle) (n : Nat) (s : Ordering) (pending : List String) :
    Prop where
  counts : Counts (bundles.map Bundle.name) s (owed bundles s pending)
  nodup : (s.placed ++ s.queue).Nodup
  mem_iff : ∀ name, name ∈ s.placed ++ s.queue ↔
    name ∈ bundles.map Bundle.name ∧ owed bundles s pending name = 0
  pending_subset : pending ⊆ bundles.map Bundle.name
  length_placed : s.placed.length = n

/-- There is a counter for each bundle and for nothing else. -/
theorem Counts.mem_of_lookup {names : List String} {f : String → Nat} (h : Counts names s f)
    {name : String} {count : Nat} (hLookup : s.waiting.lookup name = some count) :
    name ∈ names := by
  by_contra hNot
  have hNone : s.waiting.lookup name = none := by
    rw [show s.waiting = names.map fun n => (n, f n) from h, lookup_eq_none_iff_notMem]
    simpa using hNot
  rw [hNone] at hLookup
  cases hLookup

namespace Accounted

theorem start (hNames : (bundles.map Bundle.name).Nodup) :
    Accounted bundles 0 (start bundles) [] := by
  have hSound := sound_start hNames
  exact ⟨hSound.counts, hSound.nodup, hSound.mem_iff, List.nil_subset _, rfl⟩

/-- The edges to a bundle that is taken from the queue are yet to be released. -/
theorem take {name : String} {rest : List String} (h : Accounted bundles n s [])
    (hQueue : s.queue = name :: rest) :
    Accounted bundles (n + 1) { s with queue := rest, placed := s.placed ++ [name] }
      (embedders bundles name) := by
  have hTogether : s.placed ++ [name] ++ rest = s.placed ++ s.queue := by simp [hQueue]
  have hFresh : name ∉ s.placed := by
    have hNodup := h.nodup
    rw [hQueue, List.nodup_append] at hNodup
    exact fun hPlaced => hNodup.2.2 name hPlaced name List.mem_cons_self rfl
  have hOwed : owed bundles { s with queue := rest, placed := s.placed ++ [name] }
      (embedders bundles name) = owed bundles s [] := by
    funext outer
    exact unplaced_add_count hFresh outer
  refine ⟨?_, ?_, ?_, embedders_subset name, ?_⟩
  · rw [hOwed]
    exact h.counts
  · exact hTogether ▸ h.nodup
  · intro other
    rw [hOwed]
    exact hTogether ▸ h.mem_iff other
  · rw [List.length_append, h.length_placed, List.length_singleton]

theorem lookup (h : Accounted bundles n s pending) {name : String}
    (hName : name ∈ bundles.map Bundle.name) :
    s.waiting.lookup name = some (owed bundles s pending name) :=
  h.counts.lookup hName

/-- A release takes one edge from one counter. The bundle is queued if it was the last, and then it
was not queued before. -/
theorem release {name : String} {later : List String} (h : Accounted bundles n s (name :: later)) :
    Accounted bundles n (s.release name) later := by
  obtain ⟨hName, hLater⟩ := List.cons_subset.mp h.pending_subset
  have hHere : owed bundles s (name :: later) name =
      owed bundles (s.release name) later name + 1 := by
    simp only [owed, List.count_cons_self]
    rfl
  have hElse : ∀ other, other ≠ name →
      owed bundles s (name :: later) other = owed bundles (s.release name) later other := by
    intro other hOther
    simp only [owed, List.count_cons_of_ne (Ne.symm hOther)]
    rfl
  have hQueue := h.counts.release_queue hName
  rw [hHere, Nat.add_sub_cancel] at hQueue
  have hOld : name ∉ s.placed ++ s.queue := by
    rw [h.mem_iff, hHere]
    exact fun hZero => Nat.succ_ne_zero _ hZero.2
  refine ⟨?_, ?_, ?_, hLater, h.length_placed⟩
  · have hCounts := h.counts.release name
    convert hCounts using 2 with other
    by_cases hOther : other = name
    · rw [hOther, if_pos rfl, hHere, Nat.add_sub_cancel]
    · rw [if_neg hOther, hElse other hOther]
  · change (s.placed ++ (s.release name).queue).Nodup
    rw [hQueue]
    split
    · rw [← List.append_assoc, List.nodup_append]
      refine ⟨h.nodup, List.nodup_singleton name, ?_⟩
      rintro other hOther _ hSame rfl
      rw [List.mem_singleton.mp hSame] at hOther
      exact hOld hOther
    · exact h.nodup
  · intro other
    change other ∈ s.placed ++ (s.release name).queue ↔ _
    by_cases hOther : other = name
    · subst hOther
      rw [hQueue]
      split
      next hZero => simp [hName, hZero]
      next hPositive => exact iff_of_false hOld fun hZero => hPositive hZero.2
    · rw [← hElse other hOther, ← h.mem_iff, hQueue]
      split
      · simp [hOther]
      · rfl

/-- No more bundles are taken than there are. -/
theorem le_length (h : Accounted bundles n s pending) : n ≤ bundles.length := by
  have hSubset : s.placed ++ s.queue ⊆ bundles.map Bundle.name :=
    fun name hName => ((h.mem_iff name).mp hName).1
  have hLength := (List.subperm_of_subset h.nodup hSubset).length_le
  rw [List.length_append, h.length_placed, List.length_map] at hLength
  omega

end Accounted

/-- The invariant holds at every moment. -/
theorem Reaches.accounted (hNames : (bundles.map Bundle.name).Nodup)
    (h : Reaches bundles n s pending) : Accounted bundles n s pending := by
  induction h with
  | start => exact .start hNames
  | take _ hQueue ih => exact ih.take hQueue
  | release _ ih => exact ih.release

theorem Reaches.foldl_release (h : Reaches bundles n s pending) :
    Reaches bundles n (pending.foldl Ordering.release s) [] := by
  induction pending generalizing s with
  | nil => exact h
  | cons name later ih => exact ih h.release

/-- The moments between two bundles are those that the ordering goes through. -/
theorem Reaches.drain (h : Reaches bundles n s []) (steps : Nat) :
    ∃ taken, taken ≤ steps ∧ Reaches bundles (n + taken) (s.drain bundles steps) [] := by
  induction steps generalizing n s with
  | zero => exact ⟨0, Nat.le_refl 0, h⟩
  | succ steps ih =>
      cases hQueue : s.queue with
      | nil => exact ⟨0, Nat.zero_le _, by simpa [Ordering.drain, hQueue] using h⟩
      | cons name rest =>
          obtain ⟨taken, hTaken, hRest⟩ := ih (h.take hQueue).foldl_release
          refine ⟨taken + 1, by omega, ?_⟩
          rw [Nat.add_right_comm, Nat.add_assoc] at hRest
          simpa [Ordering.drain, hQueue, place] using hRest

theorem drain_succ_of_queue {name : String} {rest : List String} {steps : Nat}
    (hQueue : (s.drain bundles steps).queue = name :: rest) :
    s.drain bundles (steps + 1) = (s.drain bundles steps).place bundles name rest := by
  induction steps generalizing s with
  | zero =>
      rw [Ordering.drain] at hQueue
      simp [Ordering.drain, hQueue]
  | succ steps ih =>
      cases hHead : s.queue with
      | nil => simp [Ordering.drain, hHead] at hQueue
      | cons first others =>
          have hDrain : ∀ steps, s.drain bundles (steps + 1) =
              (s.place bundles first others).drain bundles steps := by
            intro steps
            simp [Ordering.drain, hHead]
          rw [hDrain] at hQueue ⊢
          rw [hDrain]
          exact ih hQueue

/-- Every moment is one of the run: what is yet to be released leads to the next bundle. -/
theorem Reaches.foldl_release_eq (h : Reaches bundles n s pending) :
    pending.foldl Ordering.release s = (Ordering.start bundles).drain bundles n := by
  induction h with
  | start => rfl
  | take _ hQueue ih =>
      rw [List.foldl_nil] at ih
      rw [ih] at hQueue ⊢
      exact (drain_succ_of_queue hQueue).symm
  | release _ ih => exact ih

/-- At every moment of the ordering, also between two releases, the counter of a bundle is the
number of its edges to bundles that are not placed, and of those that are yet to be released.
A bundle whose counter is zero is queued or placed; none is queued twice; what is released next has
a counter that is not zero; and no more bundles are taken from the queue than there are. When the
ordering stops, the queue is empty. -/
theorem counters_at_every_moment (hNames : (bundles.map Bundle.name).Nodup) :
    (∀ n s pending, Reaches bundles n s pending →
      pending.foldl Ordering.release s = (start bundles).drain bundles n ∧
      (∀ name ∈ bundles.map Bundle.name, s.waiting.lookup name =
        some (unplaced bundles s.placed name + pending.count name)) ∧
      (∀ name, s.waiting.lookup name = some 0 → name ∈ s.queue ∨ name ∈ s.placed) ∧
      (s.placed ++ s.queue).Nodup ∧
      (∀ name ∈ pending, ∃ less, s.waiting.lookup name = some (less + 1)) ∧
      s.placed.length = n ∧ n ≤ bundles.length) ∧
    ∃ n, Reaches bundles n (final bundles) [] ∧ (final bundles).queue = [] := by
  constructor
  · intro n s pending hReaches
    have h := hReaches.accounted hNames
    refine ⟨hReaches.foldl_release_eq, fun name hName => h.lookup hName, ?_, h.nodup, ?_,
      h.length_placed, h.le_length⟩
    · intro name hZero
      have hName : name ∈ bundles.map Bundle.name := h.counts.mem_of_lookup hZero
      rw [h.lookup hName, Option.some.injEq] at hZero
      have hSettled := (h.mem_iff name).mpr ⟨hName, hZero⟩
      exact (List.mem_append.mp hSettled).symm
    · intro name hName
      have hPositive : 0 < owed bundles s pending name :=
        Nat.lt_of_lt_of_le (List.count_pos_iff.mpr hName) (Nat.le_add_left _ _)
      refine ⟨owed bundles s pending name - 1, ?_⟩
      rw [h.lookup (h.pending_subset hName), Nat.sub_add_cancel hPositive]
  · have hStart : Reaches bundles 0 (Ordering.start bundles) [] := .start
    obtain ⟨taken, -, hFinal⟩ := hStart.drain bundles.length
    exact ⟨0 + taken, hFinal, final_queue hNames⟩

/-- A bundle that embeds itself, and one that embeds another twice. -/
def knotted : List Bundle :=
  [{ name := "Loop"
     members := [⟨"self", .composite "Loop", none⟩, ⟨"leaf", .composite "Leaf", none⟩] },
    { name := "Pair"
      members := [⟨"left", .composite "Leaf", none⟩, ⟨"right", .composite "Leaf", none⟩] },
    { name := "Leaf", members := [] }]

/-- The leaf is placed, and one of the two edges from the pair has been released. -/
def knottedHalfway : Ordering :=
  { waiting := [("Loop", 1), ("Pair", 1), ("Leaf", 0)], queue := [], placed := ["Leaf"] }

theorem knotted_counted :
    (knotted.map Bundle.name).Nodup ∧ Reaches knotted 1 knottedHalfway ["Pair"] ∧
      knottedHalfway.waiting.lookup "Pair" =
        some (unplaced knotted ["Leaf"] "Pair" + ["Pair"].count "Pair") ∧
      (final knotted).placed = ["Leaf", "Pair"] ∧ (final knotted).queue = [] := by
  have hNames : (knotted.map Bundle.name).Nodup := by decide
  have hQueue : (start knotted).queue = ["Leaf"] := by decide
  have hHalfway : Reaches knotted 1 knottedHalfway ["Pair"] := by
    have hTaken : Reaches knotted 1 _ ["Loop", "Pair", "Pair"] := Reaches.start.take hQueue
    exact hTaken.release.release
  obtain ⟨hMoments, -, -, hEnd⟩ := counters_at_every_moment hNames
  obtain ⟨-, hCounters, -⟩ := hMoments 1 knottedHalfway ["Pair"] hHalfway
  exact ⟨hNames, hHalfway, hCounters "Pair" (by decide), by decide, hEnd⟩

end Simgen.Bundle.Ordering
