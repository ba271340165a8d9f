import Simgen.Proofs.Bundle.Embedding
import Mathlib.Data.List.Basic
import Mathlib.Data.List.Dedup

/-! What the ordering of bundles keeps from step to step. The counter of a bundle is the
number of its edges that lead to bundles not placed yet, so a bundle is queued at the
moment when the last of them is placed, and never again. -/
namespace Simgen.Bundle.Ordering

variable {bundles : List Bundle} {s : Ordering}

/-- How many edges lead from `name` to bundles that are not placed. -/
def unplaced (bundles : List Bundle) (placed : List String) (name : String) : Nat :=
  (embeddings bundles).countP fun e => e.1 = name ∧ e.2 ∉ placed

/-- The counters are a function of the names. -/
def Counts (names : List String) (s : Ordering) (f : String → Nat) : Prop :=
  s.waiting = names.map fun n => (n, f n)

/-- Each name stands behind everything that it embeds. -/
def Declarable (bundles : List Bundle) (order : List String) : Prop :=
  ∀ before name after, order = before ++ name :: after →
    ∀ inner, Embeds bundles name inner → inner ∈ before

/-- The invariant of the ordering. -/
structure Sound (bundles : List Bundle) (s : Ordering) : Prop where
  counts : Counts (bundles.map Bundle.name) s (unplaced bundles s.placed)
  nodup : (s.placed ++ s.queue).Nodup
  mem_iff : ∀ n, n ∈ s.placed ++ s.queue ↔
    n ∈ bundles.map Bundle.name ∧ unplaced bundles s.placed n = 0
  declarable : Declarable bundles s.placed

theorem unplaced_eq_zero_iff (placed : List String) (name : String) :
    unplaced bundles placed name = 0 ↔ ∀ inner, Embeds bundles name inner → inner ∈ placed := by
  simp only [unplaced, List.countP_eq_zero, decide_eq_true_eq, not_and, not_not]
  constructor
  · intro h inner hEmbeds
    exact h (name, inner) ((mem_embeddings_iff name inner).mpr hEmbeds) rfl
  · rintro h ⟨outer, inner⟩ hEdge rfl
    exact h inner ((mem_embeddings_iff _ inner).mp hEdge)

theorem unplaced_nil {b : Bundle} (hNames : (bundles.map Bundle.name).Nodup) (hb : b ∈ bundles) :
    unplaced bundles [] b.name = (b.embedded (bundles.map Bundle.name)).length := by
  rw [← countP_edges_of_mem _ hNames hb]
  simp [unplaced, embeddings]

/-- Placing a bundle accounts for exactly the edges that lead to it. -/
theorem unplaced_add_count {placed : List String} {name : String} (hFresh : name ∉ placed)
    (outer : String) :
    unplaced bundles (placed ++ [name]) outer + (embedders bundles name).count outer =
      unplaced bundles placed outer := by
  rw [embedders_eq, List.count, List.countP_map, unplaced, unplaced,
    List.countP_eq_countP_filter_add (embeddings bundles)
      (fun e => e.1 = outer ∧ e.2 ∉ placed) (fun e => e.2 = name), Nat.add_comm]
  congr 1
  · rw [List.countP_filter, List.countP_filter]
    apply List.countP_congr
    rintro ⟨x, y⟩ -
    by_cases hy : y = name
    · simp [hy, hFresh]
    · simp [hy]
  · rw [List.countP_filter]
    apply List.countP_congr
    rintro ⟨x, y⟩ -
    by_cases hy : y = name
    · simp [hy]
    · simp [hy]

theorem Counts.lookup {names : List String} {f : String → Nat} (h : Counts names s f)
    {name : String} (hName : name ∈ names) : s.waiting.lookup name = some (f name) := by
  rw [h, List.lookup_graph f hName]

theorem Counts.release {names : List String} {f : String → Nat} (h : Counts names s f)
    (name : String) :
    Counts names (s.release name) (fun n => if n = name then f n - 1 else f n) := by
  change s.waiting.map (fun w => if w.1 = name then (w.1, w.2 - 1) else w) = _
  rw [show s.waiting = names.map fun n => (n, f n) from h, List.map_map]
  apply List.map_congr_left
  intro n _
  by_cases hn : n = name
  · simp [hn]
  · simp [hn]

theorem Counts.release_queue {names : List String} {f : String → Nat} (h : Counts names s f)
    {name : String} (hName : name ∈ names) :
    (s.release name).queue = if f name - 1 = 0 then s.queue ++ [name] else s.queue := by
  have hLookup := (h.release name).lookup hName
  simp only [ite_true] at hLookup
  change (if (s.release name).waiting.lookup name = some 0 then s.queue ++ [name] else s.queue) = _
  simp only [hLookup, Option.some.injEq]

/-- A run of releases takes from each counter as often as the name occurs. It queues the
names whose counter runs out, each at its last occurrence and so only once. -/
theorem Counts.foldl_release {names : List String} {f : String → Nat} {released : List String}
    (h : Counts names s f) (hIn : released ⊆ names) (hCount : ∀ n, released.count n ≤ f n) :
    Counts names (released.foldl Ordering.release s) (fun n => f n - released.count n) ∧
    (released.foldl Ordering.release s).queue =
      s.queue ++ released.dedup.filter (fun n => f n = released.count n) ∧
    (released.foldl Ordering.release s).placed = s.placed := by
  induction released generalizing s f with
  | nil => exact ⟨by simpa using h, by simp, rfl⟩
  | cons name rest ih =>
      obtain ⟨hName, hRest⟩ := List.cons_subset.mp hIn
      have hCons : ∀ n, (name :: rest).count n = rest.count n + if n = name then 1 else 0 := by
        intro n
        simp only [List.count_cons, beq_iff_eq, eq_comm (a := n)]
      have hCount' : ∀ n, rest.count n ≤ if n = name then f n - 1 else f n := by
        intro n
        have hBound := hCount n
        rw [hCons] at hBound
        split_ifs at hBound ⊢ <;> omega
      obtain ⟨hCounts, hQueue, hPlaced⟩ := ih (h.release name) hRest hCount'
      refine ⟨?_, ?_, hPlaced⟩
      · rw [List.foldl_cons]
        convert hCounts using 2 with n
        rw [hCons]
        split_ifs <;> omega
      · rw [List.foldl_cons, hQueue, h.release_queue hName]
        have hFilter : rest.dedup.filter
            (fun n => decide ((if n = name then f n - 1 else f n) = rest.count n)) =
            rest.dedup.filter (fun n => decide (f n = (name :: rest).count n)) := by
          apply List.filter_congr
          intro n _
          have hBound := hCount n
          rw [hCons] at hBound ⊢
          apply decide_eq_decide.mpr
          split_ifs at hBound ⊢ <;> omega
        have hFirst := hCount name
        rw [List.count_cons_self] at hFirst
        rw [hFilter]
        -- `dedup` keeps the last occurrence of a name, and there its counter runs out if at all.
        by_cases hAgain : name ∈ rest
        · have hPositive := List.count_pos_iff.mpr hAgain
          rw [if_neg (by omega), List.dedup_cons_of_mem hAgain]
        · have hZero := List.count_eq_zero_of_not_mem hAgain
          rw [List.dedup_cons_of_notMem hAgain, List.filter_cons, List.count_cons_self, hZero]
          by_cases hLast : f name = 1
          · simp [hLast]
          · rw [if_neg (by omega), if_neg (by simpa using hLast)]

theorem Declarable.snoc {order : List String} (h : Declarable bundles order) {name : String}
    (hName : ∀ inner, Embeds bundles name inner → inner ∈ order) :
    Declarable bundles (order ++ [name]) := by
  intro before last after hSplit inner hEmbeds
  rcases List.eq_nil_or_concat after with rfl | ⟨middle, final, rfl⟩
  · obtain ⟨rfl, hLast⟩ := List.append_inj' hSplit rfl
    cases hLast
    exact hName inner hEmbeds
  · have hSplit' : order ++ [name] = (before ++ last :: middle) ++ [final] := by
      simpa using hSplit
    obtain ⟨hOrder, -⟩ := List.append_inj' hSplit' rfl
    exact h before last middle hOrder inner hEmbeds

theorem embedders_subset (name : String) : embedders bundles name ⊆ bundles.map Bundle.name := by
  intro outer hOuter
  rw [embedders_eq, List.mem_map] at hOuter
  obtain ⟨⟨_, inner⟩, hEdge, rfl⟩ := hOuter
  exact ((mem_embeddings_iff _ inner).mp (List.mem_of_mem_filter hEdge)).outer_mem

theorem counts_start (hNames : (bundles.map Bundle.name).Nodup) :
    Counts (bundles.map Bundle.name) (start bundles) (unplaced bundles []) := by
  change (bundles.map fun b => (b.name, (b.embedded (bundles.map Bundle.name)).length)) = _
  rw [List.map_map]
  apply List.map_congr_left
  intro b hb
  simp [unplaced_nil hNames hb]

/-- At first those bundles are queued that embed none of the list. -/
theorem start_queue (hNames : (bundles.map Bundle.name).Nodup) :
    (start bundles).queue =
      (bundles.map Bundle.name).filter (fun n => unplaced bundles [] n = 0) := by
  change ((start bundles).waiting.filter fun w => w.2 = 0).map Prod.fst = _
  rw [show (start bundles).waiting = _ from counts_start hNames, List.filter_map, List.map_map]
  simp [Function.comp_def]

theorem sound_start (hNames : (bundles.map Bundle.name).Nodup) : Sound bundles (start bundles) := by
  refine ⟨counts_start hNames, ?_, ?_, ?_⟩
  · change ([] ++ (start bundles).queue).Nodup
    rw [start_queue hNames, List.nil_append]
    exact hNames.filter _
  · intro n
    change n ∈ [] ++ (start bundles).queue ↔ n ∈ bundles.map Bundle.name ∧ unplaced bundles [] n = 0
    simp [start_queue hNames]
  · intro before name after hSplit
    cases before <;> cases hSplit

theorem Sound.head_fresh {name : String} {rest : List String} (h : Sound bundles s)
    (hQueue : s.queue = name :: rest) : name ∉ s.placed := by
  intro hPlaced
  have hNodup := h.nodup
  rw [hQueue, List.nodup_append] at hNodup
  exact hNodup.2.2 name hPlaced name List.mem_cons_self rfl

theorem Sound.unplaced_add_count_head {name : String} {rest : List String} (h : Sound bundles s)
    (hQueue : s.queue = name :: rest) (outer : String) :
    unplaced bundles (s.placed ++ [name]) outer + (embedders bundles name).count outer =
      unplaced bundles s.placed outer :=
  unplaced_add_count (h.head_fresh hQueue) outer

/-- What placing the head of the queue does: the bundles queued in turn are those with an
edge to it that have nothing else to wait for. -/
theorem Sound.place_spec {name : String} {rest : List String} (h : Sound bundles s)
    (hQueue : s.queue = name :: rest) :
    (s.place bundles name rest).placed = s.placed ++ [name] ∧
    (s.place bundles name rest).queue = rest ++ (embedders bundles name).dedup.filter
      (fun n => unplaced bundles (s.placed ++ [name]) n = 0) ∧
    Counts (bundles.map Bundle.name) (s.place bundles name rest)
      (unplaced bundles (s.placed ++ [name])) := by
  have hAdd := h.unplaced_add_count_head hQueue
  obtain ⟨hCounts, hNext, hPlaced⟩ := Counts.foldl_release
    (s := { s with queue := rest, placed := s.placed ++ [name] }) h.counts
    (embedders_subset name) (fun n => by have := hAdd n; omega)
  refine ⟨hPlaced, ?_, ?_⟩
  · refine hNext.trans ?_
    congr 1
    apply List.filter_congr
    intro n _
    have := hAdd n
    exact decide_eq_decide.mpr (by omega)
  · have hSame : unplaced bundles (s.placed ++ [name]) =
        fun n => unplaced bundles s.placed n - (embedders bundles name).count n := by
      funext n
      have := hAdd n
      omega
    rw [hSame]
    exact hCounts

/-- Placing the head of the queue keeps the invariant. -/
theorem Sound.place {name : String} {rest : List String} (h : Sound bundles s)
    (hQueue : s.queue = name :: rest) : Sound bundles (s.place bundles name rest) := by
  obtain ⟨hPlaced, hNext, hCounts⟩ := h.place_spec hQueue
  have hNodup := h.nodup
  have hOld := h.mem_iff
  rw [hQueue] at hNodup hOld
  have hAdd := h.unplaced_add_count_head hQueue
  have hZero : unplaced bundles s.placed name = 0 := ((hOld name).mp (by simp)).2
  have hTogether : (s.place bundles name rest).placed ++ (s.place bundles name rest).queue =
      (s.placed ++ name :: rest) ++ (embedders bundles name).dedup.filter
        (fun n => unplaced bundles (s.placed ++ [name]) n = 0) := by
    simp [hPlaced, hNext]
  refine ⟨by rwa [hPlaced], ?_, ?_, ?_⟩
  · rw [hTogether, List.nodup_append]
    refine ⟨hNodup, (List.nodup_dedup _).filter _, ?_⟩
    rintro n hn _ hm rfl
    -- What is queued now lost an edge, so its counter was not zero and it was not queued before.
    have hReleased : n ∈ embedders bundles name := List.mem_dedup.mp (List.mem_of_mem_filter hm)
    have hCount := List.count_pos_iff.mpr hReleased
    have := ((hOld n).mp hn).2
    have := hAdd n
    omega
  · intro n
    have hn := hAdd n
    rw [hTogether, hPlaced, List.mem_append, hOld, List.mem_filter, List.mem_dedup,
      decide_eq_true_eq]
    constructor
    · rintro (⟨hIn, hNone⟩ | ⟨hIn, hNone⟩)
      · exact ⟨hIn, by omega⟩
      · exact ⟨embedders_subset name hIn, hNone⟩
    · rintro ⟨hIn, hNone⟩
      by_cases hReleased : n ∈ embedders bundles name
      · exact Or.inr ⟨hReleased, hNone⟩
      · rw [List.count_eq_zero_of_not_mem hReleased] at hn
        exact Or.inl ⟨hIn, by omega⟩
  · rw [hPlaced]
    exact h.declarable.snoc ((unplaced_eq_zero_iff _ name).mp hZero)

theorem Sound.drain (h : Sound bundles s) (steps : Nat) :
    Sound bundles (s.drain bundles steps) := by
  induction steps generalizing s with
  | zero => exact h
  | succ steps ih =>
      cases hQueue : s.queue with
      | nil => simpa [Ordering.drain, hQueue] using h
      | cons name rest => simpa [Ordering.drain, hQueue] using ih (h.place hQueue)

/-- No more is placed or queued than there are bundles. -/
theorem Sound.length_le (h : Sound bundles s) :
    s.placed.length + s.queue.length ≤ bundles.length := by
  have hSubset : s.placed ++ s.queue ⊆ bundles.map Bundle.name :=
    fun n hn => ((h.mem_iff n).mp hn).1
  have hLength := (List.subperm_of_subset h.nodup hSubset).length_le
  simpa using hLength

/-- With one step left for each bundle that is not placed, the queue runs empty. -/
theorem Sound.drain_queue (h : Sound bundles s) {steps : Nat}
    (hSteps : bundles.length ≤ s.placed.length + steps) : (s.drain bundles steps).queue = [] := by
  induction steps generalizing s with
  | zero =>
      have hLength := h.length_le
      exact List.eq_nil_of_length_eq_zero (by simp only [Ordering.drain]; omega)
  | succ steps ih =>
      cases hQueue : s.queue with
      | nil => simp [Ordering.drain, hQueue]
      | cons name rest =>
          have hPlaced := (h.place_spec hQueue).1
          have hLength : bundles.length ≤ (s.place bundles name rest).placed.length + steps := by
            rw [hPlaced, List.length_append, List.length_singleton]
            omega
          simpa [Ordering.drain, hQueue] using ih (h.place hQueue) hLength

theorem sound_final (hNames : (bundles.map Bundle.name).Nodup) : Sound bundles (final bundles) :=
  (sound_start hNames).drain bundles.length

theorem final_queue (hNames : (bundles.map Bundle.name).Nodup) : (final bundles).queue = [] :=
  (sound_start hNames).drain_queue (Nat.le_add_left ..)

end Simgen.Bundle.Ordering
