import Simgen.Proofs.Bundle.Cycle

/-! What the order of bundles depends on: the names in their places, and which bundle of the
list embeds which. Two lists that agree on this are ordered alike, step by step, although
their counters differ: a bundle with two members of one type waits twice for that type, but
both waits end in the same step. -/
namespace Simgen.Bundle

/-- The bundle has at least one member of this composite type. -/
def HasMemberOf (b : Bundle) (type : String) : Prop := ∃ m ∈ b.members, m.type = .composite type

/-- Bundles of one name that agree on which of some types they have members of. What these
members are called, where they stand, how many there are and what other members there are is
left open. -/
structure Alike (types : List String) (b c : Bundle) : Prop where
  name : b.name = c.name
  members : ∀ type ∈ types, b.HasMemberOf type ↔ c.HasMemberOf type

instance (b : Bundle) (type : String) : Decidable (b.HasMemberOf type) :=
  inferInstanceAs (Decidable (∃ m ∈ b.members, m.type = .composite type))

instance (types : List String) (b c : Bundle) : Decidable (Alike types b c) :=
  decidable_of_iff (b.name = c.name ∧ ∀ type ∈ types, b.HasMemberOf type ↔ c.HasMemberOf type)
    ⟨fun ⟨hName, hMembers⟩ => ⟨hName, hMembers⟩, fun h => ⟨h.name, h.members⟩⟩

variable {bundles others : List Bundle} {types : List String}

theorem Alike.mem_embedded_iff {b c : Bundle} (h : Alike types b c) (inner : String) :
    inner ∈ b.embedded types ↔ inner ∈ c.embedded types := by
  rw [Bundle.mem_embedded_iff, Bundle.mem_embedded_iff]
  exact and_congr_right fun hInner => h.members inner hInner

theorem map_name_of_alike (h : List.Forall₂ (Alike types) bundles others) :
    bundles.map Bundle.name = others.map Bundle.name := by
  induction h with
  | nil => rfl
  | cons hAlike _ ih => rw [List.map_cons, List.map_cons, hAlike.name, ih]

/-- A bundle is embedded by the bundles in the same places of both lists. -/
theorem filter_embedded_of_alike (h : List.Forall₂ (Alike types) bundles others)
    (inner : String) :
    (bundles.filter fun b => inner ∈ b.embedded types).map Bundle.name =
      (others.filter fun c => inner ∈ c.embedded types).map Bundle.name := by
  induction h with
  | nil => rfl
  | @cons b c _ _ hAlike _ ih =>
      have hSame := hAlike.mem_embedded_iff inner
      by_cases hInner : inner ∈ c.embedded types
      · simp [hInner, hSame.mpr hInner, hAlike.name, ih]
      · simp [hInner, mt hSame.mp hInner, ih]

theorem embeds_iff_mem_filter (outer inner : String) :
    Embeds bundles outer inner ↔ outer ∈
      (bundles.filter fun b => inner ∈ b.embedded (bundles.map Bundle.name)).map Bundle.name := by
  simp only [Embeds, List.mem_map, List.mem_filter, decide_eq_true_eq, Bundle.mem_embedded_iff]
  constructor
  · rintro ⟨hInner, b, hb, hName, hMember⟩
    exact ⟨b, ⟨hb, hInner, hMember⟩, hName⟩
  · rintro ⟨b, ⟨hb, hInner, hMember⟩, hName⟩
    exact ⟨hInner, b, hb, hName, hMember⟩

theorem embeds_iff_of_alike (h : List.Forall₂ (Alike (bundles.map Bundle.name)) bundles others)
    (outer inner : String) : Embeds bundles outer inner ↔ Embeds others outer inner := by
  rw [embeds_iff_mem_filter, embeds_iff_mem_filter, ← map_name_of_alike h,
    filter_embedded_of_alike h]

namespace Ordering

variable {s t : Ordering}

/-- Names in runs, one run for each bundle in list order, come down to the names with a run
that is not empty. -/
theorem dedup_flatMap_replicate (hNames : (bundles.map Bundle.name).Nodup) (times : Bundle → Nat) :
    (bundles.flatMap fun b => List.replicate (times b) b.name).dedup =
      (bundles.filter fun b => times b ≠ 0).map Bundle.name := by
  induction bundles with
  | nil => rfl
  | cons b rest ih =>
      rw [List.map_cons, List.nodup_cons] at hNames
      have hApart : List.Disjoint (List.replicate (times b) b.name)
          (rest.flatMap fun c => List.replicate (times c) c.name) := by
        intro name hHere hLater
        obtain ⟨c, hc, hName⟩ := List.mem_flatMap.mp hLater
        rw [List.eq_of_mem_replicate hHere] at hName
        exact hNames.1 (List.eq_of_mem_replicate hName ▸ List.mem_map_of_mem hc)
      rw [List.flatMap_cons, hApart.dedup_append, ih hNames.2]
      by_cases hNone : times b = 0
      · simp [hNone]
      · simp [hNone, List.replicate_dedup hNone]

/-- However often they embed it, the bundles that embed `name` are released in list order. -/
theorem dedup_embedders (hNames : (bundles.map Bundle.name).Nodup) (name : String) :
    (embedders bundles name).dedup =
      (bundles.filter fun b => name ∈ b.embedded (bundles.map Bundle.name)).map Bundle.name := by
  have hRuns : embedders bundles name = bundles.flatMap fun b =>
      List.replicate ((b.embedded (bundles.map Bundle.name)).count name) b.name := by
    simp only [embedders, List.map_const', List.count, List.countP_eq_length_filter]
    rfl
  rw [hRuns, dedup_flatMap_replicate hNames]
  simp [List.count_eq_zero]

section alike

variable (hAlike : List.Forall₂ (Alike (bundles.map Bundle.name)) bundles others)

include hAlike

/-- The counters of two such lists may differ, but they run out together. -/
theorem unplaced_eq_zero_iff_of_alike (placed : List String) (name : String) :
    unplaced bundles placed name = 0 ↔ unplaced others placed name = 0 := by
  simp only [unplaced_eq_zero_iff, embeds_iff_of_alike hAlike]

variable (hNames : (bundles.map Bundle.name).Nodup)

include hNames

theorem dedup_embedders_of_alike (name : String) :
    (embedders bundles name).dedup = (embedders others name).dedup := by
  have hSame := map_name_of_alike hAlike
  rw [dedup_embedders hNames, dedup_embedders (hSame ▸ hNames), ← hSame,
    filter_embedded_of_alike hAlike]

/-- One step: if the same bundles are placed and queued in the same order, then this is so
again after the head of the queue has been placed. -/
theorem place_alike (hs : Sound bundles s) (ht : Sound others t) (hPlaced : s.placed = t.placed)
    {name : String} {rest : List String} (hQueue : s.queue = name :: rest)
    (hQueue' : t.queue = name :: rest) :
    (s.place bundles name rest).placed = (t.place others name rest).placed ∧
      (s.place bundles name rest).queue = (t.place others name rest).queue := by
  obtain ⟨hNext, hReleased, -⟩ := hs.place_spec hQueue
  obtain ⟨hNext', hReleased', -⟩ := ht.place_spec hQueue'
  rw [hNext, hNext', hReleased, hReleased', hPlaced]
  refine ⟨rfl, ?_⟩
  rw [dedup_embedders_of_alike hAlike hNames]
  congr 1
  apply List.filter_congr
  intro n _
  exact decide_eq_decide.mpr (unplaced_eq_zero_iff_of_alike hAlike _ n)

/-- A run of any length. -/
theorem drain_alike (hs : Sound bundles s) (ht : Sound others t) (hPlaced : s.placed = t.placed)
    (hQueue : s.queue = t.queue) (steps : Nat) :
    (s.drain bundles steps).placed = (t.drain others steps).placed := by
  induction steps generalizing s t with
  | zero => exact hPlaced
  | succ steps ih =>
      cases hHead : s.queue with
      | nil => simpa [Ordering.drain, hHead, ← hQueue] using hPlaced
      | cons name rest =>
          have hHead' : t.queue = name :: rest := hQueue ▸ hHead
          obtain ⟨hNext, hReleased⟩ :=
            place_alike hAlike hNames hs ht hPlaced hHead hHead'
          simpa [Ordering.drain, hHead, hHead'] using
            ih (hs.place hHead) (ht.place hHead') hNext hReleased

theorem final_alike :
    (final bundles).placed = (final others).placed ∧
      (final bundles).blocked = (final others).blocked := by
  have hSame := map_name_of_alike hAlike
  have hNames' : (others.map Bundle.name).Nodup := hSame ▸ hNames
  have hLength : bundles.length = others.length := hAlike.length_eq
  have hZero := unplaced_eq_zero_iff_of_alike hAlike
  have hQueue : (start bundles).queue = (start others).queue := by
    simp only [start_queue hNames, start_queue hNames', hSame, hZero]
  have hPlaced : (final bundles).placed = (final others).placed := by
    rw [final, final, hLength]
    exact drain_alike hAlike hNames (sound_start hNames) (sound_start hNames') rfl hQueue _
  refine ⟨hPlaced, ?_⟩
  simp only [final_blocked_eq hNames, final_blocked_eq hNames', hSame, hPlaced, ne_eq, hZero]

end alike

end Ordering

/-- Two lists of bundles with the same distinct names in the same places, in which a bundle has a
member of a bundle's type in both or in neither, are ordered alike: the same order comes out,
or the same bundles are blamed for a cycle. -/
theorem arrange_alike (hNames : (bundles.map Bundle.name).Nodup)
    (hAlike : List.Forall₂ (Alike (bundles.map Bundle.name)) bundles others) :
    (arrange bundles).outcome = (arrange others).outcome := by
  obtain ⟨hPlaced, hBlocked⟩ := Ordering.final_alike hAlike hNames
  simp only [arrange_outcome, declarationOrder, hPlaced, hBlocked, hAlike.length_eq]

/-- Three bundles, each with one member for each bundle that it embeds. -/
def spare : List Bundle :=
  [{ name := "Top"
     members := [⟨"mid", .composite "Mid", none⟩, ⟨"leaf", .composite "Leaf", none⟩] },
    { name := "Mid", members := [⟨"leaf", .composite "Leaf", none⟩] },
    { name := "Leaf", members := [] }]

/-- The same embeddings, some of them twice and in another order, among members of primitive and
of unknown types. -/
def crowded : List Bundle :=
  [{ name := "Top"
     members := [⟨"a", .composite "Leaf", none⟩, ⟨"n", .primitive .uint8, some "0"⟩,
      ⟨"b", .composite "Mid", none⟩, ⟨"c", .composite "Leaf", none⟩] },
    { name := "Mid"
      members := [⟨"x", .composite "Leaf", none⟩, ⟨"h", .composite "Header", none⟩,
        ⟨"y", .composite "Leaf", none⟩] },
    { name := "Leaf", members := [⟨"v", .primitive .int32, some "0"⟩] }]

theorem crowded_arranged :
    (spare.map Bundle.name).Nodup ∧
      List.Forall₂ (Alike (spare.map Bundle.name)) spare crowded ∧
      (arrange spare).outcome = (arrange crowded).outcome ∧
      (arrange crowded).outcome = .ok ["Leaf", "Mid", "Top"] := by
  have hNames : (spare.map Bundle.name).Nodup := by decide
  have hAlike : List.Forall₂ (Alike (spare.map Bundle.name)) spare crowded := by decide
  refine ⟨hNames, hAlike, arrange_alike hNames hAlike, ?_⟩
  rw [arrange_eq_ok_iff]
  decide

end Simgen.Bundle
