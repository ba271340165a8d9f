import Simgen.Proofs.Bundle.Independence
import Mathlib.Data.Finset.Lattice.Fold
import Mathlib.Order.Lattice.Nat

/-! First come, first served. A bundle is released when the last bundle that it embeds is placed,
and bundles are placed in the order of their release; those released together follow the list.
This rule leaves only one order, so that it says what the outcome is without running the queue.
In particular the outcome, taken as the list, is its own outcome. -/
namespace Simgen.Bundle

variable {bundles others : List Bundle} {order : List String}

/-- Later entries of a list without repetitions are those with a larger index. -/
theorem pairwise_iff_idxOf {names : List String} (hNodup : names.Nodup)
    {rel : String → String → Prop} :
    names.Pairwise rel ↔
      ∀ a ∈ names, ∀ b ∈ names, names.idxOf a < names.idxOf b → rel a b := by
  rw [List.pairwise_iff_getElem]
  constructor
  · intro h a ha b hb hLess
    have hRel := h (names.idxOf a) (names.idxOf b) (List.idxOf_lt_length_of_mem ha)
      (List.idxOf_lt_length_of_mem hb) hLess
    rwa [List.getElem_idxOf, List.getElem_idxOf] at hRel
  · intro h i j hi hj hLess
    apply h _ (List.getElem_mem hi) _ (List.getElem_mem hj)
    rwa [hNodup.idxOf_getElem, hNodup.idxOf_getElem]

instance (outer inner : String) : Decidable (Embeds bundles outer inner) :=
  decidable_of_iff _ (mem_embeddings_iff outer inner)

/-- The bundles of the list that `name` embeds, each once. -/
def parts (bundles : List Bundle) (name : String) : Finset String :=
  ((bundles.map Bundle.name).filter fun inner => Embeds bundles name inner).toFinset

@[simp] theorem mem_parts_iff {name inner : String} :
    inner ∈ parts bundles name ↔ Embeds bundles name inner := by
  simp only [parts, List.mem_toFinset, List.mem_filter, decide_eq_true_eq]
  exact ⟨fun h => h.2, fun h => ⟨h.1, h⟩⟩

/-- The place in `order`, counted from one, of the last bundle that `name` embeds. It is zero
where `name` embeds none. -/
def lastPlace (bundles : List Bundle) (order : List String) (name : String) : Nat :=
  (parts bundles name).sup fun inner => order.idxOf inner + 1

/-- The last bundle that `a` embeds is placed before the last that `b` embeds; or it is the same
one, and `a` stands before `b` in the list. -/
def ReleasedBefore (bundles : List Bundle) (order : List String) (a b : String) : Prop :=
  lastPlace bundles order a < lastPlace bundles order b ∨
    lastPlace bundles order a = lastPlace bundles order b ∧
      (bundles.map Bundle.name).idxOf a < (bundles.map Bundle.name).idxOf b

/-- An order of all bundles, each behind what it embeds, in which they follow their release. -/
structure Served (bundles : List Bundle) (order : List String) : Prop where
  perm : order.Perm (bundles.map Bundle.name)
  declarable : Ordering.Declarable bundles order
  released : order.Pairwise (ReleasedBefore bundles order)

theorem lastPlace_append {name : String}
    (hParts : ∀ inner, Embeds bundles name inner → inner ∈ order) (more : List String) :
    lastPlace bundles (order ++ more) name = lastPlace bundles order name := by
  apply Finset.sup_congr rfl
  intro inner hInner
  rw [List.idxOf_append_of_mem (hParts inner (mem_parts_iff.mp hInner))]

theorem lastPlace_le {name : String} (hParts : ∀ inner, Embeds bundles name inner → inner ∈ order) :
    lastPlace bundles order name ≤ order.length := by
  apply Finset.sup_le
  intro inner hInner
  exact List.idxOf_lt_length_of_mem (hParts inner (mem_parts_iff.mp hInner))

theorem idxOf_lt_lastPlace (order : List String) {name inner : String}
    (hEmbeds : Embeds bundles name inner) :
    order.idxOf inner < lastPlace bundles order name :=
  Finset.le_sup (f := fun inner => order.idxOf inner + 1) (mem_parts_iff.mpr hEmbeds)

/-- A bundle that lacked nothing but the one placed now is released now. -/
theorem lastPlace_concat {name last : String} (hFresh : last ∉ order)
    (hEmbeds : Embeds bundles name last)
    (hParts : ∀ inner, Embeds bundles name inner → inner ∈ order ++ [last]) :
    lastPlace bundles (order ++ [last]) name = order.length + 1 := by
  have hLess := idxOf_lt_lastPlace (order ++ [last]) hEmbeds
  rw [List.idxOf_append_of_notMem hFresh, List.idxOf_cons_self] at hLess
  have hMost := lastPlace_le hParts
  rw [List.length_append, List.length_singleton] at hMost
  omega

namespace Ordering

variable {s : Ordering}

/-- What is placed and what is queued follow each other as they were released. -/
def Prompt (bundles : List Bundle) (s : Ordering) : Prop :=
  (s.placed ++ s.queue).Pairwise (ReleasedBefore bundles s.placed)

/-- Bundles of the list that are released together are in list order. -/
theorem pairwise_releasedBefore (hNames : (bundles.map Bundle.name).Nodup) {together : List String}
    (hListed : together.Sublist (bundles.map Bundle.name)) (place : Nat)
    (hPlace : ∀ n ∈ together, lastPlace bundles order n = place) :
    together.Pairwise (ReleasedBefore bundles order) := by
  have hIndices : (bundles.map Bundle.name).Pairwise fun a b =>
      (bundles.map Bundle.name).idxOf a < (bundles.map Bundle.name).idxOf b :=
    (pairwise_iff_idxOf hNames).mpr fun _ _ _ _ hLess => hLess
  refine (hIndices.sublist hListed).imp_of_mem ?_
  intro a b ha hb hLess
  exact Or.inr ⟨(hPlace a ha).trans (hPlace b hb).symm, hLess⟩

theorem prompt_start (hNames : (bundles.map Bundle.name).Nodup) :
    Prompt bundles (start bundles) := by
  change ([] ++ (start bundles).queue).Pairwise (ReleasedBefore bundles [])
  rw [List.nil_append, start_queue hNames]
  apply pairwise_releasedBefore hNames List.filter_sublist 0
  intro n hn
  have hNone := (unplaced_eq_zero_iff [] n).mp (of_decide_eq_true (List.mem_filter.mp hn).2)
  exact Nat.le_zero.mp (lastPlace_le hNone)

/-- One step: the bundles released by the one placed join the queue behind all others. -/
theorem Prompt.place (hNames : (bundles.map Bundle.name).Nodup) (hs : Sound bundles s)
    (h : Prompt bundles s) {name : String} {rest : List String} (hQueue : s.queue = name :: rest) :
    Prompt bundles (s.place bundles name rest) := by
  obtain ⟨hPlaced, hNext, -⟩ := hs.place_spec hQueue
  have hParts : ∀ n ∈ s.placed ++ s.queue, ∀ inner, Embeds bundles n inner → inner ∈ s.placed :=
    fun n hn => (unplaced_eq_zero_iff _ n).mp ((hs.mem_iff n).mp hn).2
  -- The last of its parts was placed in this step.
  have hReleased : ∀ n ∈ (embedders bundles name).dedup.filter
      (fun n => unplaced bundles (s.placed ++ [name]) n = 0),
      lastPlace bundles (s.placed ++ [name]) n = s.placed.length + 1 := by
    intro n hn
    obtain ⟨hEmbedder, hZero⟩ := List.mem_filter.mp hn
    rw [dedup_embedders hNames, ← embeds_iff_mem_filter] at hEmbedder
    exact lastPlace_concat (hs.head_fresh hQueue) hEmbedder
      ((unplaced_eq_zero_iff _ n).mp (of_decide_eq_true hZero))
  unfold Prompt at h ⊢
  rw [hPlaced, hNext, ← List.append_assoc, List.append_assoc s.placed, List.singleton_append,
    ← hQueue, List.pairwise_append]
  refine ⟨?_, ?_, ?_⟩
  · refine h.imp_of_mem ?_
    intro a b ha hb hBefore
    rwa [ReleasedBefore, lastPlace_append (hParts a ha), lastPlace_append (hParts b hb)]
  · refine pairwise_releasedBefore hNames (List.filter_sublist.trans ?_) _ hReleased
    rw [dedup_embedders hNames]
    exact List.filter_sublist.map Bundle.name
  · intro a ha b hb
    left
    rw [hReleased b hb, lastPlace_append (hParts a ha)]
    exact Nat.lt_succ_of_le (lastPlace_le (hParts a ha))

/-- A run of any length. -/
theorem Prompt.drain (hNames : (bundles.map Bundle.name).Nodup) (hs : Sound bundles s)
    (h : Prompt bundles s) (steps : Nat) : Prompt bundles (s.drain bundles steps) := by
  induction steps generalizing s with
  | zero => exact h
  | succ steps ih =>
      cases hQueue : s.queue with
      | nil => simpa [Ordering.drain, hQueue] using h
      | cons name rest =>
          simpa [Ordering.drain, hQueue] using ih (hs.place hQueue) (h.place hNames hs hQueue)

theorem served_final (hNames : (bundles.map Bundle.name).Nodup)
    (hLength : (final bundles).placed.length = bundles.length) :
    Served bundles (final bundles).placed := by
  have hPrompt : Prompt bundles (final bundles) :=
    (prompt_start hNames).drain hNames (sound_start hNames) _
  rw [Prompt, final_queue hNames, List.append_nil] at hPrompt
  exact ⟨final_placed_perm hNames hLength, (sound_final hNames).declarable, hPrompt⟩

end Ordering

/-- Two such orders that begin alike go on alike: which bundle comes next depends only on what is
placed already. -/
theorem Served.rest_eq {first second : List String} (hFirst : Served bundles first)
    (hSecond : Served bundles second) (before : List String) {rest rest' : List String}
    (hSplit : first = before ++ rest) (hSplit' : second = before ++ rest') : rest = rest' := by
  have hPerm : rest.Perm rest' := by
    rw [← List.perm_append_left_iff before, ← hSplit, ← hSplit']
    exact hFirst.perm.trans hSecond.perm.symm
  induction rest generalizing before rest' with
  | nil => exact hPerm.nil_eq
  | cons x rest ih =>
      cases rest' with
      | nil => exact absurd hPerm.eq_nil (List.cons_ne_nil x rest)
      | cons y rest' =>
          have hPartsX := hFirst.declarable before x rest hSplit
          have hPartsY := hSecond.declarable before y rest' hSplit'
          have hSame : x = y := by
            by_contra hNe
            have hy : y ∈ rest := List.mem_of_ne_of_mem (Ne.symm hNe)
              (hPerm.mem_iff.mpr List.mem_cons_self)
            have hx : x ∈ rest' := List.mem_of_ne_of_mem hNe (hPerm.mem_iff.mp List.mem_cons_self)
            have hXFirst := hFirst.released
            have hYFirst := hSecond.released
            rw [hSplit, List.pairwise_append, List.pairwise_cons] at hXFirst
            rw [hSplit', List.pairwise_append, List.pairwise_cons] at hYFirst
            have hXY := hXFirst.2.1.1 y hy
            have hYX := hYFirst.2.1.1 x hx
            -- All that either of them embeds is placed already, so both orders compare them alike.
            rw [ReleasedBefore, lastPlace_append hPartsX, lastPlace_append hPartsY] at hXY hYX
            omega
          subst hSame
          rw [ih (before ++ [x]) (by simpa using hSplit) (by simpa using hSplit') hPerm.cons_inv]

theorem Served.unique {first second : List String} (hFirst : Served bundles first)
    (hSecond : Served bundles second) : first = second :=
  hFirst.rest_eq hSecond [] rfl rfl

theorem Served.idxOf_lt (h : Served bundles order) {name inner : String}
    (hEmbeds : Embeds bundles name inner) : order.idxOf inner < order.idxOf name :=
  (h.declarable.idxOf_lt (h.perm.mem_iff.mpr hEmbeds.outer_mem) hEmbeds).2

theorem Served.not_onCycle (h : Served bundles order) (name : String) : ¬ OnCycle bundles name := by
  intro hCycle
  have hReaches : ReachesCycle bundles name := ⟨name, .refl, hCycle⟩
  exact h.declarable.not_reachesCycle (h.perm.mem_iff.mpr hReaches.mem) hReaches

theorem final_length_of_acyclic (hNames : (bundles.map Bundle.name).Nodup)
    (hAcyclic : ∀ name, ¬ OnCycle bundles name) :
    (Ordering.final bundles).placed.length = bundles.length := by
  by_contra hLength
  obtain ⟨name, hCycle⟩ := (Ordering.exists_onCycle_iff hNames).mpr hLength
  exact hAcyclic name hCycle

/-- Ordering succeeds with the one order in which bundles follow their release. -/
theorem arrange_eq_ok_iff_served (hNames : (bundles.map Bundle.name).Nodup) :
    (arrange bundles).outcome = .ok order ↔ Served bundles order := by
  rw [arrange_eq_ok_iff]
  constructor
  · rintro ⟨hLength, rfl⟩
    exact Ordering.served_final hNames hLength
  · intro hServed
    have hLength := final_length_of_acyclic hNames hServed.not_onCycle
    exact ⟨hLength, (Ordering.served_final hNames hLength).unique hServed⟩

theorem embeds_iff_of_perm (hPerm : others.Perm bundles) (outer inner : String) :
    Embeds others outer inner ↔ Embeds bundles outer inner := by
  simp only [Embeds, hPerm.mem_iff, (hPerm.map Bundle.name).mem_iff]

theorem lastPlace_of_perm (hPerm : others.Perm bundles) (name : String) :
    lastPlace others order name = lastPlace bundles order name := by
  have hParts : parts others name = parts bundles name := by
    ext inner
    rw [mem_parts_iff, mem_parts_iff, embeds_iff_of_perm hPerm]
  rw [lastPlace, hParts, lastPlace]

/-- Listed in the order that comes out, the same bundles are ordered as they are listed. -/
theorem arrange_rearranged (hNames : (bundles.map Bundle.name).Nodup)
    (hOrder : (arrange bundles).outcome = .ok order) (hPerm : others.Perm bundles)
    (hListed : others.map Bundle.name = order) : (arrange others).outcome = .ok order := by
  have hNames' : (others.map Bundle.name).Nodup := (hPerm.map Bundle.name).nodup_iff.mpr hNames
  have hServed := (arrange_eq_ok_iff_served hNames).mp hOrder
  have hNodup : order.Nodup := hServed.perm.nodup_iff.mpr hNames
  rw [arrange_eq_ok_iff_served hNames']
  refine ⟨by rw [hListed], ?_, ?_⟩
  · intro before name after hSplit inner hEmbeds
    rw [embeds_iff_of_perm hPerm] at hEmbeds
    exact hServed.declarable before name after hSplit inner hEmbeds
  · rw [pairwise_iff_idxOf hNodup]
    intro a ha b hb hLess
    have hBefore := (pairwise_iff_idxOf hNodup).mp hServed.released a ha b hb hLess
    -- Those released together stood in list order before, and so they do now.
    rw [ReleasedBefore] at hBefore ⊢
    rw [lastPlace_of_perm hPerm, lastPlace_of_perm hPerm, hListed]
    omega

/-- Six bundles in an order that cannot be declared. The lamp is listed before the port, so that
what only waits for it is released before what waits for the port. -/
def furniture : List Bundle :=
  [{ name := "Desk", members := [⟨"frame", .composite "Frame", none⟩] },
    { name := "Rack"
      members := [⟨"panel", .composite "Panel", none⟩, ⟨"port", .composite "Port", none⟩] },
    { name := "Frame", members := [⟨"port", .composite "Port", none⟩] },
    { name := "Panel"
      members := [⟨"left", .composite "Lamp", none⟩, ⟨"right", .composite "Lamp", none⟩] },
    { name := "Lamp", members := [⟨"on", .primitive .bool, some "false"⟩] },
    { name := "Port", members := [] }]

def furnitureOrder : List String := ["Lamp", "Port", "Panel", "Frame", "Rack", "Desk"]

/-- The same bundles in the order in which they are declared. -/
def furnitureInOrder : List Bundle :=
  furnitureOrder.filterMap fun name => furniture.find? fun b => b.name = name

theorem furniture_rearranged :
    (furniture.map Bundle.name).Nodup ∧ (arrange furniture).outcome = .ok furnitureOrder ∧
      furnitureInOrder.Perm furniture ∧ furnitureInOrder.map Bundle.name = furnitureOrder ∧
      (arrange furnitureInOrder).outcome = .ok furnitureOrder := by
  have hNames : (furniture.map Bundle.name).Nodup := by decide
  have hOrder : (arrange furniture).outcome = .ok furnitureOrder := by
    rw [arrange_eq_ok_iff]
    decide
  have hPerm : furnitureInOrder.Perm furniture := by decide
  have hListed : furnitureInOrder.map Bundle.name = furnitureOrder := by decide
  exact ⟨hNames, hOrder, hPerm, hListed, arrange_rearranged hNames hOrder hPerm hListed⟩

end Simgen.Bundle
