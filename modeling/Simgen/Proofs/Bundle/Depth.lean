import Simgen.Proofs.Bundle.Release

/-! The order of bundles by depth. Bundles that embed none of the list have depth zero, and any
other bundle is one deeper than the deepest that it embeds. Shallow bundles are declared first;
those of one depth follow the last bundle that each of them embeds, and then the list. -/
namespace Simgen.Bundle

variable {bundles : List Bundle} {order : List String}

/-- The depth of embedding below `name`, as far as so many levels show it. -/
def depthWithin (bundles : List Bundle) : Nat → String → Nat
  | 0, _ => 0
  | levels + 1, name => (parts bundles name).sup fun inner => depthWithin bundles levels inner + 1

/-- The depth of embedding below `name`. Without a cycle there are no more levels than bundles. -/
def depth (bundles : List Bundle) (name : String) : Nat := depthWithin bundles bundles.length name

/-- Zero for what embeds none of the list, otherwise one more than the deepest bundle embedded. -/
structure IsDepth (bundles : List Bundle) (depth : String → Nat) : Prop where
  flat : ∀ name, (∀ inner, ¬ Embeds bundles name inner) → depth name = 0
  deeper : ∀ name inner, Embeds bundles name inner → depth inner < depth name
  deepest : ∀ name, (∃ inner, Embeds bundles name inner) →
    ∃ inner, Embeds bundles name inner ∧ depth name = depth inner + 1

/-- An order of all bundles by depth. Where `a` comes before `b`, it is no deeper. Bundles of depth
zero keep the order of the list. Bundles of any other depth follow the place of the last
bundle that each embeds, and the list where that is the same bundle. -/
structure Layered (bundles : List Bundle) (order : List String) : Prop where
  perm : order.Perm (bundles.map Bundle.name)
  rising : order.Pairwise fun a b => depth bundles a ≤ depth bundles b
  flat : order.Pairwise fun a b => depth bundles a = 0 → depth bundles b = 0 →
    (bundles.map Bundle.name).idxOf a < (bundles.map Bundle.name).idxOf b
  level : order.Pairwise fun a b => depth bundles a = depth bundles b → 0 < depth bundles a →
    ReleasedBefore bundles order a b

/-- As many levels as bundles are declared before `name` show all of its depth. -/
theorem Served.depthWithin_succ (h : Served bundles order) {levels : Nat} {name : String}
    (hLevels : order.idxOf name ≤ levels) :
    depthWithin bundles (levels + 1) name = depthWithin bundles levels name := by
  induction levels generalizing name with
  | zero =>
      apply Nat.le_zero.mp
      apply Finset.sup_le
      intro inner hInner
      have hLess := h.idxOf_lt (mem_parts_iff.mp hInner)
      omega
  | succ levels ih =>
      apply Finset.sup_congr rfl
      intro inner hInner
      have hLess := h.idxOf_lt (mem_parts_iff.mp hInner)
      rw [ih (by omega)]

theorem Served.depth_eq (h : Served bundles order) (name : String) :
    depth bundles name = (parts bundles name).sup fun inner => depth bundles inner + 1 := by
  have hLength : order.length = bundles.length := by simpa using h.perm.length_eq
  have hLevels : order.idxOf name ≤ bundles.length := hLength ▸ List.idxOf_le_length
  exact (h.depthWithin_succ hLevels).symm

theorem Served.isDepth (h : Served bundles order) : IsDepth bundles (depth bundles) := by
  refine ⟨?_, ?_, ?_⟩
  · intro name hNone
    rw [h.depth_eq]
    apply Nat.le_zero.mp
    apply Finset.sup_le
    intro inner hInner
    exact absurd (mem_parts_iff.mp hInner) (hNone inner)
  · intro name inner hEmbeds
    rw [h.depth_eq name]
    exact Finset.le_sup (f := fun inner => depth bundles inner + 1)
      (mem_parts_iff.mpr hEmbeds)
  · rintro name ⟨part, hPart⟩
    obtain ⟨inner, hInner, hDepth⟩ := Finset.exists_mem_eq_sup (parts bundles name)
      ⟨part, mem_parts_iff.mpr hPart⟩ fun inner => depth bundles inner + 1
    exact ⟨inner, mem_parts_iff.mp hInner, (h.depth_eq name).trans hDepth⟩

theorem IsDepth.exists_embeds {measure : String → Nat} (h : IsDepth bundles measure) {name : String}
    (hPositive : 0 < measure name) :
    ∃ inner, Embeds bundles name inner ∧ measure name = measure inner + 1 := by
  apply h.deepest
  by_contra hNone
  push Not at hNone
  have := h.flat name hNone
  omega

theorem IsDepth.lastPlace_eq_zero {measure : String → Nat} (h : IsDepth bundles measure)
    {name : String} (hFlat : measure name = 0) (order : List String) :
    lastPlace bundles order name = 0 := by
  apply Nat.le_zero.mp
  apply Finset.sup_le
  intro inner hInner
  have := h.deeper name inner (mem_parts_iff.mp hInner)
  omega

/-- In the order of release, no bundle comes before a shallower one. The induction is on the depth
of the first: the deepest bundle that it embeds is placed no later than the last one that the
second embeds. -/
theorem Served.depth_le (h : Served bundles order) (hNodup : order.Nodup) {a b : String}
    (ha : a ∈ order) (hb : b ∈ order) (hLess : order.idxOf a < order.idxOf b) :
    depth bundles a ≤ depth bundles b := by
  induction hDepth : depth bundles a generalizing a b with
  | zero => exact Nat.zero_le _
  | succ below ih =>
      have hPositive : 0 < depth bundles a := hDepth ▸ Nat.succ_pos below
      obtain ⟨x, hx, hDeepest⟩ := h.isDepth.exists_embeds hPositive
      have hReleased := (pairwise_iff_idxOf hNodup).mp h.released a ha b hb hLess
      have hPlace := idxOf_lt_lastPlace order hx
      have hNoLater : order.idxOf x < lastPlace bundles order b := by
        rcases hReleased with hEarlier | ⟨hSame, -⟩
        · omega
        · omega
      obtain ⟨y, hy, hLast⟩ := Finset.lt_sup_iff.mp hNoLater
      rw [mem_parts_iff] at hy
      have hDeeper := h.isDepth.deeper b y hy
      have hxOrder : x ∈ order := h.perm.mem_iff.mpr hx.1
      have hyOrder : y ∈ order := h.perm.mem_iff.mpr hy.1
      rcases Nat.lt_or_ge (order.idxOf x) (order.idxOf y) with hEarlier | hLater
      · have := ih hxOrder hyOrder hEarlier (by omega)
        omega
      · have hSame : x = y := (List.idxOf_inj hxOrder).mp (by omega)
        subst hSame
        omega

theorem Served.layered (h : Served bundles order) (hNodup : order.Nodup) :
    Layered bundles order := by
  refine ⟨h.perm, ?_, ?_, ?_⟩
  · rw [pairwise_iff_idxOf hNodup]
    intro a ha b hb hLess
    exact h.depth_le hNodup ha hb hLess
  · refine h.released.imp ?_
    intro a b hReleased hFlatA hFlatB
    rw [ReleasedBefore, h.isDepth.lastPlace_eq_zero hFlatA, h.isDepth.lastPlace_eq_zero hFlatB]
      at hReleased
    omega
  · exact h.released.imp fun hReleased _ _ => hReleased

/-- What is shallower comes first. -/
theorem Layered.idxOf_lt (h : Layered bundles order) (hNodup : order.Nodup) {x y : String}
    (hx : x ∈ order) (hy : y ∈ order) (hLess : depth bundles x < depth bundles y) :
    order.idxOf x < order.idxOf y := by
  by_contra hNot
  rcases Nat.lt_or_eq_of_le (Nat.le_of_not_lt hNot) with hLater | hSame
  · have := (pairwise_iff_idxOf hNodup).mp h.rising y hy x hx hLater
    omega
  · rw [(List.idxOf_inj hy).mp hSame] at hLess
    exact Nat.lt_irrefl _ hLess

theorem Layered.declarable (h : Layered bundles order) (hNodup : order.Nodup)
    (hDepth : IsDepth bundles (depth bundles)) : Ordering.Declarable bundles order := by
  intro before name after hSplit inner hEmbeds
  have hName : name ∈ order := h.perm.mem_iff.mpr hEmbeds.outer_mem
  have hInner : inner ∈ order := h.perm.mem_iff.mpr hEmbeds.1
  have hEarlier := h.idxOf_lt hNodup hInner hName (hDepth.deeper name inner hEmbeds)
  by_contra hNot
  have hFresh : name ∉ before := by
    intro hBefore
    rw [hSplit, List.nodup_append] at hNodup
    exact hNodup.2.2 name hBefore name List.mem_cons_self rfl
  rw [hSplit, List.idxOf_append_of_notMem hNot, List.idxOf_append_of_notMem hFresh,
    List.idxOf_cons_self] at hEarlier
  omega

/-- The deeper bundle is released later: the deepest bundle that it embeds comes behind all that
the other embeds. -/
theorem Layered.lastPlace_lt (h : Layered bundles order) (hNodup : order.Nodup)
    (hDepth : IsDepth bundles (depth bundles)) {a b : String}
    (hLess : depth bundles a < depth bundles b) :
    lastPlace bundles order a < lastPlace bundles order b := by
  obtain ⟨y, hy, hDeepest⟩ := hDepth.exists_embeds (Nat.zero_lt_of_lt hLess)
  have hPlace := idxOf_lt_lastPlace order hy
  refine (Finset.sup_lt_iff (Nat.zero_lt_of_lt hPlace)).mpr ?_
  intro x hx
  rw [mem_parts_iff] at hx
  have hShallow := hDepth.deeper a x hx
  have hEarlier := h.idxOf_lt hNodup (h.perm.mem_iff.mpr hx.1) (h.perm.mem_iff.mpr hy.1)
    (by omega : depth bundles x < depth bundles y)
  omega

theorem Layered.served (h : Layered bundles order) (hNodup : order.Nodup)
    (hDepth : IsDepth bundles (depth bundles)) : Served bundles order := by
  refine ⟨h.perm, h.declarable hNodup hDepth, ?_⟩
  rw [pairwise_iff_idxOf hNodup]
  intro a ha b hb hLess
  have hRising := (pairwise_iff_idxOf hNodup).mp h.rising a ha b hb hLess
  rcases Nat.lt_or_eq_of_le hRising with hShallower | hSame
  · exact Or.inl (h.lastPlace_lt hNodup hDepth hShallower)
  · rcases Nat.eq_zero_or_pos (depth bundles a) with hZero | hPositive
    · have hListed := (pairwise_iff_idxOf hNodup).mp h.flat a ha b hb hLess hZero (hSame ▸ hZero)
      right
      rw [hDepth.lastPlace_eq_zero hZero, hDepth.lastPlace_eq_zero (hSame ▸ hZero)]
      exact ⟨rfl, hListed⟩
    · exact (pairwise_iff_idxOf hNodup).mp h.level a ha b hb hLess hSame hPositive

/-- Without a cycle, bundles are ordered by depth; those of depth zero as they are listed, those of
another depth by the place of the last bundle that each embeds, and as they are listed where
that is the same. There is no other such order. -/
theorem arrange_layered (hNames : (bundles.map Bundle.name).Nodup)
    (hAcyclic : ∀ name, ¬ OnCycle bundles name) :
    IsDepth bundles (depth bundles) ∧
      ∃ order, (arrange bundles).outcome = .ok order ∧ Layered bundles order ∧
        ∀ other, Layered bundles other → other = order := by
  have hServed := Ordering.served_final hNames (final_length_of_acyclic hNames hAcyclic)
  have hNodup : ∀ {order : List String}, order.Perm (bundles.map Bundle.name) → order.Nodup :=
    fun hPerm => hPerm.nodup_iff.mpr hNames
  refine ⟨hServed.isDepth, _, (arrange_eq_ok_iff_served hNames).mpr hServed,
    hServed.layered (hNodup hServed.perm), ?_⟩
  intro other hOther
  exact (hOther.served (hNodup hOther.perm) hServed.isDepth).unique hServed

/-- The furniture comes in three layers of two. -/
theorem furniture_layered :
    (furniture.map Bundle.name).Nodup ∧ (∀ name, ¬ OnCycle furniture name) ∧
      furnitureOrder.map (depth furniture) = [0, 0, 1, 1, 2, 2] ∧
      Layered furniture furnitureOrder ∧
      ∀ other, Layered furniture other → other = furnitureOrder := by
  have hNames : (furniture.map Bundle.name).Nodup := by decide
  have hOrder : (arrange furniture).outcome = .ok furnitureOrder := by
    rw [arrange_eq_ok_iff]
    decide
  have hAcyclic := ((arrange_eq_ok_iff_served hNames).mp hOrder).not_onCycle
  obtain ⟨-, order, hOutcome, hLayered, hUnique⟩ := arrange_layered hNames hAcyclic
  rw [hOrder] at hOutcome
  cases hOutcome
  exact ⟨hNames, hAcyclic, by decide, hLayered, hUnique⟩

end Simgen.Bundle
