import Simgen.Bundle.Order
import Mathlib.Data.Fintype.Card
import Mathlib.Data.List.Nodup
import Mathlib.Data.Set.Finite.Basic
import Mathlib.Logic.Relation

/-! The graph of a list of bundles. Its nodes are names, and an edge leads from a bundle
to each bundle of the list that it embeds by value. Members of the same type give
parallel edges; members of a type outside the list give none. -/
namespace Simgen.Bundle

/-- The edges of the graph, each as often as there are members of that type. -/
def embeddings (bundles : List Bundle) : List (String × String) :=
  bundles.flatMap fun b => (b.embedded (bundles.map Bundle.name)).map fun inner => (b.name, inner)

/-- Some member of the bundle `outer` has the bundle `inner` of the list as its type. -/
def Embeds (bundles : List Bundle) (outer inner : String) : Prop :=
  inner ∈ bundles.map Bundle.name ∧
    ∃ b ∈ bundles, b.name = outer ∧ ∃ m ∈ b.members, m.type = .composite inner

/-- The bundle lies on a cycle of embeddings. A bundle that embeds itself does. -/
def OnCycle (bundles : List Bundle) (name : String) : Prop :=
  Relation.TransGen (Embeds bundles) name name

/-- The bundle lies on a cycle, or embeds one that does, over any number of steps. -/
def ReachesCycle (bundles : List Bundle) (name : String) : Prop :=
  ∃ inner, Relation.ReflTransGen (Embeds bundles) name inner ∧ OnCycle bundles inner

variable {bundles : List Bundle}

theorem composite?_eq_some_iff (type : ValueType) (name : String) :
    type.composite? = some name ↔ type = .composite name := by
  cases type with
  | primitive p => simp [ValueType.composite?]
  | composite other => simp [ValueType.composite?]

theorem mem_embedded_iff (names : List String) (b : Bundle) (inner : String) :
    inner ∈ b.embedded names ↔
      inner ∈ names ∧ ∃ m ∈ b.members, m.type = .composite inner := by
  simp only [embedded, dependencies, List.mem_filter, List.mem_map, List.mem_filterMap,
    Option.map_eq_some_iff, composite?_eq_some_iff, List.contains_iff_mem]
  constructor
  · rintro ⟨⟨_, ⟨m, hm, type, hType, rfl⟩, rfl⟩, hIn⟩
    exact ⟨hIn, m, hm, hType⟩
  · rintro ⟨hIn, m, hm, hType⟩
    exact ⟨⟨_, ⟨m, hm, inner, hType, rfl⟩, rfl⟩, hIn⟩

theorem mem_embeddings_iff (outer inner : String) :
    (outer, inner) ∈ embeddings bundles ↔ Embeds bundles outer inner := by
  simp only [embeddings, Embeds, List.mem_flatMap, List.mem_map, mem_embedded_iff, Prod.mk.injEq]
  constructor
  · rintro ⟨b, hb, _, ⟨⟨c, hc, hName⟩, hMember⟩, rfl, rfl⟩
    exact ⟨⟨c, hc, hName⟩, b, hb, rfl, hMember⟩
  · rintro ⟨hIn, b, hb, rfl, hMember⟩
    exact ⟨b, hb, inner, ⟨hIn, hMember⟩, rfl, rfl⟩

theorem Embeds.outer_mem {outer inner : String} (h : Embeds bundles outer inner) :
    outer ∈ bundles.map Bundle.name := by
  obtain ⟨_, b, hb, rfl, _⟩ := h
  exact List.mem_map_of_mem hb

theorem ReachesCycle.mem {name : String} (h : ReachesCycle bundles name) :
    name ∈ bundles.map Bundle.name := by
  obtain ⟨inner, hPath, hCycle⟩ := h
  obtain ⟨next, hEmbeds, -⟩ := Relation.TransGen.head'_iff.mp (hCycle.trans_right hPath)
  exact hEmbeds.outer_mem

/-- The bundles released by a placed one are the sources of the edges that lead to it. -/
theorem Ordering.embedders_eq (name : String) :
    Ordering.embedders bundles name =
      ((embeddings bundles).filter fun e => e.2 = name).map Prod.fst := by
  simp only [Ordering.embedders, embeddings, List.filter_flatMap, List.map_flatMap]
  congr 1
  funext b
  rw [List.filter_map, List.map_map]
  rfl

/-- With distinct names, the edges that leave a bundle are the embeddings of that bundle. -/
theorem countP_edges_of_mem (names : List String) {bs : List Bundle} {b : Bundle}
    (hNames : (bs.map Bundle.name).Nodup) (hb : b ∈ bs) :
    (bs.flatMap fun c => (c.embedded names).map fun inner => (c.name, inner)).countP
      (fun e => e.1 = b.name) = (b.embedded names).length := by
  have hSame : ∀ c : Bundle, ((c.embedded names).map fun inner => (c.name, inner)).countP
      (fun e => e.1 = b.name) = if c.name = b.name then (c.embedded names).length else 0 := by
    intro c
    rw [List.countP_map]
    split_ifs with h
    · simp [Function.comp_def, h]
    · simp [Function.comp_def, h]
  induction bs with
  | nil => cases hb
  | cons c rest ih =>
      rw [List.map_cons, List.nodup_cons] at hNames
      rw [List.flatMap_cons, List.countP_append, hSame]
      rcases List.mem_cons.mp hb with rfl | hb
      · have hRest : (rest.flatMap fun c =>
            (c.embedded names).map fun inner => (c.name, inner)).countP
              (fun e => e.1 = b.name) = 0 := by
          rw [List.countP_eq_zero]
          intro e he
          obtain ⟨c, hc, hEdge⟩ := List.mem_flatMap.mp he
          obtain ⟨inner, _, rfl⟩ := List.mem_map.mp hEdge
          have hne : c.name ≠ b.name := by
            intro hEq
            exact hNames.1 (hEq ▸ List.mem_map_of_mem hc)
          simpa using hne
        rw [hRest, if_pos rfl, Nat.add_zero]
      · have hne : c.name ≠ b.name := by
          intro hEq
          exact hNames.1 (hEq ▸ List.mem_map_of_mem hb)
        rw [if_neg hne, Nat.zero_add, ih hNames.2 hb]

/-- Following embeddings inside a finite set of names that has no end leads to a cycle. -/
theorem reachesCycle_of_endless {stuck : List String}
    (hStuck : ∀ n ∈ stuck, ∃ m ∈ stuck, Embeds bundles n m) {name : String}
    (hName : name ∈ stuck) : ReachesCycle bundles name := by
  by_contra hNone
  -- Without a cycle, "embedded by, directly or not" is well-founded on the stuck names that can be
  -- reached; but each of them embeds another one.
  let Reached := {n // n ∈ stuck ∧ Relation.ReflTransGen (Embeds bundles) name n}
  let below : Reached → Reached → Prop :=
    fun inner outer => Relation.TransGen (Embeds bundles) outer.val inner.val
  have hFinite : Finite Reached := (List.finite_toSet stuck).subset (fun n hn => hn.1)
  have hTrans : IsTrans Reached below := ⟨fun a b c hab hbc => hbc.trans hab⟩
  have hIrrefl : Std.Irrefl below := ⟨fun n hn => hNone ⟨n.val, n.property.2, hn⟩⟩
  have hWellFounded : WellFounded below := Finite.wellFounded_of_trans_of_irrefl below
  have hEmpty : ∀ n : Reached, False := by
    intro n
    induction n using hWellFounded.induction with
    | _ outer ih =>
        obtain ⟨inner, hInner, hEmbeds⟩ := hStuck outer.val outer.property.1
        exact ih ⟨inner, hInner, outer.property.2.tail hEmbeds⟩ (.single hEmbeds)
  exact hEmpty ⟨name, hName, .refl⟩

end Simgen.Bundle
