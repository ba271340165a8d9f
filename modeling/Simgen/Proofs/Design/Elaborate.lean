import Simgen.Design.Elaborate
import Simgen.Proofs.Journal
import Simgen.Proofs.Names

/-! What is known of a design that a project was elaborated into. -/
namespace Simgen

theorem Bundle.name_of_ofDescriptor {d : Descriptor.Bundle} {b : Bundle}
    (h : Bundle.ofDescriptor d = .ok b) : b.name = d.name := by
  unfold Bundle.ofDescriptor at h
  split at h
  · cases h
  · cases h
    rfl

namespace Combine

/-- A combine is only handed out once its names are checked. -/
theorem checkNames_of_ofDescriptor {sources : Sources} {cppDir : String}
    {d : Descriptor.Combine} {c : Combine}
    (h : (ofDescriptor sources cppDir d).outcome = .ok c) : c.checkNames = .ok () := by
  simp only [ofDescriptor, Traced.outcome_bind_eq_ok_iff, Traced.outcome_pure] at h
  obtain ⟨_, -, _, -, _, -, _, -, _, -, _, -, _, -, _, hCheck, hPure⟩ := h
  cases hPure
  rwa [Traced.outcome_lift, mapError_eq_ok_iff] at hCheck

theorem name_of_ofDescriptor {sources : Sources} {cppDir : String} {d : Descriptor.Combine}
    {c : Combine} (h : (ofDescriptor sources cppDir d).outcome = .ok c) : c.name = d.name := by
  simp only [ofDescriptor, Traced.outcome_bind_eq_ok_iff, Traced.outcome_pure] at h
  obtain ⟨_, -, _, -, _, -, _, -, _, -, _, -, _, -, _, -, hPure⟩ := h
  cases hPure
  rfl

/-- An attempt leaves a combine exactly if its elaboration succeeds. -/
theorem attempt_eq_some_iff {sources : Sources} {cppDir : String} {d : Descriptor.Combine}
    {c : Combine} :
    (attempt sources cppDir d).outcome = .ok (some c) ↔
      (ofDescriptor sources cppDir d).outcome = .ok c := by
  have hBlamed : ((ofDescriptor sources cppDir d).blaming d.source).outcome = .ok c ↔
      (ofDescriptor sources cppDir d).outcome = .ok c := by
    rw [Traced.outcome_blaming, mapError_eq_ok_iff]
  rw [← hBlamed, attempt]
  cases hRun : ((ofDescriptor sources cppDir d).blaming d.source).outcome with
  | ok built => simp
  | error e =>
      by_cases hConfined : e.isConfined = true
      · simp [hConfined]
      · simp [hConfined]

end Combine

namespace Design

theorem elaborate_eq_ok_iff {sources : Sources} {p : Project} {d : Design} :
    (elaborate sources p).outcome = .ok d ↔
      bundlesOf [] p.bundles = .ok d.bundles ∧ (Bundle.arrange d.bundles).outcome = .ok d.order ∧
        (combinesOf sources p.cppDir [] p.combines).outcome = .ok d.combines := by
  simp only [elaborate, Traced.outcome_bind_eq_ok_iff, Traced.outcome_ofExcept, Traced.outcome_pure]
  constructor
  · rintro ⟨bundles, hBundles, order, hOrder, combines, hCombines, hd⟩
    cases hd
    exact ⟨hBundles, hOrder, hCombines⟩
  · rintro ⟨hBundles, hOrder, hCombines⟩
    exact ⟨_, hBundles, _, hOrder, _, hCombines, rfl⟩

theorem bundlesOf_cons_eq_ok_iff {seen : List String} {d : Descriptor.Bundle}
    {ds : List Descriptor.Bundle} {bundles : List Bundle} :
    bundlesOf seen (d :: ds) = .ok bundles ↔ d.name ∉ seen ∧ ∃ b rest,
      Bundle.ofDescriptor d = .ok b ∧ bundlesOf (d.name :: seen) ds = .ok rest ∧
        bundles = b :: rest := by
  by_cases hSeen : d.name ∈ seen
  · simp [bundlesOf, hSeen, throw, throwThe, MonadExceptOf.throw, bind, Except.bind]
  · rw [bundlesOf, if_neg (by simpa using hSeen)]
    simp only [bind_eq_ok_iff, mapError_eq_ok_iff]
    constructor
    · rintro ⟨b, hBundle, rest, hRest, hCons⟩
      cases hCons
      exact ⟨hSeen, b, rest, hBundle, hRest, rfl⟩
    · rintro ⟨-, b, rest, hBundle, hRest, rfl⟩
      exact ⟨b, hBundle, rest, hRest, rfl⟩

theorem combinesOf_cons_eq_ok_iff {sources : Sources} {cppDir : String} {seen : List String}
    {d : Descriptor.Combine} {ds : List Descriptor.Combine} {combines : List Combine} :
    (combinesOf sources cppDir seen (d :: ds)).outcome = .ok combines ↔
      d.name ∉ seen ∧ ∃ built rest, (Combine.attempt sources cppDir d).outcome = .ok built ∧
        (combinesOf sources cppDir (d.name :: seen) ds).outcome = .ok rest ∧
          combines = built.toList ++ rest := by
  by_cases hSeen : d.name ∈ seen
  · simp [combinesOf, hSeen, Traced.fail, bind]
  · rw [combinesOf, if_neg (by simpa using hSeen)]
    simp only [Traced.outcome_bind_eq_ok_iff]
    constructor
    · rintro ⟨built, hBuilt, rest, hRest, hAppend⟩
      cases hAppend
      exact ⟨hSeen, built, rest, hBuilt, hRest, rfl⟩
    · rintro ⟨-, built, rest, hBuilt, hRest, rfl⟩
      exact ⟨built, hBuilt, rest, hRest, rfl⟩

/-- Bundles keep the names and the order of their descriptors, and no name stands twice. -/
theorem bundlesOf_names {seen : List String} {ds : List Descriptor.Bundle} {bundles : List Bundle}
    (h : bundlesOf seen ds = .ok bundles) :
    bundles.map Bundle.name = ds.map Descriptor.Bundle.name ∧ (bundles.map Bundle.name).Nodup ∧
      ∀ n ∈ bundles.map Bundle.name, n ∉ seen := by
  induction ds generalizing seen bundles with
  | nil =>
      cases h
      exact ⟨rfl, List.nodup_nil, by simp⟩
  | cons d ds ih =>
      obtain ⟨hFresh, b, rest, hBundle, hRest, rfl⟩ := bundlesOf_cons_eq_ok_iff.mp h
      obtain ⟨hMap, hDistinct⟩ := ih hRest
      rw [List.map_cons, List.map_cons, Bundle.name_of_ofDescriptor hBundle]
      exact ⟨by rw [hMap], (nodup_cons_unseen_iff hFresh).mpr hDistinct⟩

/-- Every combine of a design was elaborated from one of the descriptors. -/
theorem exists_descriptor_of_mem_combinesOf {sources : Sources} {cppDir : String}
    {seen : List String} {ds : List Descriptor.Combine} {combines : List Combine}
    (h : (combinesOf sources cppDir seen ds).outcome = .ok combines) {c : Combine}
    (hc : c ∈ combines) :
    ∃ d ∈ ds, (Combine.ofDescriptor sources cppDir d).outcome = .ok c := by
  induction ds generalizing seen combines with
  | nil =>
      cases h
      cases hc
  | cons d ds ih =>
      obtain ⟨-, built, rest, hBuilt, hRest, rfl⟩ := combinesOf_cons_eq_ok_iff.mp h
      rcases List.mem_append.mp hc with hHere | hLater
      · rw [Option.mem_toList] at hHere
        subst hHere
        exact ⟨d, List.mem_cons_self, Combine.attempt_eq_some_iff.mp hBuilt⟩
      · obtain ⟨e, he, hElaborated⟩ := ih hRest hLater
        exact ⟨e, List.mem_cons_of_mem _ he, hElaborated⟩

/-- Combines keep the names and the order of their descriptors, whose names are distinct. -/
theorem combinesOf_names {sources : Sources} {cppDir : String} {seen : List String}
    {ds : List Descriptor.Combine} {combines : List Combine}
    (h : (combinesOf sources cppDir seen ds).outcome = .ok combines) :
    (combines.map Combine.name).Sublist (ds.map Descriptor.Combine.name) ∧
      (ds.map Descriptor.Combine.name).Nodup ∧ ∀ n ∈ ds.map Descriptor.Combine.name, n ∉ seen := by
  induction ds generalizing seen combines with
  | nil =>
      cases h
      exact ⟨.slnil, List.nodup_nil, by simp⟩
  | cons d ds ih =>
      obtain ⟨hFresh, built, rest, hBuilt, hRest, rfl⟩ := combinesOf_cons_eq_ok_iff.mp h
      obtain ⟨hSublist, hDistinct⟩ := ih hRest
      refine ⟨?_, (nodup_cons_unseen_iff hFresh).mpr hDistinct⟩
      cases built with
      | none => exact hSublist.cons _
      | some c =>
          have hName := Combine.name_of_ofDescriptor (Combine.attempt_eq_some_iff.mp hBuilt)
          simpa [hName] using hSublist

theorem checkNames_of_elaborate {sources : Sources} {p : Project} {d : Design}
    (h : (elaborate sources p).outcome = .ok d) {c : Combine} (hc : c ∈ d.combines) :
    c.checkNames = .ok () := by
  obtain ⟨-, -, hCombines⟩ := elaborate_eq_ok_iff.mp h
  obtain ⟨_, -, hElaborated⟩ := exists_descriptor_of_mem_combinesOf hCombines hc
  exact Combine.checkNames_of_ofDescriptor hElaborated

end Design

end Simgen
