import Simgen.Combine.Namespace
import Simgen.Proofs.Journal
import Simgen.Proofs.Names

/-! What the check of a combine's names comes to: declared and generated names are all
distinct, and none of them is fixed. -/
namespace Simgen.Combine

/-- The names that a combine's members bring into its class. -/
def memberNames (c : Combine) : List String := c.ownNames ++ c.derivedNames.map Prod.fst

theorem map_fst_derivedNames (c : Combine) :
    c.derivedNames.map Prod.fst = c.pipes.flatMap pipeNames ++
      (c.requests.map fun r => "_request_" ++ r.name) ++ c.storage.flatMap storageNames := by
  simp [derivedNames, List.map_flatMap, Function.comp_def]

theorem checkOwn_eq_ok_iff (c : Combine) (seen names : List String) :
    c.checkOwn seen names = .ok () ↔
      names.Nodup ∧ (∀ n ∈ names, n ∉ seen) ∧ ∀ n ∈ names, n ∉ c.fixedNames := by
  induction names generalizing seen with
  | nil => simp [checkOwn]
  | cons name names ih =>
      by_cases hFixed : name ∈ c.fixedNames
      · simp [checkOwn, hFixed]
      · by_cases hSeen : name ∈ seen
        · simp [checkOwn, hFixed, hSeen]
        · have hRest : (∀ n ∈ name :: names, n ∉ c.fixedNames) ↔ ∀ n ∈ names, n ∉ c.fixedNames := by
            simp [hFixed]
          rw [checkOwn, if_neg (by simpa using hFixed), if_neg (by simpa using hSeen), ih, hRest,
            ← and_assoc, ← and_assoc, nodup_cons_unseen_iff hSeen]

theorem checkDerived_eq_ok_iff (c : Combine) (taken : List String)
    (names : List (String × String)) :
    c.checkDerived taken names = .ok () ↔
      (names.map Prod.fst).Nodup ∧ ∀ n ∈ names.map Prod.fst, n ∉ taken := by
  induction names generalizing taken with
  | nil => simp [checkDerived]
  | cons entry names ih =>
      obtain ⟨name, owner⟩ := entry
      by_cases hTaken : name ∈ taken
      · simp [checkDerived, hTaken]
      · rw [checkDerived, if_neg (by simpa using hTaken), ih, List.map_cons,
          nodup_cons_unseen_iff hTaken]

/-- The check passes exactly if all names of members are distinct and none is fixed. -/
theorem checkNames_eq_ok_iff (c : Combine) :
    c.checkNames = .ok () ↔ c.memberNames.Nodup ∧ ∀ n ∈ c.memberNames, n ∉ c.fixedNames := by
  rw [checkNames, bind_eq_ok_iff, checkDerived_eq_ok_iff, memberNames]
  simp only [List.nodup_append, List.mem_append, not_or]
  constructor
  · rintro ⟨⟨⟩, hOwn, hDerived, hDerivedFree⟩
    obtain ⟨hOwn, -, hOwnFree⟩ := (checkOwn_eq_ok_iff c [] c.ownNames).mp hOwn
    refine ⟨⟨hOwn, hDerived, ?_⟩, ?_⟩
    · rintro n hn _ hm rfl
      exact (hDerivedFree n hm).1 hn
    · rintro n (hn | hn)
      · exact hOwnFree n hn
      · exact (hDerivedFree n hn).2
  · rintro ⟨⟨hOwn, hDerived, hApart⟩, hFree⟩
    refine ⟨(), (checkOwn_eq_ok_iff c [] c.ownNames).mpr ⟨hOwn, ?_, ?_⟩, hDerived, ?_⟩
    · exact fun n _ => List.not_mem_nil
    · exact fun n hn => hFree n (Or.inl hn)
    · exact fun n hn => ⟨fun hm => hApart n hm n hn rfl, hFree n (Or.inr hn)⟩

theorem nodup_storage_names {c : Combine} (h : c.checkNames = .ok ()) :
    (c.storage.map Storage.name).Nodup := by
  have hNodup := ((checkNames_eq_ok_iff c).mp h).1
  simp only [memberNames, ownNames] at hNodup
  exact (List.nodup_append.mp (List.nodup_append.mp (List.nodup_append.mp hNodup).1).1).2.1

end Simgen.Combine
