import Simgen.Proofs.Combine.Namespace
import Mathlib.Data.List.Count

/-! What the check of a combine's names reports. It passes exactly if declared and generated names
fit, each kind for itself and beside the other. A failure names a name that really clashes, and
as long as a declared name is at fault, no generated name is blamed. -/
namespace Simgen.Combine

variable {c : Combine} {cause : Cause}

/-- Declared names are neither fixed nor declared twice. -/
structure OwnNamesFit (c : Combine) : Prop where
  free : ∀ n ∈ c.ownNames, n ∉ c.fixedNames
  nodup : c.ownNames.Nodup

/-- Generated names are neither fixed nor declared, and none is generated twice. -/
structure DerivedNamesFit (c : Combine) : Prop where
  free : ∀ n ∈ c.derivedNames.map Prod.fst, n ∉ c.fixedNames
  apart : ∀ n ∈ c.derivedNames.map Prod.fst, n ∉ c.ownNames
  nodup : (c.derivedNames.map Prod.fst).Nodup

/-- What can be reported of a declared name: that it is fixed, or that it occurs twice. -/
inductive OwnClash (c : Combine) : Cause → Prop where
  | reserved {name : String} (hOwn : name ∈ c.ownNames) (hFixed : name ∈ c.fixedNames) :
      OwnClash c (.reservedName name)
  | repeated {name : String} (hTwice : 2 ≤ c.ownNames.count name) :
      OwnClash c (.alreadyBound name ("another member of combine `" ++ c.name ++ "`"))

/-- What can be reported of a generated name, together with the member that it is generated for:
that it is fixed, or that it occurs twice among all names of members. -/
inductive DerivedClash (c : Combine) : Cause → Prop where
  | taken {name owner : String} (hDerived : (name, owner) ∈ c.derivedNames)
      (hTaken : name ∈ c.fixedNames ∨ 2 ≤ c.memberNames.count name) :
      DerivedClash c (.alreadyBound name
        ("the accessors of `" ++ owner ++ "` in combine `" ++ c.name ++ "`"))

theorem checkOwn_eq_ok_iff_fit : c.checkOwn [] c.ownNames = .ok () ↔ c.OwnNamesFit := by
  rw [checkOwn_eq_ok_iff]
  constructor
  · rintro ⟨hNodup, -, hFree⟩
    exact ⟨hFree, hNodup⟩
  · intro h
    exact ⟨h.nodup, fun n _ => List.not_mem_nil, h.free⟩

theorem checkDerived_eq_ok_iff_fit :
    c.checkDerived (c.ownNames ++ c.fixedNames) c.derivedNames = .ok () ↔ c.DerivedNamesFit := by
  rw [checkDerived_eq_ok_iff]
  simp only [List.mem_append, not_or]
  constructor
  · rintro ⟨hNodup, hFresh⟩
    exact ⟨fun n hn => (hFresh n hn).2, fun n hn => (hFresh n hn).1, hNodup⟩
  · intro h
    exact ⟨h.nodup, fun n hn => ⟨h.apart n hn, h.free n hn⟩⟩

/-- The declared name at which the check stops is fixed or stood before. -/
theorem exists_of_checkOwn {seen names : List String} (h : c.checkOwn seen names = .error cause) :
    ∃ before name after, names = before ++ name :: after ∧
      (name ∈ c.fixedNames ∧ cause = .reservedName name ∨
        (name ∈ seen ∨ name ∈ before) ∧
          cause = .alreadyBound name ("another member of combine `" ++ c.name ++ "`")) := by
  induction names generalizing seen with
  | nil => cases h
  | cons first names ih =>
      rw [checkOwn] at h
      split at h
      · next hFixed =>
          cases h
          exact ⟨[], first, names, rfl, Or.inl ⟨List.contains_iff_mem.mp hFixed, rfl⟩⟩
      · split at h
        · next hSeen =>
            cases h
            exact ⟨[], first, names, rfl, Or.inr ⟨Or.inl (List.contains_iff_mem.mp hSeen), rfl⟩⟩
        · obtain ⟨before, name, after, rfl, hClash⟩ := ih h
          refine ⟨first :: before, name, after, rfl, ?_⟩
          simpa only [List.mem_cons, or_assoc, or_left_comm] using hClash

/-- The generated name at which the check stops is taken or stood before. -/
theorem exists_of_checkDerived {taken : List String} {names : List (String × String)}
    (h : c.checkDerived taken names = .error cause) :
    ∃ before name owner after, names = before ++ (name, owner) :: after ∧
      (name ∈ taken ∨ name ∈ before.map Prod.fst) ∧
      cause = .alreadyBound name
        ("the accessors of `" ++ owner ++ "` in combine `" ++ c.name ++ "`") := by
  induction names generalizing taken with
  | nil => cases h
  | cons first names ih =>
      obtain ⟨first, owner⟩ := first
      rw [checkDerived] at h
      split at h
      · next hTaken =>
          cases h
          exact ⟨[], first, owner, names, rfl, Or.inl (List.contains_iff_mem.mp hTaken), rfl⟩
      · obtain ⟨before, name, other, after, rfl, hClash, hCause⟩ := ih h
        refine ⟨(first, owner) :: before, name, other, after, rfl, ?_, hCause⟩
        simpa only [List.map_cons, List.mem_cons, or_assoc, or_left_comm] using hClash

theorem two_le_count {before after : List String} {name : String} (hBefore : name ∈ before) :
    2 ≤ (before ++ name :: after).count name := by
  have hPositive := List.count_pos_iff.mpr hBefore
  rw [List.count_append, List.count_cons_self]
  omega

theorem ownClash_of_checkOwn (h : c.checkOwn [] c.ownNames = .error cause) : c.OwnClash cause := by
  obtain ⟨before, name, after, hNames, ⟨hFixed, rfl⟩ | ⟨hBefore, rfl⟩⟩ := exists_of_checkOwn h
  · exact .reserved (by simp [hNames]) hFixed
  · apply OwnClash.repeated
    rw [hNames]
    exact two_le_count (hBefore.resolve_left List.not_mem_nil)

theorem derivedClash_of_checkDerived
    (h : c.checkDerived (c.ownNames ++ c.fixedNames) c.derivedNames = .error cause) :
    c.DerivedClash cause := by
  obtain ⟨before, name, owner, after, hNames, hTaken, rfl⟩ := exists_of_checkDerived h
  refine .taken (by simp [hNames]) ?_
  by_cases hFixed : name ∈ c.fixedNames
  · exact Or.inl hFixed
  · right
    have hAll : c.memberNames =
        (c.ownNames ++ before.map Prod.fst) ++ name :: after.map Prod.fst := by
      simp [memberNames, hNames]
    rw [hAll]
    apply two_le_count
    simpa [hFixed] using hTaken

/-- The check passes exactly if declared and generated names fit. If it fails and the declared
names do not fit, it reports one of them that is fixed or occurs twice; if they do, it reports
a generated name that is fixed or occurs twice among all names of members. -/
theorem checkNames_reports (c : Combine) :
    (c.checkNames = .ok () ↔ c.OwnNamesFit ∧ c.DerivedNamesFit) ∧
      ∀ cause, c.checkNames = .error cause →
        (¬ c.OwnNamesFit ∧ c.OwnClash cause) ∨ (c.OwnNamesFit ∧ c.DerivedClash cause) := by
  constructor
  · rw [checkNames, bind_eq_ok_iff, checkDerived_eq_ok_iff_fit]
    constructor
    · rintro ⟨⟨⟩, hOwn, hDerived⟩
      exact ⟨checkOwn_eq_ok_iff_fit.mp hOwn, hDerived⟩
    · rintro ⟨hOwn, hDerived⟩
      exact ⟨(), checkOwn_eq_ok_iff_fit.mpr hOwn, hDerived⟩
  · intro cause hError
    rw [checkNames] at hError
    cases hOwn : c.checkOwn [] c.ownNames with
    | error first =>
        rw [hOwn] at hError
        cases hError
        refine Or.inl ⟨fun hFit => ?_, ownClash_of_checkOwn hOwn⟩
        rw [checkOwn_eq_ok_iff_fit.mpr hFit] at hOwn
        cases hOwn
    | ok =>
        rw [hOwn] at hError
        exact Or.inr ⟨checkOwn_eq_ok_iff_fit.mp hOwn, derivedClash_of_checkDerived hError⟩

/-- Both kinds of name are at fault here: the pipe generates a name that the storage declares, and
the constant has the name of a stall member. -/
def valve : Combine where
  name := "Valve"
  comment := ""
  pipes := [{ name := "flow", direction := .input, type := .primitive .uint8, comment := "" }]
  requests := []
  operations := []
  storage := [.plain "flow_pop" (.primitive .bool) none ""]
  configs := [{ name := "stall", value := "3", comment := "" }]
  init := []
  tick := []
  applyTick := []
  stallable := true

example : valve.checkNames = .error (.reservedName "stall") := by decide

example : ({ valve with configs := [] } : Combine).checkNames =
    .error (.alreadyBound "flow_pop" "the accessors of `flow` in combine `Valve`") := by decide

end Simgen.Combine
