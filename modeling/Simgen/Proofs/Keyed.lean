import Mathlib.Data.List.Basic

/-! Lists of entries under keys. An entry is put in the place of the one that has its key, or at the
end if there is none. -/
namespace Simgen

variable {κ α : Type} [BEq κ] [LawfulBEq κ] [DecidableEq κ]

omit [DecidableEq κ] in
theorem lookup_eq_none_iff_notMem {entries : List (κ × α)} {key : κ} :
    entries.lookup key = none ↔ key ∉ entries.map Prod.fst := by
  rw [List.lookup_eq_none_iff]
  constructor
  · intro h hIn
    obtain ⟨e, he, rfl⟩ := List.mem_map.mp hIn
    simpa using h e he
  · rintro h e he
    have hNe : key ≠ e.1 := by
      rintro rfl
      exact h (List.mem_map_of_mem he)
    simpa using hNe

theorem lookup_replace (entries : List (κ × α)) (key other : κ) (a : α) :
    (entries.map fun e => if e.1 = key then (key, a) else e).lookup other =
      if other = key then (entries.lookup key).map fun _ => a else entries.lookup other := by
  induction entries with
  | nil => simp
  | cons e entries ih =>
      obtain ⟨first, old⟩ := e
      by_cases hFirst : first = key
      · subst hFirst
        by_cases hOther : other = first
        · simp [hOther]
        · have hBeq : (other == first) = false := by simpa using hOther
          simpa [List.lookup_cons, hBeq, hOther] using ih
      · by_cases hOther : other = key
        · subst hOther
          have hBeq : (other == first) = false := by simpa using Ne.symm hFirst
          simpa [List.lookup_cons, hFirst, hBeq] using ih
        · by_cases hSame : other = first
          · simp [hFirst, hSame]
          · have hBeq : (other == first) = false := by simpa using hSame
            simpa [List.lookup_cons, hFirst, hBeq, hOther] using ih

omit [DecidableEq κ] in
theorem lookup_filter (entries : List (κ × α)) (keep : κ → Bool) (key : κ) :
    (entries.filter fun e => keep e.1).lookup key =
      if keep key then entries.lookup key else none := by
  induction entries with
  | nil => simp
  | cons e entries ih =>
      obtain ⟨first, a⟩ := e
      by_cases hKey : key = first
      · subst hKey
        cases hKeep : keep key with
        | true => simp [hKeep]
        | false => simpa [hKeep] using ih
      · have hBeq : (key == first) = false := by simpa using hKey
        cases hKeep : keep first with
        | true => simpa [List.lookup_cons, hBeq, hKeep] using ih
        | false => simpa [List.lookup_cons, hBeq, hKeep] using ih

/-- Putting an entry changes what is found under its key only. -/
theorem lookup_put (entries : List (κ × α)) (key other : κ) (a : α) :
    (if (entries.lookup key).isSome then entries.map fun e => if e.1 = key then (key, a) else e
      else entries ++ [(key, a)]).lookup other =
      if other = key then some a else entries.lookup other := by
  split
  next hSome =>
    obtain ⟨old, hOld⟩ := Option.isSome_iff_exists.mp hSome
    rw [lookup_replace, hOld, Option.map_some]
  next hNone =>
    rw [Option.not_isSome_iff_eq_none] at hNone
    rw [List.lookup_append]
    by_cases hOther : other = key
    · simp [hOther, hNone]
    · have hBeq : (other == key) = false := by simpa using hOther
      simp [List.lookup_cons, hBeq, hOther]

/-- The keys stay as they are, or a new one comes behind them. -/
theorem keys_put (entries : List (κ × α)) (key : κ) (a : α) :
    let put := if (entries.lookup key).isSome then
        entries.map fun e => if e.1 = key then (key, a) else e
      else entries ++ [(key, a)]
    put.map Prod.fst = entries.map Prod.fst ∨
      key ∉ entries.map Prod.fst ∧ put.map Prod.fst = entries.map Prod.fst ++ [key] := by
  dsimp only
  split
  next =>
    left
    rw [List.map_map]
    refine List.map_congr_left fun e _ => ?_
    by_cases hKey : e.1 = key
    · simp [hKey]
    · simp [hKey]
  next hNone =>
    right
    rw [Option.not_isSome_iff_eq_none, lookup_eq_none_iff_notMem] at hNone
    exact ⟨hNone, by simp⟩

end Simgen
