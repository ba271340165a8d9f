import Simgen.Ident
import Simgen.Proofs.Text.Blank

/-! Identifiers hold no blanks, no separators and no markup. -/
namespace Simgen.Ident

theorem isRest_of_mem {name : String} (h : isValid name = true) {c : Char} (hc : c ∈ name.toList) :
    isRest c = true := by
  unfold isValid at h
  split at h
  · cases h
  next first rest hList =>
    rw [Bool.and_eq_true, List.all_eq_true] at h
    rw [hList] at hc
    rcases List.mem_cons.mp hc with rfl | hc
    · have hStart := h.1
      simp only [isStart, Bool.or_eq_true] at hStart
      simp only [isRest, Char.isAlphanum, Bool.or_eq_true]
      exact hStart.imp_left Or.inl
    · exact h.2 c hc

theorem no_slash {name : String} (h : isValid name = true) : '/' ∉ name.toList := fun hSlash =>
  absurd (isRest_of_mem h hSlash) (by decide)

/-- The characters of identifiers lie between the digits and the small letters. -/
theorem toNat_of_isRest {c : Char} (h : isRest c = true) : 48 ≤ c.toNat ∧ c.toNat ≤ 122 := by
  have hRanges : isRest c = ((decide (65 ≤ c.val ∧ c.val ≤ 90) ||
      decide (97 ≤ c.val) && decide (c.val ≤ 122)) ||
        decide (48 ≤ c.val) && decide (c.val ≤ 57) || c == '_') := rfl
  rw [hRanges] at h
  simp only [Bool.or_eq_true, Bool.and_eq_true, decide_eq_true_eq, beq_iff_eq,
    UInt32.le_iff_toNat_le] at h
  rcases h with ((⟨hLow, hHigh⟩ | ⟨hLow, hHigh⟩) | ⟨hLow, hHigh⟩) | rfl
  · exact ⟨Nat.le_trans (by decide) hLow, Nat.le_trans hHigh (by decide)⟩
  · exact ⟨Nat.le_trans (by decide) hLow, Nat.le_trans hHigh (by decide)⟩
  · exact ⟨hLow, Nat.le_trans hHigh (by decide)⟩
  · decide

theorem not_isBlank_of_isRest {c : Char} (h : isRest c = true) : Text.isBlank c = false := by
  obtain ⟨hLow, hHigh⟩ := toNat_of_isRest h
  simp only [Text.isBlank, Bool.or_eq_false_iff, Bool.and_eq_false_iff, decide_eq_false_iff_not,
    beq_eq_false_iff_ne, ne_eq]
  omega

theorem solid {name : String} (h : isValid name = true) : Text.Solid name := by
  refine ⟨?_, Text.trimmed_iff.mpr (Text.trimChars_eq_self_iff.mpr ⟨?_, ?_⟩)⟩
  · rintro rfl
    cases h
  · intro c hc
    exact not_isBlank_of_isRest (isRest_of_mem h (List.mem_of_mem_head? hc))
  · intro c hc
    exact not_isBlank_of_isRest (isRest_of_mem h (List.mem_of_getLast? hc))

end Simgen.Ident
