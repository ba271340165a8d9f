import Simgen.Ident
import Mathlib.Data.String.Basic

/-! Names in byte order. UTF-8 keeps the order of code points, so names that are sorted by their
characters are sorted by their bytes. -/
namespace Simgen

namespace Text

/-- The bytes of a text in UTF-8. -/
def bytes (s : String) : List UInt8 := s.toUTF8.data.toList

theorem bytes_eq (s : String) : bytes s = s.toList.flatMap String.utf8EncodeChar := by
  obtain ⟨cs, rfl⟩ : ∃ cs, s = String.ofList cs := ⟨s.toList, String.ofList_toList.symm⟩
  rw [bytes, String.toUTF8, String.toByteArray_ofList, String.toList_ofList, List.utf8Encode]
  simp

/-- The order of numbers by their digits to the base 64, the highest first. -/
theorem digits_lt {v w : Nat} (h : v < w) : v / 262144 < w / 262144 ∨ v / 262144 = w / 262144 ∧
    (v / 4096 % 64 < w / 4096 % 64 ∨ v / 4096 % 64 = w / 4096 % 64 ∧
      (v / 64 % 64 < w / 64 % 64 ∨ v / 64 % 64 = w / 64 % 64 ∧ v % 64 < w % 64)) := by
  rcases Nat.lt_or_eq_of_le (Nat.div_le_div_right (c := 262144) h.le) with hTop | hTop
  · exact Or.inl hTop
  rcases Nat.lt_or_eq_of_le (Nat.div_le_div_right (c := 4096) h.le) with hUpper | hUpper
  · exact Or.inr ⟨hTop, Or.inl (by omega)⟩
  rcases Nat.lt_or_eq_of_le (Nat.div_le_div_right (c := 64) h.le) with hLower | hLower
  · exact Or.inr ⟨hTop, Or.inr ⟨by omega, Or.inl (by omega)⟩⟩
  · exact Or.inr ⟨hTop, Or.inr ⟨by omega, Or.inr ⟨by omega, by omega⟩⟩⟩

/-- The bytes of the smaller of two characters come first, whatever stands behind them. -/
theorem encode_append_lt {c d : Char} (h : c < d) (r r' : List UInt8) :
    String.utf8EncodeChar c ++ r < String.utf8EncodeChar d ++ r' := by
  have hLt : c.val.toNat < d.val.toNat := h
  have hMax : d.val.toNat < 0x110000 := by
    rcases d.valid with h | h <;> omega
  unfold String.utf8EncodeChar
  generalize c.val.toNat = v at hLt
  generalize d.val.toNat = w at hLt hMax
  have hDigits := digits_lt hLt
  dsimp only
  -- Between encodings of different lengths the first byte decides, between those of the same length
  -- the first different digit.
  split_ifs <;>
    simp only [List.cons_append, List.nil_append, List.cons_lt_cons_iff, UInt8.lt_iff_toNat_lt,
      ← UInt8.toNat_inj, UInt8.toNat_ofNat'] <;>
    simp (disch := omega) only [Nat.mod_eq_of_lt, Nat.reducePow, Nat.add_lt_add_iff_right,
      Nat.add_right_cancel_iff] <;>
    omega

theorem encode_lt {xs ys : List Char} (h : xs < ys) :
    xs.flatMap String.utf8EncodeChar < ys.flatMap String.utf8EncodeChar := by
  induction xs generalizing ys with
  | nil =>
      cases ys with
      | nil => exact absurd h (List.not_lt_nil _)
      | cons d ys =>
          obtain ⟨b, bs, hEncoded⟩ :=
            List.exists_cons_of_ne_nil (String.utf8EncodeChar_ne_nil (c := d))
          rw [List.flatMap_cons, hEncoded]
          exact List.nil_lt_cons ..
  | cons c xs ih =>
      cases ys with
      | nil => exact absurd h (List.not_lt_nil _)
      | cons d ys =>
          rw [List.flatMap_cons, List.flatMap_cons]
          rcases List.cons_lt_cons_iff.mp h with hHead | ⟨rfl, hRest⟩
          · exact encode_append_lt hHead _ _
          · exact List.append_left_lt (ih hRest)

theorem bytes_lt {a b : String} (h : a < b) : bytes a < bytes b := by
  rw [bytes_eq, bytes_eq]
  exact encode_lt (String.lt_iff_toList_lt.mp h)

theorem bytes_lt_iff {a b : String} : bytes a < bytes b ↔ a < b := by
  refine ⟨fun h => ?_, bytes_lt⟩
  rcases lt_trichotomy a b with hLess | rfl | hMore
  · exact hLess
  · exact absurd h (List.lt_irrefl _)
  · exact absurd h (List.lt_asymm (bytes_lt hMore))

/-- The order of names is that of their bytes. -/
theorem bytes_le_iff {a b : String} : bytes a ≤ bytes b ↔ Ident.le a b = true := by
  rw [Ident.le, decide_eq_true_iff]
  exact not_congr bytes_lt_iff

end Text

namespace Ident

theorem perm_sort (names : List String) : (sort names).Perm names := List.mergeSort_perm names le

/-- Sorted names stand in the order of their bytes. -/
theorem pairwise_sort (names : List String) :
    (sort names).Pairwise fun a b => Text.bytes a ≤ Text.bytes b := by
  have hSorted : (sort names).Pairwise fun a b => le a b = true :=
    List.pairwise_mergeSort
      (fun a b c hab hbc => decide_eq_true ((of_decide_eq_true hab).trans (of_decide_eq_true hbc)))
      (fun a b => by simpa [le] using le_total a b) names
  exact hSorted.imp Text.bytes_le_iff.mpr

/-- There is one order in which names are sorted. -/
theorem sort_eq_of_perm {names names' : List String} (h : names.Perm names') :
    sort names = sort names' := by
  have hPerm : (sort names).Perm (sort names') :=
    (perm_sort names).trans (h.trans (perm_sort names').symm)
  refine hPerm.eq_of_pairwise (fun a b _ _ hab hba => ?_) (pairwise_sort names)
    (pairwise_sort names')
  rw [Text.bytes_le_iff, le, decide_eq_true_iff] at hab hba
  exact le_antisymm hab hba

end Ident

end Simgen
