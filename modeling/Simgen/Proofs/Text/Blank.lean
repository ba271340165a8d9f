import Simgen.Text.Blank
import Mathlib.Data.List.DropRight
import Mathlib.Data.List.TakeWhile

/-! Texts that trimming leaves as they are have no blanks at their ends. -/
namespace Simgen.Text

variable {p : Char → Bool} {cs : List Char}

theorem dropWhile_eq_self_iff_head? : cs.dropWhile p = cs ↔ ∀ c ∈ cs.head?, p c = false := by
  rw [List.dropWhile_eq_self_iff]
  cases cs <;> simp

theorem dropEndWhile_eq_rdropWhile (p : Char → Bool) (cs : List Char) :
    dropEndWhile p cs = cs.rdropWhile p := rfl

theorem dropEndWhile_eq_self_iff : dropEndWhile p cs = cs ↔ ∀ c ∈ cs.getLast?, p c = false := by
  rw [dropEndWhile_eq_rdropWhile, List.rdropWhile_eq_self_iff]
  by_cases hNil : cs = []
  · simp [hNil]
  · simp [hNil, List.getLast?_eq_some_getLast hNil]

/-- What satisfies the test is dropped from the end, up to what does not. -/
theorem dropEndWhile_append {gap : List Char} (hGap : ∀ c ∈ gap, p c = true)
    (hEnd : ∀ c ∈ cs.getLast?, p c = false) : dropEndWhile p (cs ++ gap) = cs := by
  have hReverse : ∀ c ∈ gap.reverse, p c = true := fun c hc => hGap c (List.mem_reverse.mp hc)
  rw [dropEndWhile, List.reverse_append, List.dropWhile_append_of_pos hReverse]
  exact dropEndWhile_eq_self_iff.mpr hEnd

theorem byteLength_cons (c : Char) (cs : List Char) :
    byteLength (c :: cs) = c.utf8Size + byteLength cs := by
  have hFold : ∀ n, cs.foldl (fun n c => n + c.utf8Size) n = n + byteLength cs := by
    unfold byteLength
    induction cs with
    | nil => simp
    | cons d cs ih =>
        intro n
        rw [List.foldl_cons, List.foldl_cons, ih, ih (0 + d.utf8Size)]
        omega
  rw [byteLength, List.foldl_cons, hFold, Nat.zero_add]

theorem byteLength_append (cs ds : List Char) :
    byteLength (cs ++ ds) = byteLength cs + byteLength ds := by
  induction cs with
  | nil => simp [byteLength]
  | cons c cs ih => rw [List.cons_append, byteLength_cons, byteLength_cons, ih, Nat.add_assoc]

theorem length_le_byteLength (cs : List Char) : cs.length ≤ byteLength cs := by
  induction cs with
  | nil => exact Nat.le_refl 0
  | cons c cs ih =>
      have hPos := c.utf8Size_pos
      rw [byteLength_cons, List.length_cons]
      omega

/-- A text is trimmed exactly if neither of its ends is blank. -/
theorem trimChars_eq_self_iff :
    trimChars cs = cs ↔
      (∀ c ∈ cs.head?, isBlank c = false) ∧ ∀ c ∈ cs.getLast?, isBlank c = false := by
  rw [← dropWhile_eq_self_iff_head?, ← dropEndWhile_eq_self_iff, trimChars]
  constructor
  · intro h
    have hSuffix : cs.dropWhile isBlank <:+ cs := List.dropWhile_suffix isBlank
    have hLength := (List.rdropWhile_prefix isBlank (cs.dropWhile isBlank)).length_le
    rw [← dropEndWhile_eq_rdropWhile, h] at hLength
    have hStart := hSuffix.eq_of_length_le hLength
    exact ⟨hStart, by rwa [hStart] at h⟩
  · rintro ⟨hStart, hEnd⟩
    rw [hStart, hEnd]

/-- Texts without blanks at their ends. -/
def Trimmed (s : String) : Prop := trim s = s

/-- Trimmed texts that are not empty. -/
def Solid (s : String) : Prop := s ≠ "" ∧ Trimmed s

instance (s : String) : Decidable (Trimmed s) := inferInstanceAs (Decidable (trim s = s))

instance (s : String) : Decidable (Solid s) := inferInstanceAs (Decidable (s ≠ "" ∧ Trimmed s))

theorem trimmed_iff {s : String} : Trimmed s ↔ trimChars s.toList = s.toList := by
  rw [Trimmed, trim, ← String.toList_inj, String.toList_ofList]

end Simgen.Text
