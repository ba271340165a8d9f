import Simgen.Markup.Escape

/-! Escaped text holds no markup, and unescaping gives back what was escaped. -/
namespace Simgen.Markup

theorem escape_append (cs ds : List Char) : escape (cs ++ ds) = escape cs ++ escape ds :=
  List.flatMap_append

theorem escape_cons (c : Char) (cs : List Char) : escape (c :: cs) = escape [c] ++ escape cs :=
  escape_append [c] cs

theorem escape_plain {c : Char} (hAmp : c ≠ '&') (hLt : c ≠ '<') : escape [c] = [c] := by
  rw [escape, List.flatMap_singleton, if_neg hAmp, if_neg hLt]

/-- What stands for one character is read back as that character. -/
theorem expand_escape_char (size i : Nat) (c : Char) (cs : List Char) :
    ∃ j, expand size none i (escape [c] ++ cs) = (c :: ·) <$> expand size none j cs := by
  by_cases hAmp : c = '&'
  · subst hAmp
    exact ⟨_, rfl⟩
  · by_cases hLt : c = '<'
    · subst hLt
      exact ⟨_, rfl⟩
    · rw [escape_plain hAmp hLt, List.singleton_append, expand, if_neg hAmp]
      exact ⟨_, rfl⟩

theorem expand_escape (size i : Nat) (cs : List Char) :
    expand size none i (escape cs) = .ok cs := by
  induction cs generalizing i with
  | nil => rfl
  | cons c cs ih =>
      obtain ⟨j, hChar⟩ := expand_escape_char size i c (escape cs)
      rw [escape_cons, hChar, ih]
      rfl

theorem unescape_escape (cs : List Char) : unescape (escape cs) = .ok cs := expand_escape _ _ cs

theorem lt_not_mem_escape (cs : List Char) : '<' ∉ escape cs := by
  induction cs with
  | nil => exact List.not_mem_nil
  | cons c cs ih =>
      rw [escape_cons, List.mem_append, not_or]
      refine ⟨?_, ih⟩
      by_cases hAmp : c = '&'
      · subst hAmp
        decide
      · by_cases hLt : c = '<'
        · subst hLt
          decide
        · rw [escape_plain hAmp hLt, List.mem_singleton]
          exact Ne.symm hLt

/-- What an escaped character begins with and ends with, other than the character itself. -/
theorem ends_escape_char (c : Char) :
    ((escape [c]).head? = some c ∨ (escape [c]).head? = some '&') ∧
      ((escape [c]).getLast? = some c ∨ (escape [c]).getLast? = some ';') := by
  by_cases hAmp : c = '&'
  · subst hAmp
    exact ⟨Or.inr rfl, Or.inr rfl⟩
  · by_cases hLt : c = '<'
    · subst hLt
      exact ⟨Or.inr rfl, Or.inr rfl⟩
    · rw [escape_plain hAmp hLt]
      exact ⟨Or.inl rfl, Or.inl rfl⟩

end Simgen.Markup
