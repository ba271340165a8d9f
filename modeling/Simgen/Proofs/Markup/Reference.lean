import Simgen.Markup.Escape
import Simgen.Proofs.Text.Blank
import Mathlib.Data.Nat.Digits.Defs

/-! The ways in which a character can be written in a text, and that unescaping reads each of
them as that character. -/
namespace Simgen.Markup

/-- The characters that have a reference by name. -/
def namedReferences : List (String × Char) :=
  [("lt", '<'), ("gt", '>'), ("amp", '&'), ("apos", '\''), ("quot", '"')]

/-- What may be written for a character: the character itself, unless it opens a reference or
markup, or a reference to it by name or by number. Six hexadecimal or seven decimal digits
are enough for every character, and more are not read. -/
inductive Spells : List Char → Char → Prop where
  | plain {c : Char} (hAmp : c ≠ '&') (hLt : c ≠ '<') : Spells [c] c
  | named {name : String} {c : Char} (hName : (name, c) ∈ namedReferences) :
      Spells ('&' :: name.toList ++ [';']) c
  | decimal {digits : List Char} {values : List Nat} {c : Char}
      (hDigits : digits.mapM Text.decimalValue? = some values) (hSize : digits.length ≤ 7)
      (hCode : Nat.ofDigits 10 values.reverse = c.toNat) (hNull : c.toNat ≠ 0) :
      Spells ('&' :: '#' :: digits ++ [';']) c
  | hexadecimal {digits : List Char} {values : List Nat} {c : Char}
      (hDigits : digits.mapM Text.hexValue? = some values) (hSize : digits.length ≤ 6)
      (hCode : Nat.ofDigits 16 values.reverse = c.toNat) (hNull : c.toNat ≠ 0) :
      Spells ('&' :: '#' :: 'x' :: digits ++ [';']) c

section digits

variable {value? : Char → Option Nat} {digits : List Char} {values : List Nat}

theorem mapM_cons_eq_some_iff {c : Char} {values : List Nat} :
    (c :: digits).mapM value? = some values ↔
      ∃ v vs, value? c = some v ∧ digits.mapM value? = some vs ∧ values = v :: vs := by
  rw [List.mapM_cons]
  simp only [Option.bind_eq_bind, Option.bind_eq_some_iff, Option.pure_def, Option.some.injEq]
  constructor
  · rintro ⟨v, hv, vs, hvs, rfl⟩
    exact ⟨v, vs, hv, hvs, rfl⟩
  · rintro ⟨v, vs, hv, hvs, rfl⟩
    exact ⟨v, hv, vs, hvs, rfl⟩

theorem readDigits_eq (base : Nat) (fault : Char → EscapeFault) (code : Nat)
    (hDigits : digits.mapM value? = some values) :
    readDigits base value? fault code digits =
      .ok (code * base ^ values.length + Nat.ofDigits base values.reverse) := by
  induction digits generalizing code values with
  | nil =>
      cases hDigits
      simp [readDigits]
  | cons c digits ih =>
      obtain ⟨v, vs, hc, hRest, rfl⟩ := mapM_cons_eq_some_iff.mp hDigits
      rw [readDigits, hc]
      dsimp only
      rw [ih _ hRest, List.reverse_cons, Nat.ofDigits_append, List.length_reverse,
        List.length_cons, Nat.ofDigits_singleton]
      congr 1
      ring

theorem value?_isSome_of_mem (hDigits : digits.mapM value? = some values) :
    ∀ c ∈ digits, (value? c).isSome = true := by
  induction digits generalizing values with
  | nil => simp
  | cons c digits ih =>
      obtain ⟨v, vs, hc, hRest, -⟩ := mapM_cons_eq_some_iff.mp hDigits
      exact List.forall_mem_cons.mpr ⟨by rw [hc]; rfl, ih hRest⟩

end digits

/-- Digits are characters of one byte and no part of a reference but its number. -/
theorem of_isSome_hexValue? {c : Char} (h : (Text.hexValue? c).isSome = true) :
    c.utf8Size = 1 ∧ c ≠ '&' ∧ c ≠ ';' := by
  have hRange : 48 ≤ c.toNat ∧ c.toNat ≤ 57 ∨ 65 ≤ c.toNat ∧ c.toNat ≤ 102 := by
    unfold Text.hexValue? at h
    simp only [Char.le_def, UInt32.le_iff_toNat_le] at h
    change ((if 48 ≤ c.toNat ∧ c.toNat ≤ 57 then _ else if 97 ≤ c.toNat ∧ c.toNat ≤ 102 then _
      else if 65 ≤ c.toNat ∧ c.toNat ≤ 70 then _ else none : Option Nat)).isSome = true at h
    split at h
    · omega
    · split at h
      · omega
      · split at h
        · omega
        · cases h
  refine ⟨?_, ?_, ?_⟩
  · refine if_pos (UInt32.le_iff_toNat_le.mpr ?_)
    change c.toNat ≤ 127
    omega
  · rintro rfl
    revert hRange
    decide
  · rintro rfl
    revert hRange
    decide

theorem isSome_hexValue?_of_decimal {c : Char} (h : (Text.decimalValue? c).isSome = true) :
    (Text.hexValue? c).isSome = true := by
  unfold Text.decimalValue? at h
  split at h
  next hDigit => rw [Text.hexValue?, if_pos hDigit]; rfl
  next => cases h

theorem byteLength_digits {digits : List Char}
    (h : ∀ c ∈ digits, (Text.hexValue? c).isSome = true) :
    Text.byteLength digits = digits.length := by
  induction digits with
  | nil => rfl
  | cons c digits ih =>
      obtain ⟨hc, hRest⟩ := List.forall_mem_cons.mp h
      rw [Text.byteLength_cons, (of_isSome_hexValue? hc).1, ih hRest, List.length_cons]
      omega

theorem charOfCode?_toNat (c : Char) : Text.charOfCode? c.toNat = some c := by
  have hValid : c.toNat.isValidChar := c.valid
  rw [Text.charOfCode?, dif_pos hValid]
  rfl

/-- A reference is read up to its semicolon. -/
theorem expand_reference {name : List Char} (hName : ∀ c ∈ name, c ≠ '&' ∧ c ≠ ';')
    (size start i : Nat) (passed rest : List Char) :
    ∃ stop, expand size (some (start, passed)) i (name ++ ';' :: rest) =
      referent start stop (passed.reverse ++ name) >>= fun c =>
        (c :: ·) <$> expand size none (stop + 1) rest := by
  induction name generalizing i passed with
  | nil => exact ⟨i, by simp [expand]⟩
  | cons c name ih =>
      obtain ⟨⟨hAmp, hEnd⟩, hRest⟩ := List.forall_mem_cons.mp hName
      obtain ⟨stop, hExpand⟩ := ih hRest (i + c.utf8Size) (c :: passed)
      refine ⟨stop, ?_⟩
      rw [List.cons_append, expand, if_neg hAmp, if_neg hEnd, hExpand]
      simp

theorem referent_named {name : String} {c : Char} (h : (name, c) ∈ namedReferences)
    (start stop : Nat) : referent start stop name.toList = .ok c := by
  simp only [namedReferences, List.mem_cons, Prod.mk.injEq, List.not_mem_nil, or_false] at h
  rcases h with ⟨rfl, rfl⟩ | ⟨rfl, rfl⟩ | ⟨rfl, rfl⟩ | ⟨rfl, rfl⟩ | ⟨rfl, rfl⟩ <;> rfl

theorem referent_number {number : List Char} {c : Char} (h : readNumber number = .ok c.toNat)
    (hNull : c.toNat ≠ 0) (start stop : Nat) : referent start stop ('#' :: number) = .ok c := by
  simp [referent, h, bind, Except.bind, hNull, charOfCode?_toNat]

theorem readNumber_decimal {digits : List Char} {values : List Nat}
    (hDigits : digits.mapM Text.decimalValue? = some values) (hSize : digits.length ≤ 7) :
    readNumber digits = .ok (Nat.ofDigits 10 values.reverse) := by
  have hSome := value?_isSome_of_mem hDigits
  have hBytes := byteLength_digits fun c hc => isSome_hexValue?_of_decimal (hSome c hc)
  unfold readNumber
  split
  next rest =>
    have hMark := hSome 'x' List.mem_cons_self
    cases hMark
  next =>
    rw [if_neg (by omega), readDigits_eq 10 .decimalDigit 0 hDigits]
    simp

theorem readNumber_hexadecimal {digits : List Char} {values : List Nat}
    (hDigits : digits.mapM Text.hexValue? = some values) (hSize : digits.length ≤ 6) :
    readNumber ('x' :: digits) = .ok (Nat.ofDigits 16 values.reverse) := by
  have hBytes := byteLength_digits (value?_isSome_of_mem hDigits)
  rw [readNumber, if_neg (by omega), readDigits_eq 16 .hexDigit 0 hDigits]
  simp

/-- Behind an ampersand, a name that refers to a character is read as that character. -/
theorem expand_of_referent {name : List Char} {c : Char}
    (hName : ∀ d ∈ name, d ≠ '&' ∧ d ≠ ';')
    (hReferent : ∀ start stop, referent start stop name = .ok c) (size i : Nat)
    (rest : List Char) :
    ∃ j, expand size none i ('&' :: name ++ [';'] ++ rest) =
      (c :: ·) <$> expand size none j rest := by
  obtain ⟨stop, hExpand⟩ := expand_reference hName size i (i + 1) [] rest
  refine ⟨stop + 1, ?_⟩
  simp only [List.cons_append, List.append_assoc, List.nil_append]
  rw [expand, if_pos rfl, hExpand, List.reverse_nil, List.nil_append, hReferent]
  rfl

/-- Whatever is written for a character is read as it. -/
theorem expand_of_spells {raw : List Char} {c : Char} (h : Spells raw c) (size i : Nat)
    (rest : List Char) :
    ∃ j, expand size none i (raw ++ rest) = (c :: ·) <$> expand size none j rest := by
  cases h with
  | plain hAmp hLt =>
      rw [List.singleton_append, expand, if_neg hAmp]
      exact ⟨_, rfl⟩
  | @named name _ hName =>
      have hPlain : ∀ r ∈ namedReferences, r.1.toList.all fun d => d != '&' && d != ';' := by decide
      refine expand_of_referent (fun d hd => ?_) (referent_named hName) size i rest
      simpa using List.all_eq_true.mp (hPlain _ hName) d hd
  | decimal hDigits hSize hCode hNull =>
      have hNumber := hCode ▸ readNumber_decimal hDigits hSize
      refine expand_of_referent ?_ (referent_number hNumber hNull) size i rest
      refine List.forall_mem_cons.mpr ⟨by decide, fun d hd => ?_⟩
      exact (of_isSome_hexValue? (isSome_hexValue?_of_decimal
        (value?_isSome_of_mem hDigits d hd))).2
  | hexadecimal hDigits hSize hCode hNull =>
      have hNumber := hCode ▸ readNumber_hexadecimal hDigits hSize
      refine expand_of_referent ?_ (referent_number hNumber hNull) size i rest
      refine List.forall_mem_cons.mpr ⟨by decide, List.forall_mem_cons.mpr ⟨by decide, ?_⟩⟩
      exact fun d hd => (of_isSome_hexValue? (value?_isSome_of_mem hDigits d hd)).2

/-- A text is read from what is written for its characters, one after another. -/
theorem unescape_of_spells {raws : List (List Char)} {text : List Char}
    (h : List.Forall₂ Spells raws text) : unescape raws.flatten = .ok text := by
  have hExpand : ∀ size i, expand size none i raws.flatten = .ok text := by
    induction h with
    | nil => exact fun _ _ => rfl
    | cons hFirst _ ih =>
        intro size i
        obtain ⟨j, hRead⟩ := expand_of_spells hFirst size i _
        rw [List.flatten_cons, hRead, ih]
        rfl
  exact hExpand _ _

end Simgen.Markup
