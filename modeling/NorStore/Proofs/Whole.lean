import NorStore.Proofs.Cells
import NorStore.Settings.Value

/-!
# Whole numbers as stored text

Settings keep whole numbers as base-ten text: the digits of the magnitude, after a `-` for a
negative number. This module shows that such text reads back.

*Digits.* Folding digits into a value inverts writing a number's digits
(`digitsValue?_toDigits`), so reading the text of `n` as an unsigned number of `bits` bits gives
`n` exactly when it fits (`readUnsigned_text`); the text of a negative number is refused, as a
`-` is no digit. Reading as a signed number gives the number exactly when it fits the
two's-complement range (`readSigned_text`).

*Bytes.* The text is ASCII digits and `-`: trimming white space leaves it as it is and it
decodes as UTF-8 to itself (`numberText_text`), and none of its bytes is NUL
(`zero_not_mem_text`), so the NUL that ends a stored setting is the first one.
-/

namespace NorStore.Decimal

/-! ## Digits -/

/-- One step of reading digits: the value so far, extended by one digit, or nothing. -/
theorem foldl_digits {cs : List Char} (h : ∀ c ∈ cs, c.isDigit) (v : Nat) :
    cs.foldl (fun acc c => acc.bind fun v =>
      if c.isDigit then some (v * 10 + (c.toNat - 48)) else none) (some v) =
      some (Nat.ofDigitChars 10 cs v) := by
  induction cs generalizing v with
  | nil => rfl
  | cons c cs ih =>
    rw [List.foldl_cons, Option.bind_some, if_pos (h c (List.mem_cons_self ..)),
      ih (fun d hd => h d (List.mem_cons_of_mem _ hd)), Nat.ofDigitChars_cons, Nat.mul_comm]
    rfl

/-- A character that is not a digit stops the reading for good. -/
theorem foldl_digits_none (cs : List Char) :
    cs.foldl (fun acc c => acc.bind fun v =>
      if c.isDigit then some (v * 10 + (c.toNat - 48)) else none) none = none := by
  induction cs with
  | nil => rfl
  | cons c cs ih => exact ih

theorem digitsValue?_toDigits (n : Nat) : digitsValue? (Nat.toDigits 10 n) = some n := by
  rw [digitsValue?, if_neg (by simp [Nat.toDigits_ne_nil]),
    foldl_digits (fun c hc => Nat.isDigit_of_mem_toDigits (by decide) (by decide) hc),
    Nat.ofDigitChars_ten_toDigits]

theorem digitsValue?_minus (cs : List Char) : digitsValue? ('-' :: cs) = none := by
  rw [digitsValue?, if_neg (by simp), List.foldl_cons, Option.bind_some, if_neg (by decide),
    foldl_digits_none]

/-- The text of a whole number: its magnitude's digits, after `-` when it is negative. -/
theorem toList_text (z : Int) :
    (toString z).toList = if 0 ≤ z then Nat.toDigits 10 z.toNat
      else '-' :: Nat.toDigits 10 (-z).toNat := by
  rw [Int.toString_eq_repr, Int.repr_eq_if]
  split
  · exact Nat.toList_repr
  · rw [String.toList_append, Nat.toList_repr]
    rfl

theorem text_ofNat (n : Nat) : toString (n : Int) = toString n := by
  apply String.toList_inj.1
  rw [toList_text, if_pos (Int.natCast_nonneg n), Int.toNat_natCast]
  exact Nat.toList_repr.symm

theorem readUnsigned_text (bits : Nat) (z : Int) :
    readUnsigned bits (toString z) =
      if 0 ≤ z ∧ z.toNat < Nat.pow 2 bits then some z.toNat else none := by
  rw [readUnsigned, toList_text]
  by_cases hz : 0 ≤ z
  · rw [if_pos hz, digitsValue?_toDigits, Option.bind_some]
    simp only [hz, true_and]
  · rw [if_neg hz, digitsValue?_minus, Option.bind_none, if_neg (by omega)]

/-- The first character of a number's digits is no sign. -/
theorem toDigits_head (n : Nat) : ∃ d rest, Nat.toDigits 10 n = d :: rest ∧ d ≠ '+' ∧ d ≠ '-' := by
  cases h : Nat.toDigits 10 n with
  | nil => exact absurd h Nat.toDigits_ne_nil
  | cons d rest =>
    have hd : d.isDigit := Nat.isDigit_of_mem_toDigits (by decide) (by decide) (h ▸ List.mem_cons_self ..)
    refine ⟨d, rest, rfl, ?_, ?_⟩ <;> rintro rfl <;> exact absurd hd (by decide)

theorem readSigned_text (bits : Nat) (z : Int) :
    readSigned bits (toString z) =
      if -(Nat.pow 2 (bits - 1) : Int) ≤ z ∧ z < Nat.pow 2 (bits - 1) then some z else none := by
  unfold readSigned
  rw [toList_text]
  by_cases hz : 0 ≤ z
  · -- unsigned digits: the reading takes no sign
    obtain ⟨d, rest, hdr, hplus, hminus⟩ := toDigits_head z.toNat
    rw [if_pos hz, hdr]
    split
    rename_i neg body h
    split at h
    next r heq => exact absurd (List.cons.inj heq).1 hplus
    next r heq => exact absurd (List.cons.inj heq).1 hminus
    next =>
      obtain ⟨rfl, rfl⟩ := Prod.mk.inj h
      rw [← hdr, digitsValue?_toDigits, Option.bind_some]
      simp only [Bool.false_eq_true, if_false, Int.toNat_of_nonneg hz]
  · -- a minus, then the magnitude's digits
    rw [if_neg hz]
    split
    rename_i neg body h
    obtain ⟨rfl, rfl⟩ := Prod.mk.inj h
    rw [digitsValue?_toDigits, Option.bind_some]
    have hneg : -((-z).toNat : Int) = z := by omega
    simp only [if_true, hneg]

end NorStore.Decimal

namespace NorStore.Settings

/-! ## Bytes -/

theorem fromUTF8?_toUTF8 (s : String) : String.fromUTF8? s.toUTF8 = some s := by
  simp only [String.fromUTF8?, String.toUTF8_eq_toByteArray, dif_pos s.isValidUTF8]
  rfl

theorem trim_of_unblank {s : String} (h : ∀ c ∈ s.toList, Blank.isBlank c = false) :
    Blank.trim s = s := by
  have hkeep : ∀ l : List Char, (∀ c ∈ l, Blank.isBlank c = false) →
      l.dropWhile Blank.isBlank = l := by
    intro l hl
    cases l with
    | nil => rfl
    | cons c r => rw [List.dropWhile_cons, if_neg (by simp [hl c (List.mem_cons_self ..)])]
  rw [Blank.trim, hkeep _ h, hkeep _ (fun c hc => h c (List.mem_reverse.1 hc)),
    List.reverse_reverse, String.ofList_toList]

/-- Every character of a number's text is a digit or `-`. -/
theorem mem_text {z : Int} {c : Char} (hc : c ∈ (toString z).toList) : c.isDigit ∨ c = '-' := by
  rw [Decimal.toList_text] at hc
  split at hc
  · exact .inl (Nat.isDigit_of_mem_toDigits (by decide) (by decide) hc)
  · rcases List.mem_cons.1 hc with rfl | hc
    · exact .inr rfl
    · exact .inl (Nat.isDigit_of_mem_toDigits (by decide) (by decide) hc)

theorem isBlank_of_text {c : Char} (h : c.isDigit ∨ c = '-') : Blank.isBlank c = false := by
  rcases h with h | rfl
  · simp only [Char.isDigit, Bool.and_eq_true, decide_eq_true_eq] at h
    have h1 : 48 ≤ c.toNat := h.1
    have h2 : c.toNat ≤ 57 := h.2
    simp only [Blank.isBlank]
    simp
    omega
  · decide

/-- A number's text, as stored bytes, reads back as the same text. -/
theorem numberText_text (z : Int) : numberText (toString z).toUTF8 = some (toString z) := by
  rw [numberText, fromUTF8?_toUTF8, Option.map_some,
    trim_of_unblank (fun c hc => isBlank_of_text (mem_text hc))]

/-- A digit or `-` is one byte of UTF-8, and not NUL. -/
theorem utf8EncodeChar_of_text {c : Char} (h : c.isDigit ∨ c = '-') :
    String.utf8EncodeChar c = [c.val.toUInt8] ∧ c.val.toUInt8 ≠ 0 := by
  have hr : 45 ≤ c.toNat ∧ c.toNat ≤ 57 := by
    rcases h with h | rfl
    · simp only [Char.isDigit, Bool.and_eq_true, decide_eq_true_eq] at h
      exact ⟨Nat.le_trans (by decide) (show '0'.toNat ≤ c.toNat from h.1), h.2⟩
    · decide
  refine ⟨String.utf8EncodeChar_eq_singleton (Char.utf8Size_eq_one_iff.2 ?_), ?_⟩
  · rw [UInt32.le_iff_toNat_le, Char.toNat_val]
    simpa using (show c.toNat ≤ 127 by omega)
  · intro h0
    have := congrArg UInt8.toNat h0
    rw [UInt32.toNat_toUInt8, Char.toNat_val] at this
    simp at this
    omega

theorem toList_toUTF8 (s : String) : s.toUTF8.toList = s.toList.flatMap String.utf8EncodeChar := by
  rw [String.toUTF8_eq_toByteArray, ← String.utf8Encode_toList, List.utf8Encode,
    ByteArray.toList_eq, List.data_toByteArray, List.toList_toArray]

/-- No byte of a number's text is NUL. -/
theorem zero_not_mem_text (z : Int) : 0 ∉ (toString z).toUTF8.toList := by
  rw [toList_toUTF8, List.mem_flatMap]
  rintro ⟨c, hc, hb⟩
  obtain ⟨hone, hne⟩ := utf8EncodeChar_of_text (mem_text hc)
  rw [hone, List.mem_singleton] at hb
  exact hne hb.symm

end NorStore.Settings
