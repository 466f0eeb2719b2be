import Blockwork.Proofs.Text.ByteOrder

/-!
# Decoding takes encoding back

The bytes of a text decode to its characters (`decode?_encode`). One lemma per size class is enough:
the first byte says which class it is, the payloads add up to the code point, and the checks against
overlong forms and surrogates pass because a character is a code point of its class.
-/

namespace Blockwork.Text

/-! ### Bytes -/

theorem toNat_toUInt8 {n : Nat} (h : n < 256) : n.toUInt8.toNat = n := Nat.mod_eq_of_lt h

/-- A continuation byte carries six bits. -/
theorem isContinuation_toUInt8 (n : Nat) : isContinuation (0x80 + n % 64).toUInt8 = true := by
  have hbound : 0x80 + n % 64 < 256 := by omega
  unfold isContinuation
  simp only [Bool.and_eq_true, decide_eq_true_eq, UInt8.le_iff_toNat_le, UInt8.lt_iff_toNat_lt,
    toNat_toUInt8 hbound]
  change 128 ≤ _ ∧ _ < 192
  omega

theorem payload_toUInt8 (n : Nat) : payload (0x80 + n % 64).toUInt8 = n % 64 := by
  unfold payload
  rw [toNat_toUInt8 (by omega)]
  omega

/-- A character is not a surrogate. -/
theorem not_surrogate (c : Char) : ¬ (0xd800 ≤ c.toNat ∧ c.toNat < 0xe000) := by
  have h := c.valid
  change c.val.toNat < 0xd800 ∨ 0xdfff < c.val.toNat ∧ c.val.toNat < 0x110000 at h
  change ¬ (0xd800 ≤ c.val.toNat ∧ c.val.toNat < 0xe000)
  omega

/-! ### Characters -/

/-- **The bytes of a character begin with that character**, whatever follows them. -/
theorem firstChar?_encodeChar (c : Char) (rest : Bytes) :
    firstChar? (encodeChar c ++ rest) = some (c, (encodeChar c).length) := by
  have hbound := toNat_lt_bound c
  have hsurrogate := not_surrogate c
  have hback : Char.ofNat c.toNat = c := Char.ofNat_toNat c
  unfold encodeChar
  simp only
  split_ifs with hone htwo hthree
  · have hbyte : c.toNat.toUInt8.toNat = c.toNat := toNat_toUInt8 (by omega)
    have hsmall : c.toNat.toUInt8 < 0x80 := by
      rw [UInt8.lt_iff_toNat_lt, hbyte]
      exact hone
    simp only [List.cons_append, List.nil_append, firstChar?, if_pos hsmall, hbyte, hback]
    rfl
  -- in the longer classes the leading byte is in a range of its own
  · have hbyte : (0xc0 + c.toNat / 64).toUInt8.toNat = 0xc0 + c.toNat / 64 :=
      toNat_toUInt8 (by omega)
    have hclass : ¬ ((0xc0 + c.toNat / 64).toUInt8 < 0x80) ∧
        (0xc2 ≤ (0xc0 + c.toNat / 64).toUInt8 && (0xc0 + c.toNat / 64).toUInt8 < 0xe0) = true := by
      simp only [Bool.and_eq_true, decide_eq_true_eq, UInt8.le_iff_toNat_le,
        UInt8.lt_iff_toNat_lt, hbyte]
      change ¬ (_ < 128) ∧ 194 ≤ _ ∧ _ < 224
      omega
    -- the digits of the code point in base 64 are put together again
    have hsum : (0xc0 + c.toNat / 64 - 0xc0) * 64 + c.toNat % 64 = c.toNat := by omega
    simp only [List.cons_append, List.nil_append, firstChar?, if_neg hclass.1, if_pos hclass.2,
      isContinuation_toUInt8, payload_toUInt8, hbyte, hsum, hback, if_true]
    rfl
  · have hbyte : (0xe0 + c.toNat / 4096).toUInt8.toNat = 0xe0 + c.toNat / 4096 :=
      toNat_toUInt8 (by omega)
    have hclass : ¬ ((0xe0 + c.toNat / 4096).toUInt8 < 0x80) ∧
        ¬ ((0xc2 ≤ (0xe0 + c.toNat / 4096).toUInt8 &&
          (0xe0 + c.toNat / 4096).toUInt8 < 0xe0) = true) ∧
        (0xe0 ≤ (0xe0 + c.toNat / 4096).toUInt8 &&
          (0xe0 + c.toNat / 4096).toUInt8 < 0xf0) = true := by
      simp only [Bool.and_eq_true, decide_eq_true_eq, UInt8.le_iff_toNat_le,
        UInt8.lt_iff_toNat_lt, hbyte]
      change ¬ (_ < 128) ∧ ¬ (194 ≤ _ ∧ _ < 224) ∧ 224 ≤ _ ∧ _ < 240
      omega
    have hsum : (0xe0 + c.toNat / 4096 - 0xe0) * 4096 + c.toNat / 64 % 64 * 64 + c.toNat % 64
        = c.toNat := by omega
    -- it is not one that a shorter class would hold, and no surrogate
    have hchecks : (0x800 ≤ c.toNat && !(0xd800 ≤ c.toNat && c.toNat < 0xe000)) = true := by
      simp only [Bool.and_eq_true, Bool.not_eq_true', Bool.and_eq_false_iff, decide_eq_true_eq,
        decide_eq_false_iff_not]
      omega
    simp only [List.cons_append, List.nil_append, firstChar?, if_neg hclass.1, if_neg hclass.2.1,
      if_pos hclass.2.2, isContinuation_toUInt8, payload_toUInt8, hbyte, hsum, hback,
      Bool.true_and, hchecks, if_true]
    rfl
  · have hbyte : (0xf0 + c.toNat / 262144).toUInt8.toNat = 0xf0 + c.toNat / 262144 :=
      toNat_toUInt8 (by omega)
    have hclass : ¬ ((0xf0 + c.toNat / 262144).toUInt8 < 0x80) ∧
        ¬ ((0xc2 ≤ (0xf0 + c.toNat / 262144).toUInt8 &&
          (0xf0 + c.toNat / 262144).toUInt8 < 0xe0) = true) ∧
        ¬ ((0xe0 ≤ (0xf0 + c.toNat / 262144).toUInt8 &&
          (0xf0 + c.toNat / 262144).toUInt8 < 0xf0) = true) ∧
        (0xf0 ≤ (0xf0 + c.toNat / 262144).toUInt8 &&
          (0xf0 + c.toNat / 262144).toUInt8 < 0xf5) = true := by
      simp only [Bool.and_eq_true, decide_eq_true_eq, UInt8.le_iff_toNat_le,
        UInt8.lt_iff_toNat_lt, hbyte]
      change ¬ (_ < 128) ∧ ¬ (194 ≤ _ ∧ _ < 224) ∧ ¬ (224 ≤ _ ∧ _ < 240) ∧ 240 ≤ _ ∧ _ < 245
      omega
    have hsum : (0xf0 + c.toNat / 262144 - 0xf0) * 262144 + c.toNat / 4096 % 64 * 4096 +
        c.toNat / 64 % 64 * 64 + c.toNat % 64 = c.toNat := by omega
    have hchecks : (0x10000 ≤ c.toNat && c.toNat < 0x110000) = true := by
      simp only [Bool.and_eq_true, decide_eq_true_eq]
      omega
    simp only [List.cons_append, List.nil_append, firstChar?, if_neg hclass.1, if_neg hclass.2.1,
      if_neg hclass.2.2.1, if_pos hclass.2.2.2, isContinuation_toUInt8, payload_toUInt8, hbyte,
      hsum, hback, Bool.true_and, hchecks, if_true]
    rfl

/-! ### Texts -/

/-- The bytes that belong to the character before are passed over. -/
theorem decodeFrom_skip (bad : Option Char) (xs rest : Bytes) :
    decodeFrom bad xs.length (xs ++ rest) = decodeFrom bad 0 rest := by
  induction xs with
  | nil => rfl
  | cons x xs ih => exact ih

theorem decodeFrom_encodeChar (bad : Option Char) (c : Char) (rest : Bytes) :
    decodeFrom bad 0 (encodeChar c ++ rest) = (decodeFrom bad 0 rest).map (c :: ·) := by
  have hfirst := firstChar?_encodeChar c rest
  have hne : encodeChar c ≠ [] := by
    rw [← List.length_pos_iff, length_encodeChar]
    exact Char.utf8Size_pos c
  obtain ⟨x, xs, hx⟩ := List.exists_cons_of_ne_nil hne
  rw [hx] at hfirst ⊢
  rw [List.cons_append] at hfirst ⊢
  simp only [decodeFrom, hfirst, List.length_cons, Nat.add_sub_cancel]
  rw [decodeFrom_skip]

/-- **The bytes of a text decode to its characters.** -/
theorem decode?_encode (s : String) : decode? (encode s) = some s.toList := by
  have hlist : ∀ cs : List Char, decodeFrom none 0 (cs.flatMap encodeChar) = some cs := by
    intro cs
    induction cs with
    | nil => rfl
    | cons c cs ih => rw [List.flatMap_cons, decodeFrom_encodeChar, ih, Option.map_some]
  exact hlist s.toList

end Blockwork.Text
