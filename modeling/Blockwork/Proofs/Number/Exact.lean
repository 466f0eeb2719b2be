import Blockwork.Number.Binary64
import Mathlib.Tactic.Common
import Mathlib.Tactic.Linarith

/-!
# Numbers that need no rounding

A binary float of any width is laid out in the same way: an exponent field above some fraction bits,
with a hidden leading bit unless the field is zero. `Layout.value` reads such a word as a multiple
of the least positive number of the format, and `Layout.word` goes back. The two are inverse to each
other (`Layout.word_value`, `Layout.value_word`), the second for multiples that have few enough
significant bits.

The reason is one normal form. A word is `shift * 2 ^ bits + significand`, where the significand has
at most `bits + 1` bits, and exactly so many unless the shift is zero; then the value is
`significand * 2 ^ shift`. A normal form is determined by the word (`Layout.Normal.unique`) and its
shift is determined by the value (`Layout.Normal.log2_sub`).

For binary64 this says that rounding a quotient that *is* a number gives that number
(`Binary64.ofQuotient_exact`).
-/

namespace Blockwork

namespace Layout

/-- The multiple of the least positive number that a word stands for. -/
def value (bits w : Nat) : Nat :=
  (if w / 2 ^ bits = 0 then w % 2 ^ bits else 2 ^ bits + w % 2 ^ bits) * 2 ^ (w / 2 ^ bits - 1)

/-- The word of a multiple of the least positive number, cut to its leading bits. -/
def word (bits v : Nat) : Nat :=
  (Nat.log2 v - bits) * 2 ^ bits + v / 2 ^ (Nat.log2 v - bits)

/-! ### The normal form -/

/-- A significand of at most `bits + 1` bits, and of exactly so many unless it is not shifted. -/
structure Normal (bits significand shift : Nat) : Prop where
  lt : significand < 2 ^ (bits + 1)
  full : shift = 0 ∨ 2 ^ bits ≤ significand

variable {bits significand shift : Nat}

/-- Every word has a normal form. -/
theorem exists_normal (bits w : Nat) :
    ∃ significand shift, Normal bits significand shift ∧ w = shift * 2 ^ bits + significand ∧
      value bits w = significand * 2 ^ shift := by
  have hfraction : w % 2 ^ bits < 2 ^ bits := Nat.mod_lt w (Nat.two_pow_pos bits)
  have hsplit : 2 ^ bits * (w / 2 ^ bits) + w % 2 ^ bits = w := Nat.div_add_mod w (2 ^ bits)
  have hdouble : 2 ^ (bits + 1) = 2 ^ bits * 2 := Nat.pow_succ 2 bits
  by_cases hfield : w / 2 ^ bits = 0
  · -- without a hidden bit the significand is the fraction
    refine ⟨w % 2 ^ bits, 0, ⟨by omega, .inl rfl⟩, ?_, ?_⟩
    · rw [hfield] at hsplit
      omega
    · rw [value, if_pos hfield, hfield]
  · refine ⟨2 ^ bits + w % 2 ^ bits, w / 2 ^ bits - 1, ⟨by omega, .inr (by omega)⟩, ?_, ?_⟩
    · -- the hidden bit is one unit of the exponent field
      obtain ⟨k, hk⟩ : ∃ k, w / 2 ^ bits = k + 1 := Nat.exists_eq_succ_of_ne_zero hfield
      rw [hk] at hsplit ⊢
      rw [Nat.mul_succ, Nat.mul_comm] at hsplit
      rw [Nat.add_sub_cancel]
      omega
    · rw [value, if_neg hfield]

theorem Normal.log2_sub (h : Normal bits significand shift) :
    Nat.log2 (significand * 2 ^ shift) - bits = shift := by
  by_cases hzero : significand = 0
  · subst hzero
    have hshift : shift = 0 := by
      rcases h.full with hshift | hfull
      · exact hshift
      · exact absurd hfull (Nat.not_le.2 (Nat.two_pow_pos bits))
    rw [Nat.zero_mul, hshift]
    simp
  · have hne : significand * 2 ^ shift ≠ 0 :=
      Nat.mul_ne_zero hzero (Nat.two_pow_pos shift).ne'
    have hupper : Nat.log2 (significand * 2 ^ shift) < bits + 1 + shift := by
      rw [Nat.log2_lt hne, Nat.pow_add]
      exact Nat.mul_lt_mul_of_pos_right h.lt (Nat.two_pow_pos shift)
    rcases h.full with hshift | hfull
    · omega
    · -- a full significand puts the leading bit in its place
      have hlower : bits + shift ≤ Nat.log2 (significand * 2 ^ shift) := by
        rw [Nat.le_log2 hne, Nat.pow_add]
        exact Nat.mul_le_mul_right (2 ^ shift) hfull
      omega

theorem Normal.unique {significand' shift' : Nat} (h : Normal bits significand shift)
    (h' : Normal bits significand' shift')
    (heq : shift * 2 ^ bits + significand = shift' * 2 ^ bits + significand') :
    significand = significand' ∧ shift = shift' := by
  have hlt := h.lt
  have hlt' := h'.lt
  rw [Nat.pow_succ] at hlt hlt'
  -- of two different shifts the larger one leaves no room for the other significand
  have hle : ∀ {a b s t : Nat}, s < 2 ^ bits * 2 → (b = 0 ∨ 2 ^ bits ≤ t) →
      a * 2 ^ bits + s = b * 2 ^ bits + t → b ≤ a := by
    intro a b s t hs hfull hsum
    by_contra hab
    obtain ⟨k, rfl⟩ : ∃ k, b = a + 1 + k := ⟨b - (a + 1), by omega⟩
    rw [Nat.add_mul, Nat.add_mul, Nat.one_mul] at hsum
    have ht : 2 ^ bits ≤ t := hfull.resolve_left (by omega)
    have hk : 0 ≤ k * 2 ^ bits := Nat.zero_le _
    omega
  have hshift : shift = shift' :=
    Nat.le_antisymm (hle hlt' h.full heq.symm) (hle hlt h'.full heq)
  subst hshift
  exact ⟨Nat.add_left_cancel heq, rfl⟩

/-! ### Words and values -/

/-- **A word is recovered from its value.** -/
theorem word_value (bits w : Nat) : word bits (value bits w) = w := by
  obtain ⟨significand, shift, hnormal, hw, hvalue⟩ := exists_normal bits w
  rw [hvalue, word, hnormal.log2_sub, Nat.mul_div_cancel _ (Nat.two_pow_pos shift), ← hw]

/-- What is cut off a multiple to make a word leaves a normal form. -/
theorem normal_word (bits v : Nat) :
    Normal bits (v / 2 ^ (Nat.log2 v - bits)) (Nat.log2 v - bits) := by
  by_cases hv : v = 0
  · subst hv
    refine ⟨?_, .inl (by simp)⟩
    rw [Nat.zero_div]
    exact Nat.two_pow_pos _
  · have hupper : v < 2 ^ (Nat.log2 v + 1) := Nat.lt_log2_self
    have hlower : 2 ^ Nat.log2 v ≤ v := Nat.log2_self_le hv
    refine ⟨?_, ?_⟩
    · rw [Nat.div_lt_iff_lt_mul (Nat.two_pow_pos _), ← Nat.pow_add]
      refine lt_of_lt_of_le hupper (Nat.pow_le_pow_right (by omega) ?_)
      omega
    · by_cases hlog : Nat.log2 v ≤ bits
      · exact .inl (by omega)
      · refine .inr ?_
        rw [Nat.le_div_iff_mul_le (Nat.two_pow_pos _), ← Nat.pow_add]
        rwa [show bits + (Nat.log2 v - bits) = Nat.log2 v by omega]

/-- **A value is recovered from its word** if nothing was cut off. -/
theorem value_word {bits v : Nat} (h : v % 2 ^ (Nat.log2 v - bits) = 0) :
    value bits (word bits v) = v := by
  obtain ⟨significand, shift, hnormal, hw, hvalue⟩ := exists_normal bits (word bits v)
  obtain ⟨rfl, rfl⟩ := hnormal.unique (normal_word bits v) hw.symm
  rw [hvalue]
  exact Nat.div_mul_cancel (Nat.dvd_of_mod_eq_zero h)

/-- A multiple with few enough significant bits loses none of them. -/
theorem mod_log2_eq_zero {bits s k : Nat} (hs : s < 2 ^ (bits + 1)) :
    s * 2 ^ k % 2 ^ (Nat.log2 (s * 2 ^ k) - bits) = 0 := by
  by_cases hzero : s = 0
  · simp [hzero]
  · have hne : s * 2 ^ k ≠ 0 := Nat.mul_ne_zero hzero (Nat.two_pow_pos k).ne'
    have hlog : Nat.log2 (s * 2 ^ k) < bits + 1 + k := by
      rw [Nat.log2_lt hne, Nat.pow_add]
      exact Nat.mul_lt_mul_of_pos_right hs (Nat.two_pow_pos k)
    have hdvd : 2 ^ (Nat.log2 (s * 2 ^ k) - bits) ∣ 2 ^ k := Nat.pow_dvd_pow 2 (by omega)
    exact Nat.mod_eq_zero_of_dvd (hdvd.mul_left s)

/-- The value of a word whose exponent field is below a bound. -/
theorem value_lt {bits w fields : Nat} (hfields : 2 ≤ fields) (hw : w < fields * 2 ^ bits) :
    value bits w < 2 ^ (bits + fields - 1) := by
  obtain ⟨significand, shift, hnormal, hsplit, hvalue⟩ := exists_normal bits w
  have hshift : shift + 1 < fields := by
    rcases hnormal.full with rfl | hfull
    · omega
    · -- the leading bit of the significand is one unit of the exponent field
      have hle : (shift + 1) * 2 ^ bits ≤ w := by
        rw [Nat.succ_mul]
        omega
      exact Nat.lt_of_mul_lt_mul_right (lt_of_le_of_lt hle hw)
  calc value bits w = significand * 2 ^ shift := hvalue
    _ < 2 ^ (bits + 1) * 2 ^ shift := Nat.mul_lt_mul_of_pos_right hnormal.lt (Nat.two_pow_pos shift)
    _ = 2 ^ (bits + 1 + shift) := (Nat.pow_add 2 (bits + 1) shift).symm
    _ ≤ 2 ^ (bits + fields - 1) := Nat.pow_le_pow_right (by omega) (by omega)

/-- The word of a multiple below a power of two. -/
theorem word_lt {bits v n : Nat} (hv : v < 2 ^ (bits + n + 1)) :
    word bits v < (n + 2) * 2 ^ bits := by
  have hnormal := normal_word bits v
  have hlt := hnormal.lt
  rw [Nat.pow_succ] at hlt
  have hshift : Nat.log2 v - bits ≤ n := by
    by_cases hzero : v = 0
    · simp [hzero]
    · have hlog : Nat.log2 v < bits + n + 1 := (Nat.log2_lt hzero).2 hv
      omega
  have hmul := Nat.mul_le_mul_right (2 ^ bits) hshift
  rw [word, Nat.add_mul]
  omega

end Layout

/-! ### Binary64 -/

namespace Binary64

theorem word_lt (x : Binary64) : x.word < 2 ^ 64 := x.bits.toNat_lt

theorem ext_word {x y : Binary64} (h : x.word = y.word) : x = y := by
  obtain ⟨a⟩ := x
  obtain ⟨b⟩ := y
  exact congrArg Binary64.mk (UInt64.toNat_inj.1 h)

theorem word_ofWord (negative : Bool) {w : Nat} (hw : w < 2 ^ 63) :
    (ofWord negative w).word = (if negative then 2 ^ 63 else 0) + w := by
  unfold ofWord word
  rw [Nat.pow_eq]
  change (UInt64.ofNat _).toNat = _
  rw [UInt64.toNat_ofNat']
  refine Nat.mod_eq_of_lt ?_
  cases negative <;> (simp; omega)

@[simp] theorem negative_ofWord (negative : Bool) {w : Nat} (hw : w < 2 ^ 63) :
    (ofWord negative w).negative = negative := by
  unfold Binary64.negative
  rw [word_ofWord negative hw, Nat.pow_eq]
  cases negative with
  | false => exact decide_eq_false (by simpa using hw)
  | true => exact decide_eq_true (by simp)

/-- A number is its sign and what is below the sign bit. -/
theorem ofWord_negative (x : Binary64) : ofWord x.negative (x.word % 2 ^ 63) = x := by
  have hword := x.word_lt
  have hbelow : x.word % 2 ^ 63 < 2 ^ 63 := Nat.mod_lt _ (by decide)
  refine ext_word ?_
  rw [word_ofWord _ hbelow]
  unfold Binary64.negative
  rw [Nat.pow_eq]
  by_cases hsign : 2 ^ 63 ≤ x.word
  · rw [decide_eq_true hsign]
    simp only [if_true]
    omega
  · rw [decide_eq_false hsign]
    simp only [Bool.false_eq_true, if_false]
    omega

/-- The absolute value is what the word below the sign bit stands for. -/
theorem magnitude_eq (x : Binary64) : x.magnitude = Layout.value 52 (x.word % 2 ^ 63) := by
  have hfield : x.word % 2 ^ 63 / 2 ^ 52 = x.field := by
    unfold field
    simp only [Nat.pow_eq]
    omega
  have hfraction : x.word % 2 ^ 63 % 2 ^ 52 = x.fraction := by
    unfold fraction
    simp only [Nat.pow_eq]
    omega
  unfold magnitude significand shift Layout.value
  rw [hfield, hfraction, Nat.pow_eq, Nat.pow_eq]

/-- The finite numbers are those whose word is below the infinities. -/
theorem isFinite_iff {x : Binary64} : x.isFinite = true ↔ x.word % 2 ^ 63 < 2047 * 2 ^ 52 := by
  have hword := x.word_lt
  unfold isFinite field
  simp only [Nat.pow_eq, bne_iff_ne]
  omega

theorem word_infinity (negative : Bool) :
    (infinity negative).word = (if negative then 2 ^ 63 else 0) + 2047 * 2 ^ 52 := by
  unfold infinity
  rw [Nat.pow_eq, word_ofWord negative (by decide)]

theorem isInfinite_iff {x : Binary64} : x.isInfinite = true ↔ x = infinity x.negative := by
  have hword := x.word_lt
  have hiff : x.isInfinite = true ↔ x.word % 2 ^ 63 = 2047 * 2 ^ 52 := by
    unfold isInfinite field fraction
    simp only [Nat.pow_eq, Bool.and_eq_true, beq_iff_eq]
    omega
  rw [hiff]
  constructor
  · intro h
    rw [infinity, Nat.pow_eq, ← h]
    exact (ofWord_negative x).symm
  · intro h
    rw [h, word_infinity]
    cases x.negative <;> decide

/-- A number is finite, infinite or not a number. -/
theorem isFinite_or_isInfinite {x : Binary64} (h : x.isNaN = false) :
    x.isFinite = true ∨ x.isInfinite = true := by
  unfold isNaN at h
  unfold isFinite isInfinite
  cases hfield : x.field == 2047 <;> cases hfraction : x.fraction == 0 <;>
    simp_all [bne]

theorem isInfinite_of_isFinite {x : Binary64} (h : x.isFinite = true) : x.isInfinite = false := by
  unfold isFinite at h
  unfold isInfinite
  rw [beq_eq_false_iff_ne.2 (bne_iff_ne.1 h), Bool.false_and]

/-! ### Rounding what is exact -/

/-- **A quotient that is a number is rounded to it.** -/
theorem roundWord_exact {num den w : Nat} (hden : 0 < den)
    (h : num * unitsPerOne = Layout.value 52 w * den) (hw : w < 2047 * 2 ^ 52) :
    roundWord num den = some w := by
  obtain ⟨significand, shift, hnormal, hsplit, hvalue⟩ := Layout.exists_normal 52 w
  have hquotient : num * unitsPerOne / den = significand * 2 ^ shift := by
    rw [h, hvalue, Nat.mul_div_cancel _ hden]
  have hnum : num * unitsPerOne = significand * (den * 2 ^ shift) := by
    rw [h, hvalue, Nat.mul_assoc, Nat.mul_comm (2 ^ shift) den]
  have hpos : 0 < den * 2 ^ shift := Nat.mul_pos hden (Nat.two_pow_pos shift)
  have hround : roundHalfEven (num * unitsPerOne) (den * 2 ^ shift) = significand := by
    -- there is no remainder
    unfold roundHalfEven
    rw [hnum, Nat.mul_div_cancel _ hpos, Nat.mul_mod_left]
    exact if_pos hpos
  unfold roundWord
  simp only [Nat.pow_eq]
  rw [hquotient, hnormal.log2_sub, hround, ← hsplit]
  exact if_pos hw

theorem ofQuotient_of_value {num den w : Nat} (negative : Bool) (hden : 0 < den)
    (h : num * unitsPerOne = Layout.value 52 w * den) (hw : w < 2047 * 2 ^ 52) :
    ofQuotient negative num den = ofWord negative w := by
  rw [ofQuotient, roundWord_exact hden h hw, Option.map_some, Option.getD_some]

/-- **A finite number is the nearest to its own value.** -/
theorem ofQuotient_exact {x : Binary64} (hx : x.isFinite = true) {num den : Nat} (hden : 0 < den)
    (h : num * unitsPerOne = x.magnitude * den) : ofQuotient x.negative num den = x := by
  rw [magnitude_eq] at h
  rw [ofQuotient_of_value x.negative hden h (isFinite_iff.1 hx), ofWord_negative]

end Binary64

end Blockwork
