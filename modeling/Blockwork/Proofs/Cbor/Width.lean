import Blockwork.Cbor.Item
import Blockwork.Proofs.Number.Exact

/-!
# Floats in fewer bits

A number is written in sixteen or thirty-two bits when it is one of the numbers of that format. This
module shows that nothing is lost and nothing is missed: widening takes back what narrowing did
(`FloatFormat.widen_narrow`), and narrowing succeeds on every number that some word of the format
stands for (`FloatFormat.isSome_narrow?_iff`). The first makes the encoding of floats exact, the
second makes it the shortest.

Both come from one description of `narrow?` on finite numbers (`FloatFormat.narrow?_eq_some_iff`):
the word it gives is the one whose value, in the units of the format, is that of the number.
-/

namespace Blockwork.Cbor

namespace FloatFormat

/-- The format is contained in binary64. -/
structure Fits (f : FloatFormat) : Prop where
  fraction : f.fractionBits ≤ 52
  unit : f.unitExponent ≤ 1074
  fields : 2 ≤ f.lastField
  range : f.fractionBits + f.lastField + 1073 ≤ f.unitExponent + 2098

theorem half_fits : half.Fits := ⟨by decide, by decide, by decide, by decide⟩

theorem single_fits : single.Fits := ⟨by decide, by decide, by decide, by decide⟩

/-- A word with its sign. -/
def signed (f : FloatFormat) (negative : Bool) (w : Nat) : Nat :=
  (if negative then f.signPlace else 0) + w

/-- Some word of the format stands for the number. -/
def Holds (f : FloatFormat) (x : Binary64) : Prop := ∃ word < 2 * f.signPlace, f.widen word = x

variable {f : FloatFormat} {x : Binary64} {w : Nat}

theorem signPlace_eq (f : FloatFormat) :
    f.signPlace = f.lastField * 2 ^ f.fractionBits + 2 ^ f.fractionBits := by
  rw [signPlace, Nat.pow_eq, Nat.succ_mul]

/-- Every word is one with a sign. -/
theorem exists_signed {word : Nat} (h : word < 2 * f.signPlace) :
    ∃ negative w, w < f.signPlace ∧ word = f.signed negative w := by
  by_cases hsign : f.signPlace ≤ word
  · refine ⟨true, word - f.signPlace, by omega, ?_⟩
    rw [signed, if_pos rfl]
    omega
  · refine ⟨false, word, by omega, ?_⟩
    rw [signed, if_neg (by decide), Nat.zero_add]

/-! ### Widening -/

theorem decide_signPlace_le (negative : Bool) (hw : w < f.signPlace) :
    decide (f.signPlace ≤ f.signed negative w) = negative := by
  cases negative with
  | false => exact decide_eq_false (by simpa [signed] using hw)
  | true => exact decide_eq_true (by simp [signed])

theorem signed_mod (negative : Bool) (hw : w < f.signPlace) :
    f.signed negative w % f.signPlace = w := by
  cases negative with
  | false => simpa [signed] using Nat.mod_eq_of_lt hw
  | true => simpa [signed] using Nat.mod_eq_of_lt hw

/-- A word below the infinities stands for the quotient of its value and the unit. -/
theorem widen_value (negative : Bool) (hw : w < f.lastField * 2 ^ f.fractionBits) :
    f.widen (f.signed negative w)
      = .ofQuotient negative (Layout.value f.fractionBits w) (2 ^ f.unitExponent) := by
  have hplace : w < f.signPlace := by
    rw [signPlace_eq]
    exact Nat.lt_add_right _ hw
  have hfield : w / 2 ^ f.fractionBits ≠ f.lastField :=
    (Nat.div_lt_of_lt_mul (by rwa [Nat.mul_comm])).ne
  unfold widen
  simp only [Nat.pow_eq]
  rw [decide_signPlace_le negative hplace, signed_mod negative hplace, if_neg hfield]
  rfl

/-- The word after the finite ones stands for the infinity. -/
theorem widen_infinity (negative : Bool) :
    f.widen (f.signed negative (f.lastField * 2 ^ f.fractionBits)) = .infinity negative := by
  have hpos : 0 < 2 ^ f.fractionBits := Nat.two_pow_pos _
  have hplace : f.lastField * 2 ^ f.fractionBits < f.signPlace := by
    rw [signPlace_eq]
    omega
  unfold widen
  simp only [Nat.pow_eq]
  rw [decide_signPlace_le negative hplace, signed_mod negative hplace, Nat.mul_div_cancel _ hpos,
    if_pos rfl, if_pos (Nat.mul_mod_left _ _)]

/-- The words above stand for not-a-number. -/
theorem widen_nan (negative : Bool) (hplace : w < f.signPlace)
    (hw : f.lastField * 2 ^ f.fractionBits < w) : f.widen (f.signed negative w) = .nan := by
  have hpos : 0 < 2 ^ f.fractionBits := Nat.two_pow_pos _
  obtain ⟨fraction, rfl⟩ := Nat.exists_eq_add_of_lt hw
  have hfraction : fraction + 1 < 2 ^ f.fractionBits := by
    rw [signPlace_eq] at hplace
    omega
  have hfield : (f.lastField * 2 ^ f.fractionBits + fraction + 1) / 2 ^ f.fractionBits
      = f.lastField := by
    rw [Nat.add_assoc, Nat.mul_comm, Nat.mul_add_div hpos, Nat.div_eq_of_lt hfraction, Nat.add_zero]
  have hrest : (f.lastField * 2 ^ f.fractionBits + fraction + 1) % 2 ^ f.fractionBits ≠ 0 := by
    rw [Nat.add_assoc, Nat.mul_comm, Nat.mul_add_mod, Nat.mod_eq_of_lt hfraction]
    exact Nat.succ_ne_zero fraction
  unfold widen
  simp only [Nat.pow_eq]
  rw [signed_mod negative hplace, if_pos hfield, if_neg hrest]

/-! ### Narrowing -/

theorem narrow?_infinity (hx : x.isInfinite = true) :
    f.narrow? x = some (f.lastField * 2 ^ f.fractionBits) := by
  rw [narrow?, if_pos hx, Nat.pow_eq]

/-- **What narrowing gives** is the word with the value of the number. -/
theorem narrow?_eq_some_iff (hx : x.isInfinite = false) :
    f.narrow? x = some w ↔
      x.magnitude = Layout.value f.fractionBits w * 2 ^ (1074 - f.unitExponent) ∧
        w < f.lastField * 2 ^ f.fractionBits := by
  have hunit : 0 < 2 ^ (1074 - f.unitExponent) := Nat.two_pow_pos _
  have hopen : f.narrow? x
      = if x.magnitude % 2 ^ (1074 - f.unitExponent) = 0 ∧
            x.magnitude / 2 ^ (1074 - f.unitExponent) %
              2 ^ (Nat.log2 (x.magnitude / 2 ^ (1074 - f.unitExponent)) - f.fractionBits) = 0 ∧
            Layout.word f.fractionBits (x.magnitude / 2 ^ (1074 - f.unitExponent))
              < f.lastField * 2 ^ f.fractionBits then
          some (Layout.word f.fractionBits (x.magnitude / 2 ^ (1074 - f.unitExponent)))
        else none := by
    rw [narrow?, if_neg (by simp [hx])]
    simp only [Nat.pow_eq]
    rfl
  rw [hopen, Option.ite_none_right_eq_some, Option.some_inj]
  constructor
  · rintro ⟨⟨hmod, hplaces, hlt⟩, rfl⟩
    refine ⟨?_, hlt⟩
    rw [Layout.value_word hplaces]
    exact (Nat.div_mul_cancel (Nat.dvd_of_mod_eq_zero hmod)).symm
  · rintro ⟨hmagnitude, hlt⟩
    have hquotient : x.magnitude / 2 ^ (1074 - f.unitExponent) = Layout.value f.fractionBits w := by
      rw [hmagnitude, Nat.mul_div_cancel _ hunit]
    rw [hquotient, Layout.word_value]
    refine ⟨⟨?_, ?_, hlt⟩, rfl⟩
    · rw [hmagnitude, Nat.mul_mod_left]
    · -- a value of the format has no more bits than the format keeps
      obtain ⟨significand, shift, hnormal, -, hvalue⟩ := Layout.exists_normal f.fractionBits w
      rw [hvalue]
      exact Layout.mod_log2_eq_zero hnormal.lt

theorem narrow?_lt (hx : f.narrow? x = some w) : w < f.signPlace := by
  have hpos : 0 < 2 ^ f.fractionBits := Nat.two_pow_pos _
  rw [signPlace_eq]
  cases hinf : x.isInfinite with
  | true =>
    rw [narrow?_infinity hinf] at hx
    obtain rfl := Option.some.inj hx
    omega
  | false =>
    have hlt := ((narrow?_eq_some_iff hinf).1 hx).2
    omega

theorem signed_narrow?_lt (hx : f.narrow? x = some w) :
    f.signed x.negative w < 2 * f.signPlace := by
  have hlt := narrow?_lt hx
  unfold signed
  split <;> omega

/-- The units of the format in those of binary64. -/
theorem value_mul_unitsPerOne (hf : f.unitExponent ≤ 1074) (v : Nat) :
    v * Binary64.unitsPerOne = v * 2 ^ (1074 - f.unitExponent) * 2 ^ f.unitExponent := by
  have hunits : Binary64.unitsPerOne = 2 ^ (1074 - f.unitExponent) * 2 ^ f.unitExponent := by
    rw [← Nat.pow_add, Nat.sub_add_cancel hf, Binary64.unitsPerOne, Nat.pow_eq]
  rw [hunits, Nat.mul_assoc]

/-- **Widening takes narrowing back.** -/
theorem widen_narrow (hf : f.Fits) (hnan : x.isNaN = false) (h : f.narrow? x = some w) :
    f.widen (f.signed x.negative w) = x := by
  cases hinf : x.isInfinite with
  | true =>
    rw [narrow?_infinity hinf] at h
    obtain rfl := Option.some.inj h
    rw [widen_infinity]
    exact (Binary64.isInfinite_iff.1 hinf).symm
  | false =>
    have hfinite : x.isFinite = true := by
      rcases Binary64.isFinite_or_isInfinite hnan with hfinite | hinf'
      · exact hfinite
      · rw [hinf] at hinf'
        exact absurd hinf' (by decide)
    obtain ⟨hmagnitude, hlt⟩ := (narrow?_eq_some_iff hinf).1 h
    rw [widen_value x.negative hlt]
    refine Binary64.ofQuotient_exact hfinite (Nat.two_pow_pos _) ?_
    rw [value_mul_unitsPerOne hf.unit, hmagnitude]

/-- A finite number of the format is a finite number. -/
theorem Fits.exists_word (hf : f.Fits) (hw : w < f.lastField * 2 ^ f.fractionBits) :
    ∃ w' < 2047 * 2 ^ 52,
      Layout.value 52 w' = Layout.value f.fractionBits w * 2 ^ (1074 - f.unitExponent) := by
  refine ⟨_, ?_, Layout.value_word ?_⟩
  · -- it is not too large
    have hexponent : f.fractionBits + f.lastField - 1 + (1074 - f.unitExponent)
        ≤ 52 + 2045 + 1 := by
      have hrange := hf.range
      have hunit := hf.unit
      omega
    refine Layout.word_lt (n := 2045) ?_
    calc Layout.value f.fractionBits w * 2 ^ (1074 - f.unitExponent)
        < 2 ^ (f.fractionBits + f.lastField - 1) * 2 ^ (1074 - f.unitExponent) :=
          Nat.mul_lt_mul_of_pos_right (Layout.value_lt hf.fields hw) (Nat.two_pow_pos _)
      _ = 2 ^ (f.fractionBits + f.lastField - 1 + (1074 - f.unitExponent)) :=
          (Nat.pow_add ..).symm
      _ ≤ 2 ^ (52 + 2045 + 1) := Nat.pow_le_pow_right Nat.zero_lt_two hexponent
  · -- and has no more bits than binary64 keeps
    obtain ⟨significand, shift, hnormal, -, hvalue⟩ := Layout.exists_normal f.fractionBits w
    have hbits : significand < 2 ^ (52 + 1) :=
      lt_of_lt_of_le hnormal.lt
        (Nat.pow_le_pow_right Nat.zero_lt_two (Nat.succ_le_succ hf.fraction))
    rw [hvalue, Nat.mul_assoc, ← Nat.pow_add]
    exact Layout.mod_log2_eq_zero hbits

/-- **Every number of the format is narrowed.** -/
theorem isSome_narrow?_iff (hf : f.Fits) (hnan : x.isNaN = false) :
    (f.narrow? x).isSome = true ↔ f.Holds x := by
  constructor
  · intro h
    obtain ⟨w, hw⟩ := Option.isSome_iff_exists.1 h
    exact ⟨f.signed x.negative w, signed_narrow?_lt hw, widen_narrow hf hnan hw⟩
  · rintro ⟨word, hword, hx⟩
    obtain ⟨negative, w, hplace, rfl⟩ := exists_signed hword
    rcases lt_trichotomy w (f.lastField * 2 ^ f.fractionBits) with hlt | rfl | hgt
    · obtain ⟨w', hrange, hexact⟩ := hf.exists_word hlt
      have hnum : Layout.value f.fractionBits w * Binary64.unitsPerOne
          = Layout.value 52 w' * 2 ^ f.unitExponent := by
        rw [hexact, value_mul_unitsPerOne hf.unit]
      rw [widen_value negative hlt,
        Binary64.ofQuotient_of_value negative (Nat.two_pow_pos _) hnum hrange] at hx
      have hxword : x.word % 2 ^ 63 = w' := by
        rw [← hx, Binary64.word_ofWord negative (by omega)]
        cases negative <;> simp <;> omega
      have hfinite : x.isFinite = true := Binary64.isFinite_iff.2 (hxword ▸ hrange)
      refine Option.isSome_iff_exists.2
        ⟨w, (narrow?_eq_some_iff (Binary64.isInfinite_of_isFinite hfinite)).2 ⟨?_, hlt⟩⟩
      rw [Binary64.magnitude_eq, hxword, hexact]
    · rw [widen_infinity] at hx
      have hinf : x.isInfinite = true := by
        rw [← hx]
        cases negative <;> decide
      rw [narrow?_infinity hinf]
      rfl
    · -- the words above the infinity are not numbers
      rw [widen_nan negative hplace hgt] at hx
      rw [← hx] at hnan
      exact absurd hnan (by decide)

end FloatFormat

end Blockwork.Cbor
