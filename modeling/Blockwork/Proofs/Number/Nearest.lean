import Blockwork.Number.Decimal
import Blockwork.Proofs.Number.Exact

/-!
# The number nearest to a decimal

The nearest number belongs to the value of a decimal and not to the way it is written: a zero at
the end of the coefficient may be traded for a power of ten (`Decimal.nearestWord_mul_pow`). The
horizon takes no part in this, since it looks at the power of ten of the first digit, which stays.

What is close to a number is rounded to it (`Binary64.roundWord_of_close`). How close it has to be
is said by a relative error, so that it is the same for all numbers. At a power of two, where the
places below are half as far apart as those above, it is needed in full.
-/

namespace Blockwork

/-! ### Rounding a quotient in other terms -/

namespace Binary64

theorem roundHalfEven_mul (num den : Nat) {k : Nat} (hk : 0 < k) :
    roundHalfEven (num * k) (den * k) = roundHalfEven num den := by
  have hlt : ∀ a b : Nat, a * k < b * k ↔ a < b := fun a b => Nat.mul_lt_mul_right hk
  unfold roundHalfEven
  dsimp only
  rw [Nat.mul_div_mul_right _ _ hk, Nat.mul_mod_mul_right, ← Nat.mul_assoc]
  simp only [hlt]

/-- **Rounding looks at the quotient only.** -/
theorem roundWord_mul (num den : Nat) {k : Nat} (hk : 0 < k) :
    roundWord (num * k) (den * k) = roundWord num den := by
  have hscaled : num * k * unitsPerOne = num * unitsPerOne * k := Nat.mul_right_comm ..
  unfold roundWord
  dsimp only
  rw [hscaled, Nat.mul_div_mul_right _ _ hk, Nat.mul_right_comm den k, roundHalfEven_mul _ _ hk]

theorem unitsPerOne_pos : 0 < unitsPerOne := by decide +kernel

/-- What rounding gives is a finite number. -/
theorem roundWord_lt {num den w : Nat} (h : roundWord num den = some w) : w < 2047 * 2 ^ 52 := by
  unfold roundWord at h
  dsimp only at h
  split at h
  · next hlt => exact Option.some.inj h ▸ hlt
  · exact absurd h nofun

/-! ### Rounding what is close -/

/-- What is less than a half away is rounded to. -/
theorem roundHalfEven_of_near {num den s : Nat} (hlow : 2 * (s * den) < 2 * num + den)
    (hhigh : 2 * num < 2 * (s * den) + den) : roundHalfEven num den = s := by
  have hden : 0 < den := by omega
  unfold roundHalfEven
  dsimp only
  rcases Nat.lt_or_ge num (s * den) with hbelow | habove
  · obtain ⟨k, rfl⟩ : ∃ k, s = k + 1 := Nat.exists_eq_succ_of_ne_zero (by rintro rfl; omega)
    rw [Nat.succ_mul k den] at hlow hbelow
    obtain ⟨hquotient, hrest⟩ : num / den = k ∧ num % den = num - k * den := by
      rw [Nat.div_mod_unique hden, Nat.mul_comm den]
      omega
    rw [hquotient, hrest, if_neg (by omega), if_pos (by omega)]
  · obtain ⟨hquotient, hrest⟩ : num / den = s ∧ num % den = num - s * den := by
      rw [Nat.div_mod_unique hden, Nat.mul_comm den]
      omega
    rw [hquotient, hrest, if_pos (by omega)]

/-- The place of the last bit of a quotient, by its size. -/
theorem log2_sub_of_bounds {num den places : Nat}
    (hsize : places = 0 ∨ 2 ^ 52 * (den * 2 ^ places) ≤ num)
    (hbound : num < 2 ^ 53 * (den * 2 ^ places)) : Nat.log2 (num / den) - 52 = places := by
  have hden : 0 < den := Nat.pos_of_ne_zero (by rintro rfl; simp at hbound)
  have hscale : ∀ k, 2 ^ k * (den * 2 ^ places) = 2 ^ (k + places) * den := fun k => by
    rw [Nat.pow_add, Nat.mul_right_comm, Nat.mul_assoc]
  rw [hscale] at hsize hbound
  have hupper : num / den < 2 ^ (53 + places) := (Nat.div_lt_iff_lt_mul hden).2 hbound
  rcases hsize with rfl | hlower
  · rcases Nat.eq_zero_or_pos (num / den) with hzero | hpos
    · rw [hzero]
      rfl
    · have hlog : Nat.log2 (num / den) < 53 + 0 := (Nat.log2_lt hpos.ne').2 hupper
      omega
  · have hlower : 2 ^ (52 + places) ≤ num / den := (Nat.le_div_iff_mul_le hden).2 hlower
    have hne : num / den ≠ 0 := ((Nat.two_pow_pos _).trans_le hlower).ne'
    have hfirst : 52 + places ≤ Nat.log2 (num / den) := (Nat.le_log2 hne).2 hlower
    have hlast : Nat.log2 (num / den) < 53 + places := (Nat.log2_lt hne).2 hupper
    omega

/-- **A quotient is rounded to a significand that is less than half a place away**, if that place is
the last one of numbers of this size. -/
theorem roundWord_of_near {num den s places : Nat}
    (hsize : places = 0 ∨ 2 ^ 52 * (den * 2 ^ places) ≤ num * unitsPerOne)
    (hbound : num * unitsPerOne < 2 ^ 53 * (den * 2 ^ places))
    (hlow : 2 * (s * (den * 2 ^ places)) < 2 * (num * unitsPerOne) + den * 2 ^ places)
    (hhigh : 2 * (num * unitsPerOne) < 2 * (s * (den * 2 ^ places)) + den * 2 ^ places)
    (hw : places * 2 ^ 52 + s < 2047 * 2 ^ 52) :
    roundWord num den = some (places * 2 ^ 52 + s) := by
  unfold roundWord
  simp only [Nat.pow_eq]
  rw [log2_sub_of_bounds hsize hbound, roundHalfEven_of_near hlow hhigh]
  exact if_pos hw

/-- **A quotient that is close to a number is rounded to it**: so close that it differs by no more
than half of what `10 ^ 16` go into. -/
theorem roundWord_of_close {num den w e : Nat} (hden : 0 < den) (hw : w < 2047 * 2 ^ 52)
    (hclose : 10 ^ 16 * e ≤ Layout.value 52 w * den)
    (hlow : 2 * (Layout.value 52 w * den) ≤ 2 * (num * unitsPerOne) + e)
    (hhigh : 2 * (num * unitsPerOne) ≤ 2 * (Layout.value 52 w * den) + e) :
    roundWord num den = some w := by
  obtain ⟨s, t, hnormal, rfl, hvalue⟩ := Layout.exists_normal 52 w
  have hlt := hnormal.lt
  have hproduct : Layout.value 52 (t * 2 ^ 52 + s) * den = s * (den * 2 ^ t) := by
    rw [hvalue]
    ac_rfl
  rw [hproduct] at hclose hlow hhigh
  by_cases hplace : t = 0 ∨ 2 ^ 52 < s ∨ s * (den * 2 ^ t) ≤ num * unitsPerOne
  · have hpos : 0 < den * 2 ^ t := Nat.mul_pos hden (Nat.two_pow_pos t)
    have hnext : (s + 1) * (den * 2 ^ t) ≤ 2 ^ 53 * (den * 2 ^ t) := Nat.mul_le_mul_right _ hlt
    rw [Nat.succ_mul] at hnext
    refine roundWord_of_near ?_ (by omega) (by omega) (by omega) hw
    rcases hplace with hzero | hinside | habove
    · exact .inl hzero
    · have hfirst : (2 ^ 52 + 1) * (den * 2 ^ t) ≤ s * (den * 2 ^ t) :=
        Nat.mul_le_mul_right _ hinside
      rw [Nat.succ_mul] at hfirst
      exact .inr (by omega)
    · refine hnormal.full.imp id fun hfull => ?_
      exact (Nat.mul_le_mul_right _ hfull).trans habove
  · -- below a power of two the places are half as far apart
    obtain ⟨hpositive, hsmall, hbelow⟩ :
        t ≠ 0 ∧ s ≤ 2 ^ 52 ∧ num * unitsPerOne < s * (den * 2 ^ t) := by
      simpa using hplace
    obtain ⟨k, rfl⟩ := Nat.exists_eq_succ_of_ne_zero hpositive
    have hfirst : s = 2 ^ 52 := Nat.le_antisymm hsmall (hnormal.full.resolve_left hpositive)
    have hpos : 0 < den * 2 ^ k := Nat.mul_pos hden (Nat.two_pow_pos k)
    have hdouble : s * (den * 2 ^ (k + 1)) = 2 ^ 53 * (den * 2 ^ k) := by
      rw [hfirst, Nat.pow_succ 2 k, ← Nat.mul_assoc den]
      omega
    rw [hdouble] at hclose hlow hhigh hbelow
    have hword : (k + 1) * 2 ^ 52 + s = k * 2 ^ 52 + 2 ^ 53 := by omega
    rw [hword] at hw ⊢
    exact roundWord_of_near (.inr (by omega)) hbelow (by omega) (by omega) hw

end Binary64

/-! ### Digits and their number -/

namespace Decimal

theorem ten_pow_pos (k : Nat) : 0 < 10 ^ k := Nat.pow_pos (by decide)

theorem width_pos (n : Nat) : 0 < width n := Nat.length_toDigits_pos

theorem width_le_iff {n k : Nat} (hk : 0 < k) : width n ≤ k ↔ n < 10 ^ k :=
  Nat.length_toDigits_le_iff (by decide) hk

/-- A power of ten adds zeros. -/
theorem digits_mul_pow {c : Nat} (hc : 0 < c) (k : Nat) :
    digits (c * 10 ^ k) = digits c ++ List.replicate k '0' := by
  induction k with
  | zero => rw [Nat.pow_zero, Nat.mul_one, List.replicate_zero, List.append_nil]
  | succ k ih =>
    have happend := Nat.toDigits_append_toDigits (b := 10) (n := c * 10 ^ k) (d := 0) (by decide)
      (Nat.mul_pos hc (ten_pow_pos k)) (by decide)
    have hnext : c * 10 ^ (k + 1) = 10 * (c * 10 ^ k) + 0 := by
      rw [Nat.pow_succ, ← Nat.mul_assoc, Nat.mul_comm _ 10, Nat.add_zero]
    unfold digits at ih ⊢
    rw [hnext, ← happend, ih, List.append_assoc, List.replicate_succ']
    rfl

theorem width_mul_pow {c : Nat} (hc : 0 < c) (k : Nat) : width (c * 10 ^ k) = width c + k := by
  unfold width
  rw [digits_mul_pow hc, List.length_append, List.length_replicate]

/-! ### The nearest number -/

theorem nearestWord_nothing (e : Int) : nearestWord 0 e = some 0 := if_pos rfl

/-- Inside the horizon a decimal is rounded as a quotient of powers of ten. -/
theorem nearestWord_eq {c : Nat} {e : Int} (hc : 0 < c) (hlow : -400 ≤ (width c : Int) + e)
    (hhigh : (width c : Int) + e ≤ 400) {a b : Nat} (he : e = a - b) :
    nearestWord c e = Binary64.roundWord (c * 10 ^ a) (10 ^ b) := by
  unfold nearestWord horizon
  rw [if_neg hc.ne', if_neg (Int.not_lt.2 hhigh), if_neg (Int.not_lt.2 hlow)]
  simp only [Nat.pow_eq]
  split
  · next hsign =>
    -- the numerator has the larger power
    have ha : a = e.toNat + b := by omega
    have hround := Binary64.roundWord_mul (c * 10 ^ e.toNat) 1 (ten_pow_pos b)
    rw [Nat.one_mul, Nat.mul_assoc, ← Nat.pow_add, ← ha] at hround
    exact hround.symm
  · next hsign =>
    have hb : b = (-e).toNat + a := by omega
    have hround := Binary64.roundWord_mul c (10 ^ (-e).toNat) (ten_pow_pos a)
    rw [← Nat.pow_add, ← hb] at hround
    exact hround.symm

/-- **Zeros at the end of a coefficient can be traded for a power of ten.** -/
theorem nearestWord_mul_pow (c k : Nat) (e : Int) :
    nearestWord (c * 10 ^ k) e = nearestWord c (e + k) := by
  rcases Nat.eq_zero_or_pos c with rfl | hc
  · rw [Nat.zero_mul, nearestWord_nothing, nearestWord_nothing]
  · have hpos : 0 < c * 10 ^ k := Nat.mul_pos hc (ten_pow_pos k)
    have horder : (width (c * 10 ^ k) : Int) + e = width c + (e + k) := by
      rw [width_mul_pow hc]
      omega
    by_cases hinside : -400 ≤ (width c : Int) + (e + k) ∧ (width c : Int) + (e + k) ≤ 400
    · obtain ⟨hlow, hhigh⟩ := hinside
      have he : e = (e.toNat : Int) - ((-e).toNat : Int) := by omega
      rw [nearestWord_eq hpos (horder ▸ hlow) (horder ▸ hhigh) he,
        nearestWord_eq hc hlow hhigh (a := k + e.toNat) (b := (-e).toNat) (by omega),
        Nat.pow_add, Nat.mul_assoc]
    · -- beyond the horizon only the power of ten of the first digit counts
      unfold nearestWord horizon
      rw [if_neg hpos.ne', if_neg hc.ne', horder]
      by_cases hhigh : 400 < (width c : Int) + (e + k)
      · rw [if_pos hhigh, if_pos hhigh]
      · have hlow : (width c : Int) + (e + k) < -400 := by omega
        rw [if_neg hhigh, if_neg hhigh, if_pos hlow, if_pos hlow]

/-- What a decimal reads as is a finite number. -/
theorem nearestWord_lt {c : Nat} {e : Int} {w : Nat} (h : nearestWord c e = some w) :
    w < 2047 * 2 ^ 52 := by
  unfold nearestWord at h
  split at h
  · exact Option.some.inj h ▸ (by decide)
  split at h
  · exact absurd h nofun
  split at h
  · exact Option.some.inj h ▸ (by decide)
  split at h <;> exact Binary64.roundWord_lt h

/-- A whole number below `10 ^ 400` is rounded as it is. -/
theorem nearestWord_zero {n : Nat} (hn : n < 10 ^ 400) :
    nearestWord n 0 = if n = 0 then some 0 else Binary64.roundWord n 1 := by
  split
  · next hzero =>
    rw [hzero, nearestWord_nothing]
  · next hne =>
    have hwidth : width n ≤ 400 := (width_le_iff (by decide)).2 hn
    exact (nearestWord_eq (Nat.pos_of_ne_zero hne) (by omega) (by omega) (a := 0) (b := 0)
      rfl).trans
      (by rw [Nat.pow_zero, Nat.mul_one])

end Decimal

end Blockwork
