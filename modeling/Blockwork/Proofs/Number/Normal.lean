import Blockwork.Proofs.Number.Exact

/-!
# Numbers in normal form

There are two words for zero and many for not-a-number. In normal form each of them has one, and
then numbers are equal to the program exactly when they are the same (`Binary64.eq_iff_normal_eq`).
-/

namespace Blockwork

namespace Binary64

/-- The number with one zero and one not-a-number. -/
def normal (x : Binary64) : Binary64 :=
  if x.magnitude = 0 then .zero else if x.isNaN then .nan else x

theorem magnitude_ne_zero_of_isNaN {x : Binary64} (h : x.isNaN = true) : x.magnitude ≠ 0 := by
  simp only [isNaN, Bool.and_eq_true, beq_iff_eq, bne_iff_ne] at h
  have hfield : x.field ≠ 0 := by omega
  have hsignificand : x.significand ≠ 0 := by
    rw [significand, if_neg hfield]
    have hpos : 0 < Nat.pow 2 52 := by decide
    omega
  have hshift : Nat.pow 2 x.shift ≠ 0 := by
    rw [Nat.pow_eq]
    exact (Nat.two_pow_pos _).ne'
  exact Nat.mul_ne_zero hsignificand hshift

/-- The words up to that of infinity are those of numbers. -/
theorem isNaN_ofWord (negative : Bool) {w : Nat} (hw : w ≤ 2047 * 2 ^ 52) :
    (ofWord negative w).isNaN = false := by
  rcases hw.lt_or_eq with hlt | rfl
  · have hfinite : (ofWord negative w).isFinite = true := by
      rw [isFinite_iff, word_ofWord negative (by omega)]
      split <;> omega
    unfold isFinite at hfinite
    rw [isNaN, beq_eq_false_iff_ne.2 (bne_iff_ne.1 hfinite), Bool.false_and]
  · cases negative <;> decide

theorem normal_of_isNaN {x : Binary64} (h : x.isNaN = true) : x.normal = .nan := by
  rw [normal, if_neg (magnitude_ne_zero_of_isNaN h), if_pos h]

theorem eq_nan_of_isNaN_normal {x : Binary64} (h : x.normal.isNaN = true) : x.normal = .nan := by
  unfold normal at h ⊢
  split_ifs with hzero hnan
  · rw [if_pos hzero] at h
    exact absurd h (by decide)
  · rfl
  · rw [if_neg hzero, if_neg hnan] at h
    exact absurd h hnan

/-- Numbers that are zero and those that are not stay apart. -/
theorem magnitude_normal_eq_zero {x : Binary64} : x.normal.magnitude = 0 ↔ x.magnitude = 0 := by
  unfold normal
  split_ifs with hzero hnan
  · exact iff_of_true (by decide) hzero
  · exact iff_of_false (magnitude_ne_zero_of_isNaN (by decide)) hzero
  · rfl

/-- A number of no magnitude is its sign alone. -/
theorem magnitude_eq_zero_iff {x : Binary64} :
    x.magnitude = 0 ↔ x = .zero ∨ x = .ofWord true 0 := by
  constructor
  · intro h
    have hword : x.word % 2 ^ 63 = 0 := by
      have hback := Layout.word_value 52 (x.word % 2 ^ 63)
      rw [← magnitude_eq, h] at hback
      exact hback.symm.trans (by decide)
    have hself := ofWord_negative x
    rw [hword] at hself
    cases hsign : x.negative with
    | true => exact .inr (by rw [← hself, hsign])
    | false => exact .inl (by rw [← hself, hsign]; rfl)
  · rintro (rfl | rfl) <;> decide

theorem normal_eq_self_of_magnitude {x : Binary64} (hnan : x.isNaN = false)
    (hne : x.magnitude ≠ 0) : x.normal = x := by
  rw [normal, if_neg hne, if_neg (by rw [hnan]; decide)]

/-- Only the negative zero and not-a-number are changed. -/
theorem normal_eq_self {x : Binary64} (hnan : x.isNaN = false) (hzero : x ≠ .ofWord true 0) :
    x.normal = x := by
  by_cases hmagnitude : x.magnitude = 0
  · rw [normal, if_pos hmagnitude]
    exact ((magnitude_eq_zero_iff.1 hmagnitude).resolve_right hzero).symm
  · exact normal_eq_self_of_magnitude hnan hmagnitude

theorem normal_normal (x : Binary64) : x.normal.normal = x.normal := by
  by_cases hzero : x.magnitude = 0
  · have hnormal : x.normal = .zero := if_pos hzero
    rw [hnormal]
    decide
  · cases hnan : x.isNaN with
    | true => rw [normal_of_isNaN hnan, normal_of_isNaN (by decide)]
    | false => rw [normal_eq_self_of_magnitude hnan hzero, normal_eq_self_of_magnitude hnan hzero]

/-! ### Comparison -/

theorem natAbs_scaled (x : Binary64) : x.scaled.natAbs = x.magnitude := by
  unfold scaled
  split
  · rw [Int.natAbs_neg, Int.natAbs_natCast]
  · rw [Int.natAbs_natCast]

/-- Two numbers of one sign and one magnitude are the same. -/
theorem ext_magnitude {x y : Binary64} (hsign : x.negative = y.negative)
    (h : x.magnitude = y.magnitude) : x = y := by
  rw [magnitude_eq, magnitude_eq] at h
  rw [← ofWord_negative x, ← ofWord_negative y, hsign, ← Layout.word_value 52 (x.word % 2 ^ 63), h,
    Layout.word_value]

/-- A value other than zero belongs to one word. -/
theorem eq_of_scaled_eq {x y : Binary64} (h : x.scaled = y.scaled) (hne : x.magnitude ≠ 0) :
    x = y := by
  have hmagnitude : x.magnitude = y.magnitude := by rw [← natAbs_scaled, h, natAbs_scaled]
  refine ext_magnitude ?_ hmagnitude
  unfold scaled at h
  rw [← hmagnitude] at h
  cases hx : x.negative <;> cases hy : y.negative
  · rfl
  · rw [hx, hy] at h
    simp only [Bool.false_eq_true, if_false, if_true] at h
    omega
  · rw [hx, hy] at h
    simp only [Bool.false_eq_true, if_false, if_true] at h
    omega
  · rfl

theorem scaled_normal {x : Binary64} (hx : x.isNaN = false) : x.normal.scaled = x.scaled := by
  by_cases hzero : x.magnitude = 0
  · have hscaled : x.scaled = 0 := Int.natAbs_eq_zero.1 (x.natAbs_scaled.trans hzero)
    rw [normal, if_pos hzero, hscaled]
    decide
  · rw [normal_eq_self_of_magnitude hx hzero]

theorem eq_iff_scaled_eq {x y : Binary64} (hx : x.isNaN = false) (hy : y.isNaN = false) :
    x.eq y = true ↔ x.scaled = y.scaled := by
  rw [Binary64.eq, hx, hy, Bool.not_false, Bool.true_and, Bool.true_and, beq_iff_eq]

/-- **Equal numbers are those with one normal form.** -/
theorem eq_iff_normal_eq {x y : Binary64} (hx : x.isNaN = false) (hy : y.isNaN = false) :
    x.eq y = true ↔ x.normal = y.normal := by
  rw [eq_iff_scaled_eq hx hy]
  constructor
  · intro h
    by_cases hzero : x.magnitude = 0
    · have hzero' : y.magnitude = 0 := by rw [← natAbs_scaled, ← h, natAbs_scaled, hzero]
      rw [normal, normal, if_pos hzero, if_pos hzero']
    · rw [eq_of_scaled_eq h hzero]
  · intro h
    rw [← scaled_normal hx, h, scaled_normal hy]

end Binary64

end Blockwork
