import Blockwork.Proofs.Number.Truncation

/-!
# Rounding to a count

A number that counts is rounded to the nearest whole number, a half away from zero, and clamped to
the 64-bit integers; not-a-number counts as zero. `Binary64.Rounded` says so without a word of how
it is computed. That the machine gets it right (`Binary64.rounded_iff`) needs that rounding is
exact: a number with a fraction is below `2 ^ 53`, and so is what it is rounded to.
-/

namespace Blockwork

namespace Binary64

/-- The whole number nearest to `x`; of two the one farther from zero. -/
def Nearest (x : Binary64) (k : Int) : Prop :=
  2 * (k * unitsPerOne - x.scaled).natAbs ≤ unitsPerOne ∧
    (2 * (k * unitsPerOne - x.scaled).natAbs = unitsPerOne → x.magnitude < k.natAbs * unitsPerOne)

/-- The 64-bit integer that `x` is rounded to: zero for not-a-number, and the least or the greatest
for what lies beyond. -/
def Rounded (x : Binary64) (i : Int) : Prop :=
  x.isNaN = true ∧ i = 0 ∨
    x.isNaN = false ∧ ∃ k, x.Nearest k ∧ i = max leastIndex (min greatestIndex k)

/-! ### The nearest whole number -/

/-- The magnitude rounded to whole numbers, a half up. -/
def wholeMagnitude (x : Binary64) : Nat := (2 * x.magnitude + unitsPerOne) / (2 * unitsPerOne)

/-- With the sign of `x`. -/
def whole (x : Binary64) : Int :=
  if x.negative then -(x.wholeMagnitude : Int) else (x.wholeMagnitude : Int)

theorem wholeMagnitude_bounds (x : Binary64) :
    2 * (x.wholeMagnitude * unitsPerOne) ≤ 2 * x.magnitude + unitsPerOne ∧
      2 * x.magnitude < 2 * (x.wholeMagnitude * unitsPerOne) + unitsPerOne := by
  have hpos : 0 < 2 * unitsPerOne := Nat.mul_pos (by decide) unitsPerOne_pos
  have hlow : x.wholeMagnitude * (2 * unitsPerOne) ≤ 2 * x.magnitude + unitsPerOne :=
    Nat.div_mul_le_self ..
  have hhigh : 2 * x.magnitude + unitsPerOne < (x.wholeMagnitude + 1) * (2 * unitsPerOne) :=
    Nat.lt_mul_of_div_lt (Nat.lt_succ_self _) hpos
  rw [Nat.add_mul] at hhigh
  rw [Nat.mul_left_comm] at hlow hhigh
  omega

/-- Between two whole numbers the nearer one is found by rounding up from the half. -/
theorem nearest_iff_of_bounds {m w u : Nat} (hu : 0 < u) (hlow : 2 * (w * u) ≤ 2 * m + u)
    (hhigh : 2 * m < 2 * (w * u) + u) (k : Int) :
    (2 * (k * u - m).natAbs ≤ u ∧ (2 * (k * u - m).natAbs = u → m < k.natAbs * u)) ↔ k = w := by
  have hproduct : k.natAbs * u = (k * u).natAbs := by rw [Int.natAbs_mul, Int.natAbs_natCast]
  have hcast : ((w * u : Nat) : Int) = w * u := Int.natCast_mul w u
  rw [hproduct]
  constructor
  · rintro ⟨hnear, htie⟩
    rcases Int.lt_trichotomy k w with hlt | heq | hgt
    · have hstep : (k + 1) * u ≤ (w : Int) * u :=
        Int.mul_le_mul_of_nonneg_right (by omega) (by omega)
      rw [Int.add_mul, Int.one_mul] at hstep
      -- the only candidate is half way below, and then it is not the one farther from zero
      have hsign : 0 ≤ k ∧ 0 ≤ k * u ∨ k * u ≤ -1 * u := by
        by_cases hk : 0 ≤ k
        · exact .inl ⟨hk, Int.mul_nonneg hk (by omega)⟩
        · exact .inr (Int.mul_le_mul_of_nonneg_right (by omega) (by omega))
      omega
    · exact heq
    · have hstep : ((w : Int) + 1) * u ≤ k * u :=
        Int.mul_le_mul_of_nonneg_right (by omega) (by omega)
      rw [Int.add_mul, Int.one_mul] at hstep
      omega
  · rintro rfl
    rw [← hcast]
    omega

theorem nearest_iff (x : Binary64) (k : Int) : x.Nearest k ↔ k = x.whole := by
  obtain ⟨hlow, hhigh⟩ := x.wholeMagnitude_bounds
  have hiff := nearest_iff_of_bounds unitsPerOne_pos hlow hhigh
  unfold Nearest whole scaled
  split
  · have hneg : k * unitsPerOne - -(x.magnitude : Int) = -(-k * unitsPerOne - x.magnitude) := by
      rw [Int.neg_mul]
      omega
    rw [hneg, Int.natAbs_neg, ← Int.natAbs_neg k, hiff (-k)]
    omega
  · exact hiff k

/-! ### Rounding is exact -/

theorem wholeMagnitude_of_dvd {x : Binary64} (h : unitsPerOne ∣ x.magnitude) :
    x.wholeMagnitude * unitsPerOne = x.magnitude := by
  obtain ⟨hlow, hhigh⟩ := x.wholeMagnitude_bounds
  obtain ⟨n, hn⟩ := dvd_iff_exists_eq_mul_left.1 h
  have heq : (n : Int) = x.wholeMagnitude := by
    rw [← nearest_iff_of_bounds unitsPerOne_pos hlow hhigh, hn, Int.natCast_mul, Int.sub_self]
    have := unitsPerOne_pos
    omega
  rw [hn, ← Int.ofNat_inj.1 heq]

/-- A magnitude without or with a fraction. Rounding gives less than `2 ^ 53` when there is one. -/
theorem dvd_or_wholeMagnitude_lt (x : Binary64) :
    unitsPerOne ∣ x.magnitude ∨ x.wholeMagnitude < 2 ^ 53 := by
  obtain ⟨hlow, -⟩ := x.wholeMagnitude_bounds
  obtain ⟨significand, shift, hnormal, -, hvalue⟩ := Layout.exists_normal 52 (x.word % 2 ^ 63)
  rw [← magnitude_eq] at hvalue
  -- the exponent is kept opaque, so that no power of two is computed
  obtain ⟨k, hk⟩ : ∃ k, 1074 = k := ⟨_, rfl⟩
  rw [unitsPerOne_eq hk] at hlow ⊢
  rcases Nat.lt_or_ge shift k with hshift | hshift
  · -- there is a fraction, so the significand was shifted to the right
    refine .inr (Nat.lt_of_not_le fun hle => ?_)
    have hhalf : 2 ^ shift * 2 ≤ 2 ^ k := by
      rw [← Nat.pow_succ]
      exact Nat.pow_le_pow_right (by decide) hshift
    have hmagnitude : 2 * x.magnitude ≤ 2 ^ 53 * 2 ^ k := by
      calc 2 * x.magnitude = significand * (2 ^ shift * 2) := by rw [hvalue]; ac_rfl
        _ ≤ 2 ^ 53 * 2 ^ k := Nat.mul_le_mul hnormal.lt.le hhalf
    have hwhole : 2 ^ 53 * 2 ^ k ≤ x.wholeMagnitude * 2 ^ k := Nat.mul_le_mul_right _ hle
    have hpos : 0 < 2 ^ k := Nat.two_pow_pos k
    omega
  · -- it was shifted far enough to the left
    refine .inl ?_
    rw [hvalue]
    exact (Nat.pow_dvd_pow 2 hshift).mul_left significand

/-- What a finite number is rounded to is a number. -/
theorem exists_word_whole {x : Binary64} (hx : x.word % 2 ^ 63 < 2047 * 2 ^ 52) :
    ∃ w < 2047 * 2 ^ 52, Layout.value 52 w = x.wholeMagnitude * unitsPerOne := by
  rcases x.dvd_or_wholeMagnitude_lt with hdvd | hsmall
  · exact ⟨_, hx, by rw [← magnitude_eq, wholeMagnitude_of_dvd hdvd]⟩
  · obtain ⟨k, hk⟩ : ∃ k, 1074 = k := ⟨_, rfl⟩
    have hfields : k + 2 ≤ 2047 := by omega
    rw [unitsPerOne_eq hk]
    refine ⟨Layout.word 52 (x.wholeMagnitude * 2 ^ k), ?_,
      Layout.value_word (Layout.mod_log2_eq_zero hsmall)⟩
    have hlt : x.wholeMagnitude * 2 ^ k < 2 ^ (52 + k + 1) := by
      rw [show 52 + k + 1 = 53 + k by omega, Nat.pow_add]
      exact Nat.mul_lt_mul_of_pos_right hsmall (Nat.two_pow_pos k)
    exact (Layout.word_lt hlt).trans_le (Nat.mul_le_mul_right _ hfields)

theorem truncate_of_magnitude {x : Binary64} {n : Nat} (h : x.magnitude = n * unitsPerOne) :
    x.truncate = if x.negative then -(n : Int) else n := by
  have hpos : (unitsPerOne : Int) ≠ 0 := Int.natCast_ne_zero.2 unitsPerOne_pos.ne'
  unfold truncate scaled
  rw [h, Int.natCast_mul]
  split
  · rw [Int.neg_tdiv, Int.mul_tdiv_cancel _ hpos]
  · rw [Int.mul_tdiv_cancel _ hpos]

/-- Rounding goes to the nearest whole number. -/
theorem truncate_round {x : Binary64} (hx : x.isNaN = false) :
    x.round.isNaN = false ∧ x.round.truncate = x.whole := by
  rcases isFinite_or_isInfinite hx with hfinite | hinfinite
  · -- the whole number beside it is a finite word, and dividing gives exactly that
    obtain ⟨w, hw, hvalue⟩ := exists_word_whole (isFinite_iff.1 hfinite)
    have hround : x.round = ofWord x.negative w := by
      rw [round, if_pos hfinite]
      exact ofQuotient_of_value _ Nat.one_pos (by rw [Nat.mul_one]; exact hvalue.symm) hw
    have hword : (ofWord x.negative w).word % 2 ^ 63 = w := by
      rw [word_ofWord _ (by omega)]
      split <;> omega
    rw [hround]
    refine ⟨isNaN_ofWord _ hw.le, ?_⟩
    rw [truncate_of_magnitude (n := x.wholeMagnitude) (by rw [magnitude_eq, hword, hvalue]),
      negative_ofWord _ (by omega)]
    rfl
  · -- an infinity rounds to itself
    have hround : x.round = x := if_neg (by simp_all [isFinite, isInfinite])
    have hdvd : ∀ negative, unitsPerOne ∣ (infinity negative).magnitude := by decide +kernel
    rw [hround]
    refine ⟨hx, truncate_of_magnitude (wholeMagnitude_of_dvd ?_).symm⟩
    rw [isInfinite_iff.1 hinfinite]
    exact hdvd _

/-- **Counts are rounded as they should be.** -/
theorem rounded_iff (x : Binary64) (i : Int) : x.Rounded i ↔ i = x.round.toIndex := by
  unfold Rounded
  cases hx : x.isNaN with
  | true =>
    have hround : x.round = x := if_neg (by simp_all [isFinite, isNaN])
    simp [hround, hx, toIndex]
  | false =>
    obtain ⟨hnan, htruncate⟩ := truncate_round hx
    simp [nearest_iff, toIndex_eq_clamp hnan, htruncate]

end Binary64

end Blockwork
