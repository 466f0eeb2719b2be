import Blockwork.Proofs.Number.Nearest
import Blockwork.Proofs.Number.Normal
import Mathlib.Data.Rat.Floor
import Mathlib.Tactic.Ring

/-!
# Numbers as 64-bit integers

A number becomes a 64-bit integer by cutting its exact value toward zero; what is beyond the 64-bit
integers becomes the nearest of them, and not-a-number becomes zero. `Binary64.Saturates` says so in
terms of the exact value, and `Binary64.saturates_iff` that the machine gets it right.

The machine compares with the limits as numbers before it cuts. The greatest 64-bit integer is no
number, and `2 ^ 63` stands for it. That is right because a number below `2 ^ 63` is cut to an
integer below `2 ^ 63` (`Binary64.le_truncate_iff`), so the cut is only made where its result is a
64-bit integer (`Binary64.truncate_of_between`).
-/

namespace Blockwork

namespace Binary64

/-! ### Exact values -/

/-- The absolute value of a finite number: its fraction, behind a one unless the exponent field is
zero, at the place that the exponent field gives. -/
def absValue (x : Binary64) : ℚ :=
  if x.field = 0 then (x.fraction : ℚ) / 2 ^ 52 * (2 : ℚ) ^ (-1022 : ℤ)
  else (1 + (x.fraction : ℚ) / 2 ^ 52) * (2 : ℚ) ^ ((x.field : ℤ) - 1023)

/-- The exact value of a finite number. -/
def value (x : Binary64) : ℚ := if x.negative then -x.absValue else x.absValue

/-- The whole number that a value is cut to, toward zero. -/
def cut (q : ℚ) : ℤ := if 0 ≤ q then ⌊q⌋ else ⌈q⌉

theorem unitsPerOne_eq {k : Nat} (hk : 1074 = k) : unitsPerOne = 2 ^ k := by
  unfold unitsPerOne
  rw [hk, Nat.pow_eq]

theorem absValue_mul_unitsPerOne (x : Binary64) : x.absValue * unitsPerOne = x.magnitude := by
  -- the exponent is kept as a name, so that no power of this size is computed
  obtain ⟨k, hk⟩ : ∃ k, 1074 = k := ⟨_, rfl⟩
  have hunits : (unitsPerOne : ℚ) = (2 : ℚ) ^ (k : ℤ) := by
    rw [unitsPerOne_eq hk, Nat.cast_pow, Nat.cast_ofNat, zpow_natCast]
  have hplaces : ∀ e : ℕ, ∀ n : ℤ, n + k = e + 52 →
      (2 : ℚ) ^ n * (2 : ℚ) ^ (k : ℤ) = 2 ^ 52 * 2 ^ e := by
    intro e n hn
    rw [← zpow_add₀ two_ne_zero, hn, zpow_add₀ two_ne_zero, zpow_natCast, mul_comm]
    rfl
  unfold absValue magnitude significand shift
  rw [hunits]
  by_cases hfield : x.field = 0
  · rw [if_pos hfield, if_pos hfield, mul_assoc, hplaces 0 _ (by omega), hfield]
    simp
  · obtain ⟨e, he⟩ := Nat.exists_eq_succ_of_ne_zero hfield
    rw [if_neg hfield, if_neg hfield, mul_assoc, hplaces e _ (by omega), he]
    rw [Nat.pow_eq, Nat.pow_eq]
    push_cast
    ring

theorem value_eq (x : Binary64) : x.value = x.scaled / unitsPerOne := by
  have hunits : (unitsPerOne : ℚ) ≠ 0 := Nat.cast_ne_zero.2 unitsPerOne_pos.ne'
  rw [eq_div_iff hunits, value, scaled]
  split
  · rw [neg_mul, absValue_mul_unitsPerOne, Int.cast_neg, Int.cast_natCast]
  · rw [absValue_mul_unitsPerOne, Int.cast_natCast]

/-- **Cutting is exact.** -/
theorem truncate_eq_cut (x : Binary64) : x.truncate = cut x.value := by
  have hpos : (0 : ℚ) < unitsPerOne := Nat.cast_pos.2 unitsPerOne_pos
  rw [value_eq, truncate, cut]
  rcases le_or_gt 0 x.scaled with hsign | hsign
  · rw [if_pos (div_nonneg (Int.cast_nonneg hsign) hpos.le), Rat.floor_intCast_div_natCast,
      Int.tdiv_eq_ediv_of_nonneg hsign]
  · -- below zero cutting is rounding up, which is rounding down on the other side
    have hneg : (x.scaled : ℚ) / unitsPerOne < 0 :=
      div_neg_of_neg_of_pos (Int.cast_lt_zero.2 hsign) hpos
    rw [if_neg (not_le.2 hneg), ← neg_neg ((x.scaled : ℚ) / unitsPerOne), ← neg_div,
      ← Int.cast_neg, Int.ceil_neg, Rat.floor_intCast_div_natCast, ← Int.neg_neg x.scaled,
      Int.neg_tdiv, Int.tdiv_eq_ediv_of_nonneg (Int.neg_nonneg.2 hsign.le), Int.neg_neg]

/-! ### The limits -/

theorem le_iff_scaled_le {x y : Binary64} (hx : x.isNaN = false) (hy : y.isNaN = false) :
    x.le y = true ↔ x.scaled ≤ y.scaled := by
  rw [le, hx, hy, Bool.not_false, Bool.true_and, Bool.true_and, decide_eq_true_eq]

/-- **What is cut to a positive integer or more** is that integer or more itself. -/
theorem le_truncate_iff (x : Binary64) {n : Int} (hn : 0 < n) :
    n ≤ x.truncate ↔ n * unitsPerOne ≤ x.scaled := by
  have hpos : (0 : Int) < unitsPerOne := Int.natCast_pos.2 unitsPerOne_pos
  rw [truncate]
  rcases le_or_gt 0 x.scaled with hsign | hsign
  · rw [Int.tdiv_eq_ediv_of_nonneg hsign, Int.le_ediv_iff_mul_le hpos]
  · have hcut : x.scaled.tdiv unitsPerOne ≤ 0 :=
      (Int.tdiv_le_tdiv hpos hsign.le).trans_eq (Int.zero_tdiv _)
    have hproduct : 0 < n * unitsPerOne := Int.mul_pos hn hpos
    omega

/-- What is cut to a negative integer or less is that integer or less itself. -/
theorem truncate_le_iff (x : Binary64) {n : Int} (hn : n < 0) :
    x.truncate ≤ n ↔ x.scaled ≤ n * unitsPerOne := by
  have hpos : (0 : Int) < unitsPerOne := Int.natCast_pos.2 unitsPerOne_pos
  rw [truncate]
  rcases le_or_gt 0 x.scaled with hsign | hsign
  · have hcut : 0 ≤ x.scaled.tdiv unitsPerOne := Int.tdiv_nonneg hsign hpos.le
    have hproduct : n * unitsPerOne < 0 := Int.mul_neg_of_neg_of_pos hn hpos
    omega
  · have hflip := Int.le_ediv_iff_mul_le (a := -n) (b := -x.scaled) hpos
    rw [← Int.neg_neg x.scaled, Int.neg_tdiv,
      Int.tdiv_eq_ediv_of_nonneg (Int.neg_nonneg.2 hsign.le)]
    rw [Int.neg_mul] at hflip
    omega

theorem scaled_limits :
    (ofInt greatestIndex).scaled = (greatestIndex + 1) * unitsPerOne ∧
      (ofInt leastIndex).scaled = leastIndex * unitsPerOne ∧
      (ofInt greatestIndex).isNaN = false ∧ (ofInt leastIndex).isNaN = false := by
  decide +kernel

theorem limits_eq : leastIndex = -2 ^ 63 ∧ greatestIndex = 2 ^ 63 - 1 := by decide

/-- The first limit is reached by what is cut to more than the greatest 64-bit integer. -/
theorem greatest_le_iff {x : Binary64} (hx : x.isNaN = false) :
    (ofInt greatestIndex).le x = true ↔ greatestIndex < x.truncate := by
  obtain ⟨hgreatest, -, hnan, -⟩ := scaled_limits
  have hpos : 0 < greatestIndex + 1 := by decide
  rw [le_iff_scaled_le hnan hx, hgreatest, ← x.le_truncate_iff hpos]
  exact Int.add_one_le_iff

theorem le_least_iff {x : Binary64} (hx : x.isNaN = false) :
    x.le (ofInt leastIndex) = true ↔ x.truncate ≤ leastIndex := by
  obtain ⟨-, hleast, -, hnan⟩ := scaled_limits
  rw [le_iff_scaled_le hx hnan, hleast, x.truncate_le_iff (by decide)]

/-- **A number becomes a 64-bit integer** by cutting and clamping. -/
theorem toIndex_eq_clamp {x : Binary64} (hx : x.isNaN = false) :
    x.toIndex = max leastIndex (min greatestIndex x.truncate) := by
  obtain ⟨hleast, hgreatest⟩ := limits_eq
  have hup := greatest_le_iff hx
  have hdown := le_least_iff hx
  rw [toIndex, hx, if_neg Bool.false_ne_true]
  split
  · next h =>
    rw [hup] at h
    omega
  split
  · next h =>
    rw [hdown] at h
    omega
  · next h h' =>
    rw [hup] at h
    rw [hdown] at h'
    omega

/-- The cut is only made where it gives a 64-bit integer, of a number that is not infinite. -/
theorem truncate_of_between {x : Binary64} (hx : x.isNaN = false)
    (hup : (ofInt greatestIndex).le x = false) (hdown : x.le (ofInt leastIndex) = false) :
    x.isFinite = true ∧ leastIndex ≤ x.truncate ∧ x.truncate ≤ greatestIndex := by
  have hbelow : ¬greatestIndex < x.truncate := by
    rw [← greatest_le_iff hx, hup]
    exact Bool.false_ne_true
  have habove : ¬x.truncate ≤ leastIndex := by
    rw [← le_least_iff hx, hdown]
    exact Bool.false_ne_true
  refine ⟨?_, by omega, by omega⟩
  rcases isFinite_or_isInfinite hx with hfinite | hinfinite
  · exact hfinite
  · -- the infinities are beyond the limits
    have hbeyond : ∀ negative, (infinity negative).truncate ≤ leastIndex ∨
        greatestIndex < (infinity negative).truncate := by decide +kernel
    rw [isInfinite_iff.1 hinfinite] at hbelow habove
    exact absurd (hbeyond x.negative) (not_or.2 ⟨habove, hbelow⟩)

/-! ### The 64-bit integer for a number -/

/-- **The 64-bit integer that stands for a number**: zero for not-a-number, a limit for an infinity,
and otherwise the exact value, cut toward zero and clamped to the limits. -/
def Saturates (x : Binary64) (i : Int) : Prop :=
  x.isNaN = true ∧ i = 0 ∨
    x.isInfinite = true ∧ i = (if x.negative then leastIndex else greatestIndex) ∨
    x.isFinite = true ∧ i = max leastIndex (min greatestIndex (cut x.value))

theorem toIndex_of_isInfinite {x : Binary64} (hx : x.isInfinite = true) :
    x.toIndex = if x.negative then leastIndex else greatestIndex := by
  have hboth : ∀ negative, (infinity negative).toIndex
      = if negative then leastIndex else greatestIndex := by decide +kernel
  conv_lhs => rw [isInfinite_iff.1 hx]
  exact hboth x.negative

/-- **Numbers become 64-bit integers as they should.** -/
theorem saturates_iff (x : Binary64) (i : Int) : x.Saturates i ↔ i = x.toIndex := by
  unfold Saturates
  cases hnan : x.isNaN with
  | true =>
    have hinfinite : x.isInfinite = false := by simp_all [isNaN, isInfinite]
    have hfinite : x.isFinite = false := by simp_all [isNaN, isFinite]
    simp [hinfinite, hfinite, toIndex, hnan]
  | false =>
    rcases isFinite_or_isInfinite hnan with hfinite | hinfinite
    · have hinfinite : x.isInfinite = false := by simp_all [isFinite, isInfinite]
      simp [hinfinite, hfinite, toIndex_eq_clamp hnan, truncate_eq_cut]
    · have hfinite : x.isFinite = false := by simp_all [isFinite, isInfinite]
      simp [hinfinite, hfinite, toIndex_of_isInfinite hinfinite]

/-- A greater number becomes no lesser integer. -/
theorem toIndex_le_toIndex {x y : Binary64} (h : x.le y = true) : x.toIndex ≤ y.toIndex := by
  obtain ⟨⟨hx, hy⟩, -⟩ : (x.isNaN = false ∧ y.isNaN = false) ∧ x.scaled ≤ y.scaled := by
    simpa [le] using h
  rw [le_iff_scaled_le hx hy] at h
  have hcut : x.truncate ≤ y.truncate :=
    Int.tdiv_le_tdiv (Int.natCast_pos.2 unitsPerOne_pos) h
  rw [toIndex_eq_clamp hx, toIndex_eq_clamp hy]
  omega

/-! ### Positions -/

/-- **The position that a number names**: its exact value, cut toward zero. Not-a-number names the
position zero, and an infinity names none. -/
def Names (x : Binary64) (k : Int) : Prop :=
  x.isNaN = true ∧ k = 0 ∨ x.isFinite = true ∧ k = cut x.value

/-- Between the limits, the position is the 64-bit integer. -/
theorem names_iff {x : Binary64} {k : Int} (hleast : leastIndex < k)
    (hgreatest : k < greatestIndex) : x.Names k ↔ x.toIndex = k := by
  have hsaturates := (x.saturates_iff x.toIndex).2 rfl
  constructor
  · rintro (⟨hnan, rfl⟩ | ⟨hfinite, rfl⟩)
    · exact ((x.saturates_iff 0).1 (.inl ⟨hnan, rfl⟩)).symm
    · refine ((x.saturates_iff _).1 (.inr (.inr ⟨hfinite, ?_⟩))).symm
      omega
  · rintro rfl
    rcases hsaturates with hnan | ⟨-, hlimit⟩ | ⟨hfinite, hcut⟩
    · exact .inl hnan
    · -- the limits themselves are excluded
      split at hlimit <;> omega
    · exact .inr ⟨hfinite, by omega⟩

end Binary64

end Blockwork
