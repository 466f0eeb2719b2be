import Blockwork.Number.Shortest
import Blockwork.Proofs.Number.Nearest

/-!
# Shortest digits read back

What the search for shortest digits finds reads back because it is tried before it is taken, and
dropping zeros keeps the value (`Shortest.nearestWord_of_search`, `Shortest.nearestWord_dropZeros`).
That it finds something is a matter of precision. The last grid has the seventeenth digit of the
value in its units. So the decimal on it that is nearest to the value is off by half a unit at most,
the value being `10 ^ 16` units or more, and that is close enough for a significand of 53 bits
(`Shortest.seventeen_digits_suffice`).
-/

namespace Blockwork

namespace Shortest

open Binary64 (unitsPerOne)

variable {magnitude : Nat}

/-! ### What is found -/

/-- What is found on a grid reads back. -/
theorem nearestWord_of_onGrid {w magnitude : Nat} {grid : Int} {found : Nat × Int}
    (h : onGrid? w magnitude grid = some found) :
    Decimal.nearestWord found.1 found.2 = some w := by
  unfold onGrid? at h
  dsimp only at h
  split at h
  · next hnear => exact Option.some.inj h ▸ beq_iff_eq.1 hnear
  split at h
  · next hfar => exact Option.some.inj h ▸ beq_iff_eq.1 hfar
  · exact absurd h nofun

/-- What the search finds reads back, whichever grid it was on. -/
theorem nearestWord_of_search {w magnitude : Nat} {grid : Int} {tries : Nat} {found : Nat × Int}
    (h : search? w magnitude grid tries = some found) :
    Decimal.nearestWord found.1 found.2 = some w := by
  induction tries generalizing grid with
  | zero => exact absurd h nofun
  | succ tries ih =>
    unfold search? at h
    split at h
    · next hfound => exact Option.some.inj h ▸ nearestWord_of_onGrid hfound
    · exact ih h

/-- Dropping zeros keeps the value. -/
theorem nearestWord_dropZeros (c : Nat) (e : Int) (tries : Nat) :
    Decimal.nearestWord (dropZeros c e tries).1 (dropZeros c e tries).2
      = Decimal.nearestWord c e := by
  induction tries generalizing c e with
  | zero => rfl
  | succ tries ih =>
    unfold dropZeros
    split
    · next hzero =>
      have hc : c / 10 * 10 ^ 1 = c := Nat.div_mul_cancel (Nat.dvd_of_mod_eq_zero hzero)
      have htrade := Decimal.nearestWord_mul_pow (c / 10) 1 e
      rw [hc] at htrade
      rw [ih, htrade]
      rfl
    · rfl

/-! ### The last grid -/

theorem two_pow_lt : 2 ^ (52 + 2047 - 1) < 10 ^ 632 := by decide +kernel

theorem add_lt_of_pow_bounds {a b c k m u : Nat} (hu : 10 ^ b ≤ u) (hm : m < 10 ^ a)
    (h : 10 ^ k * u ≤ m * 10 ^ c) : k + b < a + c := by
  refine (Nat.pow_lt_pow_iff_right (a := 10) (by decide)).1 ?_
  calc 10 ^ (k + b) = 10 ^ k * 10 ^ b := Nat.pow_add ..
    _ ≤ 10 ^ k * u := Nat.mul_le_mul_left _ hu
    _ ≤ m * 10 ^ c := h
    _ < 10 ^ a * 10 ^ c := Nat.mul_lt_mul_of_pos_right hm (Decimal.ten_pow_pos c)
    _ = 10 ^ (a + c) := (Nat.pow_add ..).symm

/-- The power of ten of the first digit, put higher by 400 to be a natural number. -/
theorem exists_order (hpos : 0 < magnitude) (hlt : magnitude < 10 ^ 632) {c : Nat} (hc : 400 = c) :
    ∃ k : Nat, k ≤ 790 ∧ order magnitude = k - 400 ∧
      10 ^ k * unitsPerOne ≤ magnitude * 10 ^ c ∧
      magnitude * 10 ^ c < 10 ^ (k + 1) * unitsPerOne := by
  have hleast : 10 ^ 242 ≤ unitsPerOne := by decide +kernel
  have hmost : unitsPerOne ≤ 10 ^ c := by
    rw [← hc]
    decide +kernel
  have hu : 0 < unitsPerOne := Binary64.unitsPerOne_pos
  have horder : order magnitude
      = (Decimal.width (magnitude * 10 ^ c / unitsPerOne) : Int) - 401 := by
    rw [order, hc, Nat.pow_eq]
  -- the power is one less than the width of the number in front of the point
  obtain ⟨k, hk⟩ : ∃ k, Decimal.width (magnitude * 10 ^ c / unitsPerOne) = k + 1 :=
    Nat.exists_eq_succ_of_ne_zero (Decimal.width_pos _).ne'
  have hupper : magnitude * 10 ^ c < 10 ^ (k + 1) * unitsPerOne :=
    (Nat.div_lt_iff_lt_mul hu).1 ((Decimal.width_le_iff (Nat.succ_pos k)).1 hk.le)
  have hlower : 10 ^ k * unitsPerOne ≤ magnitude * 10 ^ c := by
    rcases Nat.eq_zero_or_pos k with rfl | hk'
    · rw [Nat.pow_zero, Nat.one_mul]
      exact hmost.trans (Nat.le_mul_of_pos_left _ hpos)
    · rw [← Nat.le_div_iff_mul_le hu]
      refine Nat.le_of_not_lt fun hlt => ?_
      have hwidth := (Decimal.width_le_iff hk').2 hlt
      omega
  have hexponents := add_lt_of_pow_bounds hleast hlt hlower
  exact ⟨k, by omega, by omega, hlower, hupper⟩

/-- The preferred neighbour is no more than half a step of the grid away. -/
theorem neighbours_near (magnitude : Nat) {grid : Int} {a b : Nat} (ha : grid.toNat = a)
    (hb : (-grid).toNat = b) :
    2 * (magnitude * 10 ^ b)
        ≤ 2 * ((neighbours magnitude grid).1 * (unitsPerOne * 10 ^ a)) + unitsPerOne * 10 ^ a ∧
      2 * ((neighbours magnitude grid).1 * (unitsPerOne * 10 ^ a))
        ≤ 2 * (magnitude * 10 ^ b) + unitsPerOne * 10 ^ a := by
  have hpos : 0 < unitsPerOne * 10 ^ a :=
    Nat.mul_pos Binary64.unitsPerOne_pos (Decimal.ten_pow_pos a)
  have hnum : (if grid < 0 then magnitude * 10 ^ (-grid).toNat else magnitude)
      = magnitude * 10 ^ b := by
    split
    · rw [hb]
    · rw [← hb, Int.toNat_of_nonpos (by omega), Nat.pow_zero, Nat.mul_one]
  have hden : (if grid < 0 then unitsPerOne else unitsPerOne * 10 ^ grid.toNat)
      = unitsPerOne * 10 ^ a := by
    split
    · rw [← ha, Int.toNat_of_nonpos (by omega), Nat.pow_zero, Nat.mul_one]
    · rw [ha]
  have hsplit := Nat.div_add_mod' (magnitude * 10 ^ b) (unitsPerOne * 10 ^ a)
  have hrest := Nat.mod_lt (magnitude * 10 ^ b) hpos
  unfold neighbours
  simp only [Nat.pow_eq]
  rw [hnum, hden]
  split
  · -- the lower neighbour is preferred if the rest is at most half a step
    next hnear =>
    have hnear : 2 * (magnitude * 10 ^ b % (unitsPerOne * 10 ^ a)) ≤ unitsPerOne * 10 ^ a := by
      simp only [Bool.or_eq_true, Bool.and_eq_true, decide_eq_true_eq, beq_iff_eq] at hnear
      omega
    dsimp only
    omega
  · -- and the upper one if it is at least that
    next hfar =>
    have hfar : unitsPerOne * 10 ^ a ≤ 2 * (magnitude * 10 ^ b % (unitsPerOne * 10 ^ a)) := by
      simp only [Bool.or_eq_true, decide_eq_true_eq, not_or] at hfar
      omega
    dsimp only
    rw [Nat.succ_mul (magnitude * 10 ^ b / (unitsPerOne * 10 ^ a))]
    omega

/-- The power of ten of the first digit decides how many digits a value has on a grid. -/
theorem on_grid_iff {a b c k n v u : Nat} (h : a + c + n = b + k) :
    10 ^ n * (u * 10 ^ a) ≤ v * 10 ^ b ↔ 10 ^ k * u ≤ v * 10 ^ c := by
  have hleft : 10 ^ n * (u * 10 ^ a) * 10 ^ c = 10 ^ k * u * 10 ^ b := by
    calc 10 ^ n * (u * 10 ^ a) * 10 ^ c = u * 10 ^ (a + c + n) := by
          rw [Nat.pow_add, Nat.pow_add]
          ac_rfl
      _ = 10 ^ k * u * 10 ^ b := by
          rw [h, Nat.pow_add]
          ac_rfl
  rw [← Nat.mul_le_mul_right_iff (Decimal.ten_pow_pos c), hleft, Nat.mul_right_comm v,
    Nat.mul_le_mul_right_iff (Decimal.ten_pow_pos b)]

/-- On the grid on which a number has seventeen digits in front of the point, the nearest decimal
reads back. -/
theorem nearestWord_neighbours {w : Nat} {grid : Int} {a b : Nat} (ha : grid.toNat = a)
    (hb : (-grid).toNat = b) (hw : w < 2047 * 2 ^ 52)
    (hleast : 10 ^ 16 * (unitsPerOne * 10 ^ a) ≤ Layout.value 52 w * 10 ^ b)
    (hmost : Layout.value 52 w * 10 ^ b < 10 ^ 17 * (unitsPerOne * 10 ^ a))
    (hfirst : -417 ≤ grid) (hlast : grid ≤ 382) :
    Decimal.nearestWord (neighbours (Layout.value 52 w) grid).1 grid = some w := by
  obtain ⟨hlow, hhigh⟩ := neighbours_near (Layout.value 52 w) ha hb
  generalize (neighbours (Layout.value 52 w) grid).1 = near at hlow hhigh ⊢
  have hpos : 0 < unitsPerOne * 10 ^ a :=
    Nat.mul_pos Binary64.unitsPerOne_pos (Decimal.ten_pow_pos a)
  -- seventeen digits, or one more when it was rounded up to a power of ten
  have hnear : 10 ^ 16 ≤ near ∧ near ≤ 10 ^ 17 := by
    constructor
    · refine Nat.le_of_lt_succ (Nat.lt_of_mul_lt_mul_right (a := unitsPerOne * 10 ^ a) ?_)
      rw [Nat.succ_mul near]
      omega
    · refine Nat.le_of_lt_succ (Nat.lt_of_mul_lt_mul_right (a := unitsPerOne * 10 ^ a) ?_)
      rw [Nat.succ_mul (10 ^ 17)]
      omega
  have hwidth : 17 ≤ Decimal.width near ∧ Decimal.width near ≤ 18 := by
    rw [Decimal.width_le_iff (by decide), ← Nat.not_lt, Nat.lt_succ_iff,
      Decimal.width_le_iff (by decide)]
    omega
  have hnum : near * 10 ^ a * unitsPerOne = near * (unitsPerOne * 10 ^ a) := by
    rw [Nat.mul_assoc, Nat.mul_comm unitsPerOne]
  rw [Decimal.nearestWord_eq (by omega) (by omega) (by omega) (a := a) (b := b) (by omega)]
  rw [← hnum] at hlow hhigh
  exact Binary64.roundWord_of_close (Decimal.ten_pow_pos b) hw hleast hlow hhigh

/-! ### The search -/

/-- A search goes on until a grid has a decimal that reads back. -/
theorem isSome_search {w : Nat} {grid : Int} {tries j : Nat} (hj : j < tries)
    (h : (onGrid? w magnitude (grid - j)).isSome) : (search? w magnitude grid tries).isSome := by
  induction tries generalizing grid j with
  | zero => exact absurd hj (Nat.not_lt_zero j)
  | succ tries ih =>
    unfold search?
    split
    · rfl
    · next hnone =>
      cases j with
      | zero =>
        rw [Int.natCast_zero, Int.sub_zero, hnone] at h
        exact absurd h nofun
      | succ j =>
        refine ih (Nat.lt_of_succ_lt_succ hj) ?_
        rwa [Int.sub_sub, Int.add_comm, ← Int.natCast_succ]

theorem isSome_onGrid {w : Nat} {grid : Int}
    (h : Decimal.nearestWord (neighbours magnitude grid).1 grid = some w) :
    (onGrid? w magnitude grid).isSome := by
  unfold onGrid?
  dsimp only
  rw [if_pos (beq_iff_eq.2 h)]
  rfl

/-- **Seventeen digits suffice.** -/
theorem seventeen_digits_suffice {w : Nat} (hpos : 0 < Layout.value 52 w)
    (hw : w < 2047 * 2 ^ 52) :
    (search? w (Layout.value 52 w) (order (Layout.value 52 w)) 17).isSome := by
  obtain ⟨c, hc⟩ : ∃ c, 400 = c := ⟨_, rfl⟩
  have hlt : Layout.value 52 w < 10 ^ 632 := (Layout.value_lt (by decide) hw).trans two_pow_lt
  obtain ⟨k, hk, horder, hlower, hupper⟩ := exists_order hpos hlt hc
  obtain ⟨grid, hgrid⟩ : ∃ grid, order (Layout.value 52 w) - (16 : Nat) = grid := ⟨_, rfl⟩
  obtain ⟨a, ha⟩ : ∃ a, grid.toNat = a := ⟨_, rfl⟩
  obtain ⟨b, hb⟩ : ∃ b, (-grid).toNat = b := ⟨_, rfl⟩
  have hleast : 10 ^ 16 * (unitsPerOne * 10 ^ a) ≤ Layout.value 52 w * 10 ^ b :=
    (on_grid_iff (by omega)).2 hlower
  have hmost : ¬10 ^ 17 * (unitsPerOne * 10 ^ a) ≤ Layout.value 52 w * 10 ^ b := by
    rw [on_grid_iff (c := c) (k := k + 1) (by omega)]
    exact Nat.not_le.2 hupper
  -- the last of the seventeen grids is the one
  refine isSome_search (j := 16) (by decide) (isSome_onGrid ?_)
  rw [hgrid]
  exact nearestWord_neighbours ha hb hw hleast (Nat.lt_of_not_le hmost) (by omega) (by omega)

/-- **The shortest digits of a positive finite number read back as that number.** -/
theorem nearestWord_decimal {w : Nat} (hpos : 0 < Layout.value 52 w) (hw : w < 2047 * 2 ^ 52) :
    Decimal.nearestWord (decimal w (Layout.value 52 w)).1 (decimal w (Layout.value 52 w)).2
      = some w := by
  obtain ⟨found, hfound⟩ := Option.isSome_iff_exists.1 (seventeen_digits_suffice hpos hw)
  rw [decimal, hfound, Option.map_some, Option.getD_some, withoutZeros, nearestWord_dropZeros]
  exact nearestWord_of_search hfound

end Shortest

end Blockwork
