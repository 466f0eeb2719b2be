import Blockwork.Proofs.Number.Normal
import Blockwork.Proofs.Number.Numerals
import Blockwork.Proofs.Number.Shortest

/-!
# Numbers survive display

Whatever number is shown, reading the text gives it back (`Binary64.read?_display`), except that the
sign of a zero is not shown. Each of the three ways to show a finite number is a numeral of the same
value: the digits of a whole number, a positional text and one with an exponent. The digits of the
last two are those that `Shortest.nearestWord_decimal` is about.
-/

namespace Blockwork

namespace Display

open Numeral

theorem isDigit_digits (n : Nat) : ∀ c ∈ Decimal.digits n, c.isDigit = true :=
  fun _ hc => Nat.isDigit_of_mem_toDigits (by decide) (by decide) hc

theorem digits_ne_nil (n : Nat) : Decimal.digits n ≠ [] := Nat.toDigits_ne_nil

theorem ofDigitChars_digits (n : Nat) : Nat.ofDigitChars 10 (Decimal.digits n) 0 = n :=
  Nat.ofDigitChars_ten_toDigits

/-- The digits of a whole number are a numeral. -/
theorem written_digits (n : Nat) : Written (Decimal.digits n) n 0 := by
  refine .of_eq (Decimal.digits n) [] [] ?_ (digits_ne_nil n) ?_ .nothing ?_ rfl
  · rw [pointed, if_pos rfl, List.append_nil]
  · rw [List.append_nil]
    exact isDigit_digits n
  · rw [List.append_nil, ofDigitChars_digits]

theorem withPoint_eq (whole : Nat) (ds : List Char) :
    withPoint whole ds = pointed (ds.take whole) (ds.drop whole) := by
  unfold withPoint pointed
  by_cases h : ds.length ≤ whole
  · rw [if_pos h, if_pos (List.drop_eq_nil_of_le h), List.take_of_length_le h]
  · rw [if_neg h, if_neg (List.drop_eq_nil_iff.not.2 h)]

/-- An exponent is read as it is shown. -/
theorem ending_exponentPart (order : Int) : Ending (exponentPart order) order := by
  -- one digit gets a zero in front, which adds nothing
  obtain ⟨ds, hds, hvalue, hne, hdigits⟩ : ∃ ds,
      (if (Decimal.digits order.natAbs).length < 2 then '0' :: Decimal.digits order.natAbs
        else Decimal.digits order.natAbs) = ds ∧
      Nat.ofDigitChars 10 ds 0 = order.natAbs ∧ ds ≠ [] ∧ ∀ c ∈ ds, c.isDigit = true := by
    split
    · refine ⟨_, rfl, ?_, nofun, ?_⟩
      · rw [Nat.ofDigitChars_cons]
        exact ofDigitChars_digits order.natAbs
      · exact List.forall_mem_cons.2 ⟨rfl, isDigit_digits _⟩
    · exact ⟨_, rfl, ofDigitChars_digits _, digits_ne_nil _, isDigit_digits _⟩
  unfold exponentPart
  dsimp only
  rw [hds]
  refine .exponent ?_ ?_
  · by_cases hneg : order < 0
    · rw [if_pos hneg, readExponent?_cons true rfl hdigits hne, hvalue, if_pos rfl]
      congr 1
      omega
    · rw [if_neg hneg, readExponent?_cons false rfl hdigits hne, hvalue,
        if_neg (by decide)]
      congr 1
      omega
  · refine List.forall_mem_cons.2 ⟨?_, fun c hc => .inl (hdigits c hc)⟩
    split
    · exact .inr (.inr rfl)
    · exact .inr (.inl rfl)

/-- Digits with zeros in front, after a point. -/
theorem written_small {c zeros : Nat} {e : Int}
    (he : e = -((zeros + (Decimal.digits c).length : Nat) : Int)) :
    Written ('0' :: '.' :: (List.replicate zeros '0' ++ Decimal.digits c)) c e := by
  have hne : List.replicate zeros '0' ++ Decimal.digits c ≠ [] :=
    List.append_ne_nil_of_right_ne_nil _ (digits_ne_nil c)
  refine .of_eq ['0'] (List.replicate zeros '0' ++ Decimal.digits c) [] ?_ nofun ?_ .nothing ?_ ?_
  · rw [pointed, if_neg hne, List.append_nil]
    rfl
  · rw [List.singleton_append]
    refine List.forall_mem_cons.2 ⟨rfl, fun x hx => ?_⟩
    rcases List.mem_append.1 hx with hx | hx
    · rw [List.eq_of_mem_replicate hx]
      rfl
    · exact isDigit_digits c x hx
  · rw [List.singleton_append, Nat.ofDigitChars_cons, Nat.ofDigitChars_append,
      Nat.ofDigitChars_replicate_zero]
    exact ofDigitChars_digits c
  · rw [List.length_append, List.length_replicate, he]
    omega

/-- The digits of a whole number with a point somewhere after the first, and an exponent. -/
theorem written_withPoint (n : Nat) {whole : Nat} {tail : List Char} {x : Int} (hwhole : 0 < whole)
    (htail : Ending tail x) :
    Written (withPoint whole (Decimal.digits n) ++ tail) n
      (x - ((Decimal.digits n).length - whole : Nat)) := by
  have htogether := List.take_append_drop whole (Decimal.digits n)
  refine .of_eq ((Decimal.digits n).take whole) ((Decimal.digits n).drop whole) tail
    (by rw [withPoint_eq]) ?_ ?_ htail ?_ ?_
  · rw [Ne, List.take_eq_nil_iff]
    exact not_or.2 ⟨hwhole.ne', digits_ne_nil n⟩
  · rw [htogether]
    exact isDigit_digits n
  · rw [htogether, ofDigitChars_digits]
  · rw [List.length_drop]

/-- **A decimal is shown as a numeral of the same value.** -/
theorem exists_written_layout {c : Nat} (hc : 0 < c) (e : Int) :
    ∃ n x, Written (layout c e) n x ∧ Decimal.nearestWord n x = Decimal.nearestWord c e := by
  have hlength : 0 < (Decimal.digits c).length := Decimal.width_pos c
  unfold layout
  dsimp only
  split
  · split
    · next hsmall => exact ⟨c, e, written_small (by omega), rfl⟩
    · next hlarge =>
      -- zeros at the end are part of the coefficient that is read
      have hvalue :
          Decimal.nearestWord (c * 10 ^ e.toNat) (-(-e).toNat) = Decimal.nearestWord c e := by
        rw [Decimal.nearestWord_mul_pow]
        congr 1
        omega
      have horder : 0 < ((Decimal.digits c).length - 1 + e + 1 : Int).toNat := by omega
      have hwritten := written_withPoint (c * 10 ^ e.toNat) horder .nothing
      rw [Decimal.digits_mul_pow hc, List.append_nil, List.length_append, List.length_replicate]
        at hwritten
      refine ⟨_, _, hwritten, hvalue ▸ ?_⟩
      congr 1
      omega
  · have hwritten := written_withPoint c Nat.one_pos
      (ending_exponentPart ((Decimal.digits c).length - 1 + e))
    refine ⟨c, _, hwritten, ?_⟩
    congr 1
    omega

end Display

namespace Binary64

theorem read?_infinite (negative : Bool) :
    read? (if negative then "-Inf" else "+Inf") = some (infinity negative) := by
  cases negative <;> decide +kernel

theorem infinity_magnitude (negative : Bool) : (infinity negative).magnitude ≠ 0 := by
  rw [Ne, magnitude_eq_zero_iff]
  cases negative <;> decide

/-- A whole number is shown by its digits. -/
theorem read?_whole {x : Binary64} {n : Nat} (hx : x.isNaN = false)
    (hfinite : x.word % 2 ^ 63 < 2047 * 2 ^ 52) (hn : n < 10 ^ 400)
    (hmagnitude : x.magnitude = n * unitsPerOne) :
    read? (String.ofList (Display.signed (x.negative && n != 0) (Decimal.digits n)))
      = some x.normal := by
  by_cases hzero : n = 0
  · -- zero is shown without a sign, whichever it has
    subst hzero
    rw [Nat.zero_mul] at hmagnitude
    rw [(Display.written_digits 0).read? (Decimal.nearestWord_nothing 0), normal, if_pos hmagnitude,
      bne_self_eq_false, Bool.and_false]
    rfl
  · -- any other is the exact value of its digits, so nothing is rounded
    have hround : Decimal.nearestWord n 0 = some (x.word % 2 ^ 63) := by
      rw [Decimal.nearestWord_zero hn, if_neg hzero]
      refine roundWord_exact Nat.one_pos ?_ hfinite
      rw [Nat.mul_one, ← magnitude_eq, hmagnitude]
    have hne : x.magnitude ≠ 0 := by
      rw [hmagnitude]
      exact Nat.mul_ne_zero hzero unitsPerOne_pos.ne'
    rw [(Display.written_digits n).read? hround, normal_eq_self_of_magnitude hx hne,
      bne_iff_ne.2 hzero, Bool.and_true, ofWord_negative]

/-- Other finite numbers are shown by their shortest digits. -/
theorem read?_shortest {x : Binary64} (hx : x.isNaN = false)
    (hfinite : x.word % 2 ^ 63 < 2047 * 2 ^ 52) (hne : x.magnitude ≠ 0) {d : Nat × Int}
    (hd : Shortest.decimal (x.word % 2 ^ 63) x.magnitude = d) :
    read? (String.ofList (Display.signed x.negative (Display.layout d.1 d.2))) = some x.normal := by
  have hdecimal := Shortest.nearestWord_decimal (Nat.pos_of_ne_zero (magnitude_eq x ▸ hne)) hfinite
  rw [← magnitude_eq, hd] at hdecimal
  have hpos : 0 < d.1 := by
    -- a decimal without coefficient would read as zero
    refine Nat.pos_of_ne_zero fun hzero => hne ?_
    rw [hzero, Decimal.nearestWord_nothing] at hdecimal
    rw [magnitude_eq, ← Option.some.inj hdecimal]
    rfl
  obtain ⟨n, e, hwritten, hvalue⟩ := Display.exists_written_layout hpos d.2
  rw [hwritten.read? (hvalue.trans hdecimal), ofWord_negative, normal_eq_self_of_magnitude hx hne]

/-- **What is shown is read back**, in normal form: the sign of a zero is not shown. -/
theorem read?_display {x : Binary64} (hx : x.isNaN = false) :
    read? x.display = some x.normal := by
  unfold display
  rw [if_neg (by rw [hx]; nofun)]
  by_cases hinfinite : x.isInfinite = true
  · have hself := isInfinite_iff.1 hinfinite
    have hne : x.magnitude ≠ 0 := hself ▸ infinity_magnitude x.negative
    rw [if_pos hinfinite, read?_infinite, ← hself, normal_eq_self_of_magnitude hx hne]
  have hfinite : x.word % 2 ^ 63 < 2047 * 2 ^ 52 :=
    isFinite_iff.1 ((isFinite_or_isInfinite hx).resolve_right hinfinite)
  rw [if_neg hinfinite]
  split
  · next hwhole =>
    obtain ⟨hintegral, hsmall⟩ := Bool.and_eq_true_iff.1 hwhole
    have hmod : x.magnitude % unitsPerOne = 0 := by simpa [isIntegral, hx] using hintegral
    have hle : x.magnitude ≤ Display.integerLimit * unitsPerOne := of_decide_eq_true hsmall
    refine read?_whole hx hfinite ?_ (Nat.div_mul_cancel (Nat.dvd_of_mod_eq_zero hmod)).symm
    calc x.magnitude / unitsPerOne ≤ Display.integerLimit :=
          Nat.div_le_of_le_mul (Nat.mul_comm .. ▸ hle)
      _ < 10 ^ 400 := by decide +kernel
  · next hother =>
    have hne : x.magnitude ≠ 0 := by
      -- zero is a small whole number
      rintro hzero
      refine hother (Bool.and_eq_true_iff.2 ⟨?_, decide_eq_true ?_⟩)
      · simp [isIntegral, hx, hzero]
      · rw [hzero]
        exact Nat.zero_le _
    exact read?_shortest hx hfinite hne rfl

/-- Numbers with one normal form look the same. -/
theorem display_normal {x : Binary64} (hx : x.isNaN = false) : x.normal.display = x.display := by
  by_cases hzero : x = .ofWord true 0
  · rw [hzero]
    decide +kernel
  · rw [normal_eq_self hx hzero]

end Binary64

end Blockwork
