import Blockwork.Proofs.Number.Displayed
import Blockwork.Proofs.Number.Folded
import Blockwork.Value.Compare
import Mathlib.Data.List.TakeWhile

/-!
# Texts as numbers

A text is a numeric value exactly when it can be read (`Value.isNumeric_text`): blanks read as no
number, and no text reads as not-a-number. What shows a number can always be read, and gives the
number back; this is `Value.numbers_survive_display`.
-/

namespace Blockwork

/-! ### What can be read -/

namespace Numeral

theorem nearestBinaryWord_lt {c w : Nat} {e : Int} (h : nearestBinaryWord c e = some w) :
    w < 2047 * 2 ^ 52 := by
  unfold nearestBinaryWord at h
  split at h
  · exact Option.some.inj h ▸ (by decide)
  dsimp only at h
  split at h
  · exact absurd h nofun
  split at h
  · exact Option.some.inj h ▸ (by decide)
  split at h
  · exact Binary64.roundWord_lt h
  · exact Binary64.roundWord_lt h

/-- Only the words for infinity read as more than a finite number. -/
theorem readUnsigned?_le {cs : List Char} {w : Nat} (h : readUnsigned? cs = some w) :
    w ≤ 2047 * 2 ^ 52 := by
  unfold readUnsigned? at h
  dsimp only at h
  split at h
  · exact (Option.some.inj h).symm.le
  split at h
  · split at h
    · obtain ⟨d, -, hd⟩ := Option.bind_eq_some_iff.1 h
      exact (nearestBinaryWord_lt hd).le
    · obtain ⟨d, -, hd⟩ := Option.bind_eq_some_iff.1 h
      exact (Decimal.nearestWord_lt hd).le
  · obtain ⟨d, -, hd⟩ := Option.bind_eq_some_iff.1 h
    exact (Decimal.nearestWord_lt hd).le

end Numeral

namespace Binary64

/-- No text reads as not-a-number. -/
theorem isNaN_of_read? {s : String} {n : Binary64} (h : read? s = some n) : n.isNaN = false := by
  unfold read? Numeral.readList? at h
  dsimp only at h
  obtain ⟨w, hw, rfl⟩ := Option.map_eq_some_iff.1 h
  exact isNaN_ofWord _ (Numeral.readUnsigned?_le hw)

/-- Blanks are no numeral. -/
theorem read?_of_isAllBlank {s : String} (h : Text.isAllBlank s = true) : read? s = none := by
  have hdrop : s.toList.dropWhile Text.isBlank = [] :=
    List.dropWhile_eq_nil_iff.2 (List.all_eq_true.1 h)
  unfold read? Text.trimList
  rw [hdrop]
  decide

end Binary64

namespace Value

/-- What is shown of a value that is no list does not depend on the store. -/
theorem display_eq_scalarText {v : Value} (hv : v.kind ≠ .list) (s : Store) :
    v.display s = v.scalarText := by
  unfold display Store.read
  cases v with
  | list id => exact absurd rfl hv
  | noList => exact absurd rfl hv
  | _ =>
    rw [Store.readInside]
    rfl

/-! ### Texts as numbers -/

theorem toNumber_text {t : String} {n : Binary64} (h : Binary64.read? t = some n) :
    (text t).toNumber = .ok n := by
  have hblank : ¬Text.isAllBlank t = true := fun hblank => by
    rw [Binary64.read?_of_isAllBlank hblank] at h
    cases h
  rw [toNumber, if_neg hblank, h]

theorem numericValue_text {t : String} {n : Binary64} (h : Binary64.read? t = some n) :
    (text t).numericValue = n := by
  rw [numericValue, toNumber_text h]
  rfl

theorem isNumeric_text (t : String) : (text t).isNumeric = (Binary64.read? t).isSome := by
  rw [isNumeric]
  cases hblank : Text.isAllBlank t with
  | true =>
    rw [Binary64.read?_of_isAllBlank hblank, Bool.not_true, Bool.false_and, Option.isSome_none]
  | false => rw [Bool.not_false, Bool.true_and]

/-! ### Comparison -/

/-- Values that are no lists are compared as numbers when both are, and else by their texts. -/
theorem equal_of_scalar {v w : Value} (hv : v.kind ≠ .list) (hw : w.kind ≠ .list) :
    v.equal w = if v.isNumeric && w.isNumeric then v.numericValue.eq w.numericValue
      else Text.sameFold v.scalarText w.scalarText := by
  cases v with
  | list id => exact absurd rfl hv
  | noList => exact absurd rfl hv
  | _ =>
    cases w with
    | list id => exact absurd rfl hw
    | noList => exact absurd rfl hw
    | _ => rfl

/-- **Numbers survive display.** The text that shows a number reads as that number again, word for
word, except that the negative zero comes back positive. So a number equals the text that shows it,
and two numbers are shown by the same text exactly when they are equal. -/
theorem numbers_survive_display {x : Binary64} (hx : x.isNaN = false) (s : Store) :
    (text ((number x).display s)).toNumber = .ok (if x = .ofWord true 0 then .zero else x) ∧
      (number x).equal (text ((number x).display s)) = true ∧
      ∀ y : Binary64, y.isNaN = false →
        ((number x).display s = (number y).display s ↔ x.eq y = true) := by
  have hshown : ∀ y : Binary64, (number y).display s = y.display :=
    fun y => display_eq_scalarText (v := number y) nofun s
  have hread := Binary64.read?_display hx
  rw [hshown]
  refine ⟨?_, ?_, fun y hy => ?_⟩
  · -- the text reads as the normal form
    rw [toNumber_text hread]
    congr 1
    split
    · next hzero =>
      rw [hzero]
      decide
    · next hzero => exact Binary64.normal_eq_self hx hzero
  · -- the text is a numeric one, so it is compared as a number
    have hnumeric : (text x.display).isNumeric = true := by
      rw [isNumeric_text, hread]
      rfl
    rw [equal_of_scalar (v := number x) (w := text x.display) nofun nofun, hnumeric,
      numericValue_text hread]
    exact (Binary64.eq_iff_normal_eq hx (Binary64.isNaN_of_read? hread)).2
      (Binary64.normal_normal x).symm
  · -- the text and the normal form determine each other
    rw [hshown, Binary64.eq_iff_normal_eq hx hy]
    constructor
    · intro h
      have hread' := Binary64.read?_display hy
      rw [← h, hread] at hread'
      exact Option.some.inj hread'
    · intro h
      rw [← Binary64.display_normal hx, h, Binary64.display_normal hy]

/-- The least positive number is shown with an exponent, and read back. -/
theorem numbers_survive_display_least :
    (⟨1⟩ : Binary64).isNaN = false ∧ (text "5e-324").toNumber = .ok ⟨1⟩ := by
  refine ⟨by decide, ?_⟩
  have h := (numbers_survive_display (x := ⟨1⟩) (by decide) .empty).1
  rw [show (number ⟨1⟩).display .empty = "5e-324" by decide +kernel] at h
  exact h

end Value

end Blockwork
