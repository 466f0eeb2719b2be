import Blockwork.Blocks.Operator
import Blockwork.Proofs.Machine.Parts
import Blockwork.Proofs.Text.Case
import Blockwork.Proofs.Value.Equality

/-!
# Less, greater, equal

Of two values that are ordered, neither lists nor not-a-number, one is less than the other, or
greater, or equal to it; that is what a program expects of the three comparison blocks. It is so
exactly when equality and order agree on what is equal (`exactly_one_iff`), and this holds of
numbers and of texts without the few characters that the two rules about case treat differently
(`Value.equal_iff_compare_eq`). It does not hold of all texts: the long s equals the letter s and is
still greater.
-/

namespace Blockwork

/-! ### Numbers -/

namespace Binary64

variable {x y : Binary64}

theorem lt_iff (hx : x.isNaN = false) (hy : y.isNaN = false) :
    x.lt y = true ↔ x.scaled < y.scaled := by
  rw [lt, hx, hy, Bool.not_false, Bool.true_and, Bool.true_and, decide_eq_true_eq]

/-- Numbers neither of which is less are equal. -/
theorem eq_iff_not_lt (hx : x.isNaN = false) (hy : y.isNaN = false) :
    x.eq y = true ↔ ¬x.lt y = true ∧ ¬y.lt x = true := by
  rw [eq_iff_scaled_eq hx hy, lt_iff hx hy, lt_iff hy hx]
  omega

end Binary64

theorem compareText_eq_iff {a b : String} : compareText a b = .eq ↔ a = b := by
  unfold compareText
  constructor
  · intro h
    split at h
    · exact absurd h nofun
    · next hlt =>
      split at h
      · exact absurd h nofun
      · next hgt => exact String.le_antisymm (String.not_lt.1 hgt) (String.not_lt.1 hlt)
  · rintro rfl
    rw [if_neg (String.lt_irrefl a), if_neg (String.lt_irrefl a)]

namespace Value

/-- A value that comparison orders: neither a list nor not-a-number. -/
def isOrdered : Value → Bool
  | .list _ => false
  | .noList => false
  | .number n => !n.isNaN
  | _ => true

variable {v w : Value}

theorem kind_ne_list (hv : v.isOrdered = true) : v.kind ≠ .list := by
  cases v with
  | list id => exact absurd hv nofun
  | noList => exact absurd hv nofun
  | _ => exact nofun

theorem isNaN_numericValue (hv : v.isOrdered = true) : v.numericValue.isNaN = false := by
  cases v with
  | undefined => decide
  | number n =>
    have hn : n.isNaN = false := by simpa [isOrdered] using hv
    exact hn
  | truth b => cases b <;> decide
  | text t =>
    cases hread : Binary64.read? t with
    | some n =>
      rw [numericValue_text hread]
      exact Binary64.isNaN_of_read? hread
    | none =>
      -- blanks are zero, and what is no number is taken for zero
      have hzero : (text t).numericValue = .zero := by
        rw [numericValue, toNumber, hread]
        split <;> rfl
      rw [hzero]
      decide
  | list id => exact absurd rfl (kind_ne_list hv)
  | noList => exact absurd rfl (kind_ne_list hv)

/-- Values are level as numbers when both are numeric, and else when their texts have the same lower
case. -/
theorem compare_eq_iff (hv : v.isOrdered = true) (hw : w.isOrdered = true) (s : Store) :
    v.compare s w = .eq ↔
      if v.isNumeric && w.isNumeric then v.numericValue.eq w.numericValue = true
      else Text.lower v.scalarText = Text.lower w.scalarText := by
  unfold compare
  rw [display_eq_scalarText (kind_ne_list hv), display_eq_scalarText (kind_ne_list hw)]
  split
  · rw [Binary64.eq_iff_not_lt (isNaN_numericValue hv) (isNaN_numericValue hw)]
    split
    · next hlt => exact iff_of_false nofun fun h => h.1 hlt
    · next hlt =>
      split
      · next hgt => exact iff_of_false nofun fun h => h.2 hgt
      · next hgt => exact iff_of_true rfl ⟨hlt, hgt⟩
  · exact compareText_eq_iff

/-- **Equality and order agree** on numbers, and on texts without variants. -/
theorem equal_iff_compare_eq (hv : v.isOrdered = true) (hw : w.isOrdered = true) (s : Store)
    (h : v.isNumeric = true ∧ w.isNumeric = true ∨
      Text.hasVariant v.scalarText = false ∧ Text.hasVariant w.scalarText = false) :
    v.equal w = true ↔ v.compare s w = .eq := by
  rw [compare_eq_iff hv hw, equal_of_scalar (kind_ne_list hv) (kind_ne_list hw)]
  split
  · rfl
  · next hnumeric =>
    rcases h with ⟨hv, hw⟩ | ⟨hv, hw⟩
    · rw [hv, hw] at hnumeric
      exact absurd rfl hnumeric
    · exact (Text.lower_eq_iff_sameFold hv hw).symm

end Value

/-! ### Comparison blocks -/

/-- One of less, greater and equal holds when equal means level. -/
theorem exactly_one_iff (o : Ordering) (equal : Bool) :
    [o == .lt, o == .gt, equal].count true = 1 ↔ (equal = true ↔ o = .eq) := by
  cases o <;> cases equal <;> decide

namespace Blocks.Operator

variable {α σ : Type} {scope : Scope α σ} {setup : Setup σ} {s s₁ s₂ : State α σ} {a b : Value}

/-- Both operands are evaluated, and then combined without a further effect. -/
theorem operands_apply (ha : scope.evaluate "OPERAND1" setup s = (.value a, s₁))
    (hb : scope.evaluate "OPERAND2" setup s₁ = (.value b, s₂)) {β : Type}
    (f : Value → Value → Run α σ β) :
    (do let a ← scope.evaluate "OPERAND1"; let b ← scope.evaluate "OPERAND2"; f a b) setup s
      = f a b setup s₂ := by
  rw [Run.bind_apply, ha]
  dsimp only
  rw [Run.bind_apply, hb]

/-- **Less, greater, equal.** -/
theorem comparisons_exclude_each_other
    (ha : scope.evaluate "OPERAND1" setup s = (.value a, s₁))
    (hb : scope.evaluate "OPERAND2" setup s₁ = (.value b, s₂))
    (hordered : a.isOrdered = true ∧ b.isOrdered = true) :
    ∃ less greater equal : Bool,
      perform .less scope setup s = (.value (.truth less), s₂) ∧
      perform .greater scope setup s = (.value (.truth greater), s₂) ∧
      perform .equals scope setup s = (.value (.truth equal), s₂) ∧
      ([less, greater, equal].count true = 1 ↔
        (a.equal b = true ↔ a.compare s₂.store b = .eq)) ∧
      (a.isNumeric = true ∧ b.isNumeric = true ∨
          Text.hasVariant a.scalarText = false ∧ Text.hasVariant b.scalarText = false →
        [less, greater, equal].count true = 1) := by
  refine ⟨_, _, _, operands_apply ha hb _, operands_apply ha hb _, operands_apply ha hb _,
    exactly_one_iff (a.compare s₂.store b) (a.equal b), fun h => ?_⟩
  exact (exactly_one_iff _ _).2 (Value.equal_iff_compare_eq hordered.1 hordered.2 s₂.store h)

/-! ### Two cases -/

/-- A comparison block with two literals. -/
def literals (a b : Value) : Scope Unit Unit where
  opcode := "operator_equals"
  id := "b"
  module := "operator"
  function := "equals"
  slots :=
    [.value "OPERAND1" (.shadow default) (.done a), .value "OPERAND2" (.shadow default) (.done b)]

/-- A state in which nothing has happened. -/
def idle : State Unit Unit := ⟨.empty, .empty, .empty, 0, 0, 0, #[], ()⟩

/-- Of two words exactly one comparison holds. -/
theorem comparisons_exclude_each_other_words : ∃ less greater equal : Bool,
    perform .less (literals (.text "b") (.text "A")) ⟨.silent, 1, 1⟩ idle
      = (.value (.truth less), idle) ∧
    perform .greater (literals (.text "b") (.text "A")) ⟨.silent, 1, 1⟩ idle
      = (.value (.truth greater), idle) ∧
    perform .equals (literals (.text "b") (.text "A")) ⟨.silent, 1, 1⟩ idle
      = (.value (.truth equal), idle) ∧
    [less, greater, equal].count true = 1 := by
  have hfirst : (literals (.text "b") (.text "A")).evaluate "OPERAND1" ⟨.silent, 1, 1⟩ idle
      = (.value (.text "b"), idle) := rfl
  have hsecond : (literals (.text "b") (.text "A")).evaluate "OPERAND2" ⟨.silent, 1, 1⟩ idle
      = (.value (.text "A"), idle) := rfl
  obtain ⟨less, greater, equal, hless, hgreater, hequal, -, hone⟩ :=
    comparisons_exclude_each_other hfirst hsecond (by decide)
  exact ⟨less, greater, equal, hless, hgreater, hequal, hone (.inr (by decide))⟩

/-- The long s is greater than the letter s and equals it. -/
theorem long_s_is_greater_and_equal :
    (Value.text "\u017f").isOrdered = true ∧ (Value.text "s").isOrdered = true ∧
      perform .greater (literals (.text "\u017f") (.text "s")) ⟨.silent, 1, 1⟩ idle
        = (.value (.truth true), idle) ∧
      perform .equals (literals (.text "\u017f") (.text "s")) ⟨.silent, 1, 1⟩ idle
        = (.value (.truth true), idle) := by
  have hgreater : ((Value.text "\u017f").compare .empty (.text "s") == .gt) = true := by
    decide +kernel
  have hequal : (Value.text "\u017f").equal (.text "s") = true := by decide +kernel
  refine ⟨rfl, rfl, ?_, ?_⟩
  · exact congrArg (fun t => (Outcome.value (Value.truth t), idle)) hgreater
  · exact congrArg (fun t => (Outcome.value (Value.truth t), idle)) hequal

end Blocks.Operator

end Blockwork
