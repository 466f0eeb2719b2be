import Blockwork.Proofs.Value.Numeric

/-!
# The laws of equality

Equality compares numbers with numbers and texts with texts, and a numeric text with either, as a
number. That it is an equivalence on all values but truth values and not-a-number therefore takes
two facts: a text keeps its number in any case, and the text that shows a number reads as that
number. With both, such a value is equal to others by what its text is like alone
(`Value.equal_iff_likeness`).

Truth values are left out for a reason: truth equals one and equals the text `true`, which are not
equal.
-/

namespace Blockwork

namespace Value

/-- A value that is neither a truth value nor not-a-number. -/
def isPlain : Value → Bool
  | .truth _ => false
  | .number n => !n.isNaN
  | _ => true

/-! ### Either way round -/

/-- A list is equal to itself only. -/
theorem equal_iff_of_list {v : Value} (hv : v.kind = .list) (w : Value) :
    (v.equal w = true ↔ w = v) ∧ v.equal w = w.equal v := by
  cases v with
  | list id =>
    cases w with
    | list id' =>
      refine ⟨?_, BEq.comm⟩
      rw [equal, beq_iff_eq, list.injEq]
      exact eq_comm
    | _ => exact ⟨iff_of_false nofun nofun, rfl⟩
  | noList =>
    cases w with
    | noList => exact ⟨iff_of_true rfl rfl, rfl⟩
    | _ => exact ⟨iff_of_false nofun nofun, rfl⟩
  | _ => exact absurd hv nofun

theorem equal_comm (v w : Value) : v.equal w = w.equal v := by
  by_cases hv : v.kind = .list
  · exact (equal_iff_of_list hv w).2
  by_cases hw : w.kind = .list
  · exact (equal_iff_of_list hw v).2.symm
  · have heq : v.numericValue.eq w.numericValue = w.numericValue.eq v.numericValue := by
      unfold Binary64.eq
      rw [Bool.and_comm (!v.numericValue.isNaN), BEq.comm]
    have hfold :
        Text.sameFold v.scalarText w.scalarText = Text.sameFold w.scalarText v.scalarText :=
      BEq.comm
    rw [equal_of_scalar hv hw, equal_of_scalar hw hv, Bool.and_comm, heq, hfold]

theorem compareText_swap (a b : String) : compareText b a = (compareText a b).swap := by
  unfold compareText
  by_cases hlt : a < b
  · rw [if_pos hlt, if_neg (String.lt_asymm hlt), if_pos hlt]
    rfl
  · rw [if_neg hlt, if_neg hlt]
    split <;> rfl

theorem compare_swap (s : Store) (v w : Value) : w.compare s v = (v.compare s w).swap := by
  have hnot :
      v.numericValue.lt w.numericValue = true → w.numericValue.lt v.numericValue = false := by
    simp only [Binary64.lt, Bool.and_eq_true, decide_eq_true_eq]
    intro h
    rw [decide_eq_false (by omega), Bool.and_false]
  unfold compare
  rw [Bool.and_comm]
  by_cases hnumeric : (v.isNumeric && w.isNumeric) = true
  · rw [if_pos hnumeric, if_pos hnumeric]
    by_cases hlt : v.numericValue.lt w.numericValue = true
    · rw [if_pos hlt, hnot hlt, if_neg nofun, if_pos hlt]
      rfl
    · rw [if_neg hlt, if_neg hlt]
      split <;> rfl
  · rw [if_neg hnumeric, if_neg hnumeric, compareText_swap]

/-! ### What a value is like -/

/-- What equality sees of a value. -/
inductive Likeness where
  | number (n : Binary64)
  | text (key : List Char)
  | list (id : ListId)
  | noList
deriving DecidableEq

/-- A text that reads as a number is like that number, and any other like all texts that differ
from it only in case. -/
def Likeness.ofText (t : String) : Likeness :=
  match Binary64.read? t with
  | some n => .number n.normal
  | none => .text (Text.foldKeys t)

/-- What a value is like. -/
def likeness : Value → Likeness
  | .list id => .list id
  | .noList => .noList
  | v => .ofText v.scalarText

variable {v w : Value}

theorem likeness_of_scalar (hv : v.kind ≠ .list) : v.likeness = .ofText v.scalarText := by
  cases v with
  | list id => exact absurd rfl hv
  | noList => exact absurd rfl hv
  | _ => rfl

theorem Likeness.ofText_ne (t : String) : (∀ id, ofText t ≠ .list id) ∧ ofText t ≠ .noList := by
  unfold ofText
  cases Binary64.read? t <;> exact ⟨nofun, nofun⟩

theorem likeness_eq_iff_of_list (hv : v.kind = .list) : w.likeness = v.likeness ↔ w = v := by
  by_cases hw : w.kind = .list
  · -- two lists have the same likeness if they are one list
    cases v with
    | list id =>
      cases w with
      | list id' => rw [likeness, likeness, Likeness.list.injEq, list.injEq]
      | noList => exact iff_of_false nofun nofun
      | _ => exact absurd hw nofun
    | noList =>
      cases w with
      | noList => exact iff_of_true rfl rfl
      | list id => exact iff_of_false nofun nofun
      | _ => exact absurd hw nofun
    | _ => exact absurd hv nofun
  · -- no other value looks like a list
    rw [likeness_of_scalar hw]
    refine iff_of_false ?_ fun h => hw (h ▸ hv)
    cases v with
    | list id => exact (Likeness.ofText_ne _).1 id
    | noList => exact (Likeness.ofText_ne _).2
    | _ => exact absurd hv nofun

theorem read?_empty : Binary64.read? "" = none := Binary64.read?_of_isAllBlank rfl

/-- Whether a plain value is numeric is a matter of its text. -/
theorem isNumeric_eq_read? (hplain : v.isPlain = true) (hv : v.kind ≠ .list) :
    v.isNumeric = (Binary64.read? v.scalarText).isSome := by
  cases v with
  | undefined => exact (congrArg Option.isSome read?_empty).symm
  | number n =>
    rw [scalarText, Binary64.read?_display (by simpa [isPlain] using hplain)]
    rfl
  | text t => exact isNumeric_text t
  | truth b => exact absurd hplain nofun
  | list id => exact absurd rfl hv
  | noList => exact absurd rfl hv

/-- So is its number, but for the sign of a zero. -/
theorem normal_numericValue (hplain : v.isPlain = true) {n : Binary64}
    (h : Binary64.read? v.scalarText = some n) :
    v.numericValue.isNaN = false ∧ v.numericValue.normal = n.normal := by
  cases v with
  | number x =>
    have hx : x.isNaN = false := by simpa [isPlain] using hplain
    rw [scalarText, Binary64.read?_display hx] at h
    rw [← Option.some.inj h, Binary64.normal_normal]
    exact ⟨hx, rfl⟩
  | text t =>
    have h : Binary64.read? t = some n := h
    rw [numericValue_text h]
    exact ⟨Binary64.isNaN_of_read? h, rfl⟩
  | truth b => exact absurd hplain nofun
  | _ => exact absurd (read?_empty.symm.trans h) nofun

/-- **Equal are the values that are alike.** -/
theorem equal_iff_likeness (hv : v.isPlain = true) (hw : w.isPlain = true) :
    v.equal w = true ↔ v.likeness = w.likeness := by
  by_cases hlist : v.kind = .list
  · rw [(equal_iff_of_list hlist w).1, ← likeness_eq_iff_of_list hlist, eq_comm]
  by_cases hlist' : w.kind = .list
  · rw [equal_comm, (equal_iff_of_list hlist' v).1, likeness_eq_iff_of_list hlist']
  · rw [equal_of_scalar hlist hlist', isNumeric_eq_read? hv hlist,
      isNumeric_eq_read? hw hlist', likeness_of_scalar hlist, likeness_of_scalar hlist',
      Likeness.ofText, Likeness.ofText]
    -- texts that fold together read alike, so equal texts are both numeric or both not
    cases hread : Binary64.read? v.scalarText with
    | none =>
      cases hread' : Binary64.read? w.scalarText with
      | none => simp [Text.sameFold]
      | some n =>
        refine iff_of_false (fun hfold => ?_) nofun
        rw [Binary64.read?_of_sameFold hfold, hread'] at hread
        exact absurd hread nofun
    | some n =>
      obtain ⟨hnan, hnormal⟩ := normal_numericValue hv hread
      cases hread' : Binary64.read? w.scalarText with
      | none =>
        refine iff_of_false (fun hfold => ?_) nofun
        rw [Binary64.read?_of_sameFold hfold, hread'] at hread
        exact absurd hread nofun
      | some m =>
        obtain ⟨hnan', hnormal'⟩ := normal_numericValue hw hread'
        rw [Likeness.number.injEq, ← hnormal, ← hnormal', ← Binary64.eq_iff_normal_eq hnan hnan']
        rfl

/-! ### Nothing yet -/

theorem display_ne_empty (n : Binary64) : n.display ≠ "" := by
  cases hn : n.isNaN with
  | true =>
    rw [Binary64.display, if_pos hn]
    decide
  | false =>
    intro h
    have hread := Binary64.read?_display hn
    rw [h, read?_empty] at hread
    exact absurd hread nofun

theorem sameFold_empty (t : String) : Text.sameFold "" t = true ↔ t = "" := by
  unfold Text.sameFold Text.foldKeys
  rw [beq_iff_eq, String.toList_empty, List.map_nil, eq_comm, List.map_eq_nil_iff,
    String.toList_eq_nil_iff]

/-- Undefined is what has no text. -/
theorem undefined_equal_iff (v : Value) :
    undefined.equal v = true ↔ v = undefined ∨ v = text "" := by
  by_cases hv : v.kind = .list
  · rw [equal_comm, (equal_iff_of_list hv undefined).1]
    refine iff_of_false (fun h => ?_) ?_
    · rw [← h] at hv
      exact absurd hv nofun
    · rintro (rfl | rfl) <;> exact absurd hv nofun
  · rw [equal_of_scalar (v := undefined) nofun hv, show undefined.isNumeric = false from rfl,
      Bool.false_and, if_neg nofun, show undefined.scalarText = "" from rfl, sameFold_empty]
    cases v with
    | undefined => exact iff_of_true rfl (.inl rfl)
    | number n => exact iff_of_false (display_ne_empty n) (by simp)
    | text t => simp [scalarText]
    | truth b => cases b <;> exact iff_of_false (by decide) (by simp)
    | _ => exact absurd rfl hv

/-- **The laws of equality.** Equality is symmetric and order antisymmetric, on all values. On
values that are neither truth values nor not-a-number, equality is an equivalence: in particular a
text that differs only in case from one that reads as a number reads as that number, no other text
equals a number, and undefined equals nothing but itself and the empty text.

Order is about values whose lists do not lie inside themselves (`Store.Unfolds`): the program finds
no text for others and gives no answer, whichever way round it is asked. -/
theorem equality_laws :
    (∀ v w : Value, v.equal w = w.equal v) ∧
      (∀ (s : Store) (v w : Value), w.compare s v = (v.compare s w).swap) ∧
      Equivalence (fun v w : {v : Value // v.isPlain = true} => v.1.equal w.1 = true) ∧
      (∀ a b : String, Text.sameFold a b = true → (text b).isNumeric = true →
        (text a).isNumeric = true ∧ (text a).toNumber = (text b).toNumber) ∧
      (∀ (x : Binary64) (t : String), x.isNaN = false → (text t).isNumeric = false →
        (number x).equal (text t) = false) ∧
      ∀ v : Value, undefined.equal v = true ↔ v = undefined ∨ v = text "" := by
  refine ⟨equal_comm, compare_swap, ?_, fun a b hfold hb => ?_, fun x t hx ht => ?_,
    undefined_equal_iff⟩
  · -- on plain values equality is sameness of likeness
    have hiff : ∀ v w : {v : Value // v.isPlain = true},
        v.1.equal w.1 = true ↔ v.1.likeness = w.1.likeness :=
      fun v w => equal_iff_likeness v.2 w.2
    constructor
    · exact fun v => (hiff v v).2 rfl
    · exact fun {v w} h => (hiff w v).2 ((hiff v w).1 h).symm
    · exact fun {u v w} h h' => (hiff u w).2 (((hiff u v).1 h).trans ((hiff v w).1 h'))
  · rw [isNumeric_text, Option.isSome_iff_exists] at hb
    obtain ⟨n, hn⟩ := hb
    have hn' : Binary64.read? a = some n := (Binary64.read?_of_sameFold hfold).trans hn
    rw [isNumeric_text, hn', toNumber_text hn, toNumber_text hn']
    exact ⟨rfl, rfl⟩
  · have ht : Binary64.read? t = none := by simpa [isNumeric_text] using ht
    refine Bool.eq_false_iff.2 fun h => ?_
    have halike : Likeness.ofText x.display = .ofText t :=
      (equal_iff_likeness (by simpa [isPlain] using hx) rfl).1 h
    rw [Likeness.ofText, Likeness.ofText, Binary64.read?_display hx, ht] at halike
    exact absurd halike nofun

/-- A hexadecimal numeral in capitals is the number that it is in small letters. -/
theorem equality_laws_capitals :
    (text "0x1p4").isNumeric = true ∧ Text.sameFold "0X1P4" "0x1p4" = true ∧
      (text "0X1P4").toNumber = (text "0x1p4").toNumber := by
  have hnumeric : (text "0x1p4").isNumeric = true := by decide +kernel
  have hfold : Text.sameFold "0X1P4" "0x1p4" = true := by decide +kernel
  exact ⟨hnumeric, hfold, (equality_laws.2.2.2.1 _ _ hfold hnumeric).2⟩

end Value

end Blockwork
