import Blockwork.Text.Blank
import Blockwork.Text.Case
import Mathlib.Data.List.DropRight
import Mathlib.Tactic.Common

/-!
# Folding leaves most characters apart from letters

The table of folding classes is looked at once, run by run (`CaseRun.keepsApart_of_mem`). What
follows for every character is that folding turns nothing into a blank and no blank into anything
else, and that beyond ASCII only variants of `S` and `K` fold with a letter of ASCII. A test that
looks at ASCII alone, sees no difference between the cases there and does not know these two letters
gives the same answer for a character and for its key (`apply_foldKey`).
-/

namespace Blockwork.Text

/-- What holds of the characters below a bound holds of each of them. -/
theorem of_lt {P : Char → Prop} {bound : Nat} (h : ∀ n < bound, P (Char.ofNat n)) {c : Char}
    (hc : c.toNat < bound) : P c := by
  have hp := h c.toNat hc
  rwa [Char.ofNat_toNat] at hp

theorem not_le_of_beyond {c l : Char} (hc : 0x80 ≤ c.toNat) (hl : l.toNat < 0x80) : ¬c ≤ l := by
  intro hle
  have : c.toNat ≤ l.toNat := UInt32.le_iff_toNat_le.1 hle
  omega

theorem toLower_of_beyond {c : Char} (hc : 0x80 ≤ c.toNat) : c.toLower = c := by
  have hZ : ¬c ≤ 'Z' := not_le_of_beyond hc (by decide)
  exact dif_neg fun h => hZ h.2

/-! ### Trimming -/

theorem trimList_eq_self {cs : List Char} (h : ∀ c ∈ cs, isBlank c = false) :
    trimList cs = cs := by
  have hdrop : ∀ ds : List Char, (∀ c ∈ ds, isBlank c = false) → ds.dropWhile isBlank = ds := by
    intro ds hds
    cases ds with
    | nil => rfl
    | cons c rest => exact List.dropWhile_cons_of_neg (by simp [hds c List.mem_cons_self])
  unfold trimList
  rw [hdrop cs h, hdrop _ fun c hc => h c (List.mem_reverse.1 hc), List.reverse_reverse]

/-- Trimming goes along with a change of characters that keeps blanks apart. -/
theorem trimList_map {f : Char → Char} (hf : ∀ c, isBlank (f c) = isBlank c) (cs : List Char) :
    trimList (cs.map f) = (trimList cs).map f := by
  have hdrop : ∀ ds : List Char, (ds.map f).dropWhile isBlank = (ds.dropWhile isBlank).map f := by
    intro ds
    rw [List.dropWhile_map, show isBlank ∘ f = isBlank from funext hf]
  unfold trimList
  rw [hdrop, ← List.map_reverse, hdrop, List.map_reverse]

/-- What is trimmed has no blanks at its ends. -/
theorem trimList_trimList (cs : List Char) : trimList (trimList cs) = trimList cs := by
  have hprefix : trimList cs <+: cs.dropWhile isBlank := by
    have hsuffix := List.dropWhile_suffix isBlank (l := (cs.dropWhile isBlank).reverse)
    rw [← List.reverse_prefix, List.reverse_reverse] at hsuffix
    exact hsuffix
  -- it begins like the list without the blanks in front, so there are none left to drop
  have hfront : (trimList cs).dropWhile isBlank = trimList cs := by
    cases htrim : trimList cs with
    | nil => rfl
    | cons c rest =>
      obtain ⟨t, ht⟩ := hprefix
      have hhead := List.head?_dropWhile_not isBlank cs
      rw [← ht, htrim] at hhead
      have hc : isBlank c = false := hhead
      exact List.dropWhile_cons_of_neg (by simp [hc])
  show (((trimList cs).dropWhile isBlank).reverse.dropWhile isBlank).reverse = trimList cs
  rw [hfront, trimList, List.reverse_reverse, List.dropWhile_idempotent]

theorem trim_trim (s : String) : trim (trim s) = trim s := by
  rw [trim, trim, String.toList_ofList, trimList_trimList]

/-! ### The runs of the tables -/

namespace CaseRun

/-- Where a run moves a code point. -/
def move (r : CaseRun) (n : Nat) : Nat := ((n : Int) + r.offset).toNat

/-- A code point stays, or a run that holds it moves it. -/
theorem apply_cases (table : List CaseRun) (n : Nat) :
    apply table n = n ∨ ∃ r ∈ table, r.holds n = true ∧ apply table n = r.move n := by
  unfold apply
  cases hfind : table.find? (·.holds n) with
  | none => exact .inl rfl
  | some r =>
    exact .inr ⟨r, List.mem_of_find?_eq_some hfind, (List.find?_eq_some_iff_append.1 hfind).1, rfl⟩

theorem bounds_of_holds {r : CaseRun} {n : Nat} (h : r.holds n = true) :
    r.first ≤ n ∧ n ≤ r.last := by
  simp only [holds, Bool.and_eq_true, decide_eq_true_eq] at h
  exact h.1

/-- What the run moves becomes a character. -/
def Lands (r : CaseRun) : Prop :=
  (r.last : Int) + r.offset < 0xd800 ∨
    0xdfff < (r.first : Int) + r.offset ∧ (r.last : Int) + r.offset < 0x110000

instance (r : CaseRun) : Decidable r.Lands := inferInstanceAs (Decidable (_ ∨ _))

theorem lands_of_mem : ∀ r ∈ lowerRuns ++ foldRuns, r.Lands := by decide +kernel

theorem isValidChar_apply {table : List CaseRun} (h : ∀ r ∈ table, r.Lands) {n : Nat}
    (hn : n.isValidChar) : (apply table n).isValidChar := by
  rcases apply_cases table n with hstays | ⟨r, hr, hholds, hmoves⟩
  · rwa [hstays]
  · have hbounds := bounds_of_holds hholds
    have hlands := h r hr
    unfold Lands at hlands
    rw [hmoves, move]
    unfold Nat.isValidChar
    omega

/-- What a run moves is no blank, and neither is what it becomes, which is a character beyond ASCII
unless it is one of the two letters that have variants there. -/
structure KeepsApart (r : CaseRun) : Prop where
  beyond : 0x80 ≤ (r.first : Int) + r.offset ∨ r.first = r.last ∧
    ((r.first : Int) + r.offset = 'S'.toNat ∨ (r.first : Int) + r.offset = 'K'.toNat)
  blanks : ∀ b ∈ wideBlanks, (b < r.first ∨ r.last < b) ∧
    ((b : Int) < (r.first : Int) + r.offset ∨ (r.last : Int) + r.offset < b)

theorem keepsApart_iff (r : CaseRun) : r.KeepsApart ↔
    (0x80 ≤ (r.first : Int) + r.offset ∨ r.first = r.last ∧
      ((r.first : Int) + r.offset = 'S'.toNat ∨ (r.first : Int) + r.offset = 'K'.toNat)) ∧
    ∀ b ∈ wideBlanks, (b < r.first ∨ r.last < b) ∧
      ((b : Int) < (r.first : Int) + r.offset ∨ (r.last : Int) + r.offset < b) :=
  ⟨fun h => ⟨h.beyond, h.blanks⟩, fun h => ⟨h.1, h.2⟩⟩

instance (r : CaseRun) : Decidable r.KeepsApart := decidable_of_iff _ (keepsApart_iff r).symm

theorem keepsApart_of_mem : ∀ r ∈ foldRuns, r.KeepsApart := by decide +kernel

end CaseRun

/-! ### Keys -/

theorem toNat_ofNat_of_valid {n : Nat} (h : n.isValidChar) : (Char.ofNat n).toNat = n := by
  rw [Char.ofNat, dif_pos h]
  rfl

theorem toNat_apply {table : List CaseRun} (h : ∀ r ∈ table, r.Lands) (c : Char) :
    (Char.ofNat (CaseRun.apply table c.toNat)).toNat = CaseRun.apply table c.toNat :=
  toNat_ofNat_of_valid (CaseRun.isValidChar_apply h c.valid)

/-- **Beyond ASCII** keys are beyond it too, but for the variants of two letters, and blanks keep
apart. -/
theorem foldKey_beyond {c : Char} (hc : 0x80 ≤ c.toNat) :
    (0x80 ≤ (foldKey c).toNat ∨ foldKey c = 'S' ∨ foldKey c = 'K') ∧
      isBlank (foldKey c) = isBlank c := by
  have hkey : foldKey c = Char.ofNat (CaseRun.apply foldRuns c.toNat) := if_neg (Nat.not_lt.2 hc)
  have hchar := toNat_apply (fun r hr => CaseRun.lands_of_mem r (List.mem_append_right _ hr)) c
  rw [hkey]
  -- a run of the table has the character, or it is its own key
  rcases CaseRun.apply_cases foldRuns c.toNat with hstays | ⟨r, hr, hholds, hmoves⟩
  · rw [hstays, Char.ofNat_toNat]
    exact ⟨.inl hc, rfl⟩
  · obtain ⟨hbeyond, hblanks⟩ := CaseRun.keepsApart_of_mem r hr
    obtain ⟨hfirst, hlast⟩ := CaseRun.bounds_of_holds hholds
    have hsource : isBlank c = false := by
      rw [isBlank, if_neg (Nat.not_lt.2 hc), List.contains_eq_mem]
      refine decide_eq_false fun hmem => ?_
      have := (hblanks _ hmem).1
      omega
    rw [hmoves] at hchar ⊢
    generalize htarget : r.move c.toNat = t at hchar ⊢
    unfold CaseRun.move at htarget
    rcases hbeyond with hbeyond | ⟨hsingle, hletter⟩
    · -- the key is beyond ASCII too, and no blank is a key
      have ht : 0x80 ≤ t := by omega
      refine ⟨.inl (hchar.symm ▸ ht), ?_⟩
      rw [hsource, isBlank, hchar, if_neg (Nat.not_lt.2 ht), List.contains_eq_mem]
      refine decide_eq_false fun hmem => ?_
      have := (hblanks _ hmem).2
      omega
    · -- one of the two characters whose keys are letters
      rw [hsource]
      rcases hletter with hletter | hletter
      · obtain rfl : t = 'S'.toNat := by omega
        exact ⟨.inr (.inl rfl), rfl⟩
      · obtain rfl : t = 'K'.toNat := by omega
        exact ⟨.inr (.inr rfl), rfl⟩

/-- Folding changes nothing that looks at ASCII only and sees no difference between the cases. The
two letters with variants beyond ASCII must look like what is beyond. -/
theorem apply_foldKey {β : Type} {g : Char → β} {b : β}
    (hascii : ∀ n < 0x80, g (Char.ofNat n).toUpper = g (Char.ofNat n)) (hS : g 'S' = b)
    (hK : g 'K' = b) (hbeyond : ∀ c : Char, 0x80 ≤ c.toNat → g c = b) (c : Char) :
    g (foldKey c) = g c := by
  by_cases hc : c.toNat < 0x80
  · rw [show foldKey c = c.toUpper from if_pos hc]
    exact of_lt (P := fun c => g c.toUpper = g c) hascii hc
  · have hc : 0x80 ≤ c.toNat := Nat.not_lt.1 hc
    rw [hbeyond c hc]
    rcases (foldKey_beyond hc).1 with h | h | h
    · exact hbeyond _ h
    · rw [h, hS]
    · rw [h, hK]

theorem foldKey_iff {P : Char → Prop}
    (hascii : ∀ n < 0x80, P (Char.ofNat n).toUpper ↔ P (Char.ofNat n)) (hS : ¬P 'S') (hK : ¬P 'K')
    (hbeyond : ∀ c : Char, 0x80 ≤ c.toNat → ¬P c) (c : Char) : P (foldKey c) ↔ P c :=
  iff_of_eq (apply_foldKey (g := P) (fun n hn => propext (hascii n hn)) (eq_false hS) (eq_false hK)
    (fun c hc => eq_false (hbeyond c hc)) c)

@[simp] theorem isBlank_foldKey (c : Char) : isBlank (foldKey c) = isBlank c := by
  by_cases hc : c.toNat < 0x80
  · have hascii : ∀ n < 0x80, isBlank (Char.ofNat n).toUpper = isBlank (Char.ofNat n) := by decide
    rw [show foldKey c = c.toUpper from if_pos hc]
    exact of_lt (P := fun c => isBlank c.toUpper = isBlank c) hascii hc
  · exact (foldKey_beyond (Nat.not_lt.1 hc)).2

end Blockwork.Text
