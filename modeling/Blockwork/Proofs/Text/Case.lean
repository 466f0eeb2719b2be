import Blockwork.Proofs.Text.Folding

/-!
# Where the two rules about case agree

Texts that have the same lower case mostly fold together, and the other way round. Apart from the
twenty-three characters of `variants` this holds of every character (`lowerChar_eq_iff`) and so of
every text made of the others (`lower_eq_iff_sameFold`); no variant can be spared
(`variants_differ`).

Both mappings are tables, so the facts about single characters are checked on the code points that a
table moves. A check looks up the runs in reach of its own run only; the others do not matter
(`CaseRun.apply_near`).
-/

namespace Blockwork.Text

namespace CaseRun

/-- The code points of a run, from the first to the last. -/
def points (r : CaseRun) : List Nat :=
  (List.range ((r.last - r.first) / r.stride + 1)).map fun i => r.first + i * r.stride

theorem mem_points_of_holds {r : CaseRun} {n : Nat} (h : r.holds n = true) : n ∈ r.points := by
  obtain ⟨hfirst, hlast⟩ := bounds_of_holds h
  have hmod : (n - r.first) % r.stride = 0 := by
    simp only [holds, Bool.and_eq_true, beq_iff_eq] at h
    exact h.2
  have hindex : (n - r.first) / r.stride ≤ (r.last - r.first) / r.stride :=
    Nat.div_le_div_right (Nat.sub_le_sub_right hlast _)
  refine List.mem_map.2 ⟨(n - r.first) / r.stride, List.mem_range.2 (Nat.lt_succ_of_le hindex), ?_⟩
  rw [Nat.div_mul_cancel (Nat.dvd_of_mod_eq_zero hmod)]
  exact Nat.add_sub_cancel' hfirst

/-- The run has code points in an interval. The comparisons are the ones that the kernel computes at
once. -/
def meets (r : CaseRun) (low high : Nat) : Bool := Nat.ble low r.last && Nat.ble r.first high

theorem meets_of_holds {r : CaseRun} {n low high : Nat} (h : r.holds n = true) (hlow : low ≤ n)
    (hhigh : n ≤ high) : r.meets low high = true := by
  obtain ⟨hfirst, hlast⟩ := bounds_of_holds h
  rw [meets, Nat.ble_eq_true_of_le (Nat.le_trans hlow hlast),
    Nat.ble_eq_true_of_le (Nat.le_trans hfirst hhigh)]
  rfl

/-- The runs of a table that can hold a code point of this run, or one that it becomes. -/
def near (r : CaseRun) (table : List CaseRun) : List CaseRun :=
  table.filter fun q => q.meets r.first r.last || q.meets (r.move r.first) (r.move r.last)

/-- Runs that do not hold a code point can be left out when it is looked up. -/
theorem apply_filter {table : List CaseRun} {p : CaseRun → Bool} {n : Nat}
    (h : ∀ r : CaseRun, r.holds n = true → p r = true) :
    apply (table.filter p) n = apply table n := by
  have hfind : (fun r : CaseRun => p r && r.holds n) = (·.holds n) := by
    funext r
    cases hr : r.holds n with
    | true => rw [h r hr, Bool.true_and]
    | false => rw [Bool.and_false]
  unfold apply
  rw [List.find?_filter]
  simp only [Bool.decide_and, Bool.decide_eq_true, hfind]

/-- Near runs are all that matters for what the run holds, and for what it becomes. -/
theorem apply_near {r : CaseRun} {n : Nat} (table : List CaseRun) (h : r.holds n = true) :
    apply (r.near table) n = apply table n ∧
      apply (r.near table) (r.move n) = apply table (r.move n) := by
  obtain ⟨hfirst, hlast⟩ := bounds_of_holds h
  constructor
  · refine apply_filter fun q hq => ?_
    rw [meets_of_holds hq hfirst hlast, Bool.true_or]
  · refine apply_filter fun q hq => ?_
    have hmeets : q.meets (r.move r.first) (r.move r.last) = true := by
      refine meets_of_holds hq ?_ ?_
      · unfold move
        omega
      · unfold move
        omega
    rw [hmeets, Bool.or_true]

end CaseRun

/-! ### Code points -/

/-- The folding key of a code point, by a table. -/
def foldCode (table : List CaseRun) (n : Nat) : Nat :=
  if n < 0x80 then (Char.ofNat n).toUpper.toNat else CaseRun.apply table n

/-- The lower case of a code point, by a table. -/
def lowerCode (table : List CaseRun) (n : Nat) : Nat :=
  if n < 0x80 then (Char.ofNat n).toLower.toNat else CaseRun.apply table n

theorem toNat_foldKey (c : Char) : (foldKey c).toNat = foldCode foldRuns c.toNat := by
  unfold foldKey foldCode
  rw [Char.ofNat_toNat]
  split
  · rfl
  · exact toNat_apply (fun r hr => CaseRun.lands_of_mem r (List.mem_append_right _ hr)) c

theorem toNat_lowerChar (c : Char) : (lowerChar c).toNat = lowerCode lowerRuns c.toNat := by
  unfold lowerChar lowerCode
  rw [Char.ofNat_toNat]
  split
  · rfl
  · exact toNat_apply (fun r hr => CaseRun.lands_of_mem r (List.mem_append_left _ hr)) c

/-- The characters that the two rules treat differently: the dotted capital I, whose lower case is
the common `i` though the two do not fold together, and the letters that fold with others and are
yet their own lower case. -/
def variants : List Nat :=
  [0xb5, 0x130, 0x17f, 0x345, 0x3c2, 0x3d0, 0x3d1, 0x3d5, 0x3d6, 0x3f0, 0x3f1, 0x3f5, 0x1c80,
   0x1c81, 0x1c82, 0x1c83, 0x1c84, 0x1c85, 0x1c86, 0x1c87, 0x1c88, 0x1e9b, 0x1fbe]

/-- The small letter of a folding class, from its key and by a table. Three keys are variants. -/
def smallCode (table : List CaseRun) (key : Nat) : Nat :=
  match key with
  | 0xb5 => 0x3bc
  | 0x345 => 0x3b9
  | 0x1c88 => 0xa64b
  | key => lowerCode table key

theorem smallCode_congr {table table' : List CaseRun} {key : Nat}
    (h : CaseRun.apply table key = CaseRun.apply table' key) :
    smallCode table key = smallCode table' key := by
  unfold smallCode lowerCode
  split
  · rfl
  · rfl
  · rfl
  · rw [h]

/-- What the run of a table moves to its lower case keeps its key. -/
def CaseRun.keepsKey (r : CaseRun) : Bool :=
  let table := r.near foldRuns
  r.points.all fun n => foldCode table (r.move n) == apply table n || n == 0x130

/-- What the run of a table moves to its key has the lower case of its class, unless it is a
variant. -/
def CaseRun.keepsSmall (r : CaseRun) : Bool :=
  let table := r.near lowerRuns
  r.points.all fun n => smallCode table (r.move n) == apply table n || variants.contains n

theorem keepsKey_of_mem : ∀ r ∈ lowerRuns, r.keepsKey = true := by decide +kernel

theorem keepsSmall_of_mem : ∀ r ∈ foldRuns, r.keepsSmall = true := by decide +kernel

/-- Lower case folds with what it comes from. -/
theorem foldCode_lowerCode {n : Nat} (hn : n ≠ 0x130) :
    foldCode foldRuns (lowerCode lowerRuns n) = foldCode foldRuns n := by
  by_cases hascii : n < 0x80
  · have hall : ∀ n < 0x80, foldCode foldRuns (lowerCode lowerRuns n) = foldCode foldRuns n := by
      decide +kernel
    exact hall n hascii
  · rw [lowerCode, if_neg hascii]
    rcases CaseRun.apply_cases lowerRuns n with hstays | ⟨r, hr, hholds, hmoves⟩
    · rw [hstays]
    · -- the check of this run looked up its keys in the runs near it
      obtain ⟨hsource, htarget⟩ := CaseRun.apply_near foldRuns hholds
      have hkeeps :=
        List.all_eq_true.1 (keepsKey_of_mem r hr) n (CaseRun.mem_points_of_holds hholds)
      rw [beq_eq_false_iff_ne.2 hn, Bool.or_false, beq_iff_eq, hsource, foldCode, htarget] at hkeeps
      rw [hmoves, foldCode, hkeeps, foldCode, if_neg hascii]

/-- The lower case of other characters is that of their class. -/
theorem lowerCode_eq_smallCode {n : Nat} (hn : n ∉ variants) :
    lowerCode lowerRuns n = smallCode lowerRuns (foldCode foldRuns n) := by
  by_cases hascii : n < 0x80
  · have hall : ∀ n < 0x80,
        lowerCode lowerRuns n = smallCode lowerRuns (foldCode foldRuns n) := by decide +kernel
    exact hall n hascii
  · rw [foldCode, if_neg hascii]
    rcases CaseRun.apply_cases foldRuns n with hstays | ⟨r, hr, hholds, hmoves⟩
    · rw [hstays, smallCode]
      all_goals
        rintro rfl
        exact hn (by decide)
    · obtain ⟨hsource, htarget⟩ := CaseRun.apply_near lowerRuns hholds
      have hkeeps :=
        List.all_eq_true.1 (keepsSmall_of_mem r hr) n (CaseRun.mem_points_of_holds hholds)
      rw [List.contains_eq_mem, decide_eq_false hn, Bool.or_false, beq_iff_eq, hsource] at hkeeps
      rw [lowerCode, if_neg hascii, hmoves, ← hkeeps]
      exact smallCode_congr htarget

/-! ### Characters and texts -/

/-- **The two rules agree on characters** other than the variants. -/
theorem lowerChar_eq_iff {c d : Char} (hc : c.toNat ∉ variants) (hd : d.toNat ∉ variants) :
    lowerChar c = lowerChar d ↔ foldKey c = foldKey d := by
  have hdotted : ∀ {n : Nat}, n ∉ variants → n ≠ 0x130 := by
    rintro n hn rfl
    exact hn (by decide)
  rw [← Char.toNat_inj, ← Char.toNat_inj, toNat_lowerChar, toNat_lowerChar, toNat_foldKey,
    toNat_foldKey]
  constructor
  · intro h
    rw [← foldCode_lowerCode (hdotted hc), h, foldCode_lowerCode (hdotted hd)]
  · intro h
    rw [lowerCode_eq_smallCode hc, h, lowerCode_eq_smallCode hd]

/-- Every variant differs from some character by one rule only. -/
theorem variants_differ : ∀ n ∈ variants, ∃ d : Char,
    ¬(lowerChar (Char.ofNat n) = lowerChar d ↔ foldKey (Char.ofNat n) = foldKey d) := by
  have hdiffer : ∀ n ∈ variants, ∀ d : Char,
      d = (if n = 0x130 then 'i' else Char.ofNat (smallCode lowerRuns (foldCode foldRuns n))) →
        ¬(lowerChar (Char.ofNat n) = lowerChar d ↔ foldKey (Char.ofNat n) = foldKey d) := by
    simp only [forall_eq]
    decide +kernel
  exact fun n hn => ⟨_, hdiffer n hn _ rfl⟩

/-- The text has a character that the two rules treat differently. -/
def hasVariant (s : String) : Bool := s.toList.any fun c => variants.contains c.toNat

theorem map_lowerChar_eq_iff {cs ds : List Char} (hcs : ∀ c ∈ cs, c.toNat ∉ variants)
    (hds : ∀ d ∈ ds, d.toNat ∉ variants) :
    cs.map lowerChar = ds.map lowerChar ↔ cs.map foldKey = ds.map foldKey := by
  induction cs generalizing ds with
  | nil =>
    cases ds with
    | nil => exact iff_of_true rfl rfl
    | cons d ds => exact iff_of_false nofun nofun
  | cons c cs ih =>
    cases ds with
    | nil => exact iff_of_false nofun nofun
    | cons d ds =>
      obtain ⟨hc, hcs⟩ := List.forall_mem_cons.1 hcs
      obtain ⟨hd, hds⟩ := List.forall_mem_cons.1 hds
      simp only [List.map_cons, List.cons.injEq, lowerChar_eq_iff hc hd, ih hcs hds]

/-- **The two rules agree on texts** without variants. -/
theorem lower_eq_iff_sameFold {a b : String} (ha : hasVariant a = false)
    (hb : hasVariant b = false) : lower a = lower b ↔ sameFold a b = true := by
  have hplain : ∀ {s : String}, hasVariant s = false → ∀ c ∈ s.toList, c.toNat ∉ variants := by
    intro s hs c hc
    simpa using List.any_eq_false.1 hs c hc
  unfold lower sameFold foldKeys
  rw [beq_iff_eq, ← map_lowerChar_eq_iff (hplain ha) (hplain hb), ← String.toList_inj,
    String.toList_map, String.toList_map]

end Blockwork.Text
