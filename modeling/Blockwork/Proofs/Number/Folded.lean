import Blockwork.Number.Numeral
import Blockwork.Proofs.Text.Folding
import Mathlib.Data.Bool.AllAny
import Mathlib.Data.Option.Basic

/-!
# Numerals in any case

Whether a text reads as a number, and as which one, does not depend on the case of its letters
(`Binary64.read?_of_sameFold`). The reader looks at each character in a few ways only: as a digit of
either base, as one of its marks, as a letter of its words. A change of characters that none of
these notices (`Numeral.Unseen`) goes along with every step of reading, and folding is such a
change, in all of Unicode.
-/

namespace Blockwork

namespace Numeral

/-- A change of characters that the reader of numerals does not notice. -/
structure Unseen (f : Char → Char) : Prop where
  blank : ∀ c, Text.isBlank (f c) = Text.isBlank c
  digit : ∀ c, decimalDigit? (f c) = decimalDigit? c
  hexDigit : ∀ c, hexDigit? (f c) = hexDigit? c
  /-- The marks that stand for themselves. -/
  mark : ∀ m ∈ ['+', '-', '.', '_', '0'], ∀ c, f c = m ↔ c = m
  /-- The marks that are letters. -/
  letterMark : ∀ l ∈ [('e', 'E'), ('p', 'P'), ('x', 'X')], ∀ c,
    f c = l.1 ∨ f c = l.2 ↔ c = l.1 ∨ c = l.2
  /-- The letters of the two words. -/
  wordLetter : ∀ l ∈ ['i', 'n', 'f', 't', 'y'], ∀ c, (f c).toLower = l ↔ c.toLower = l

variable {f : Char → Char} {digit? : Char → Option Nat}

/-! ### Parts of a numeral -/

theorem takeDigits_map (hdigit : ∀ c, digit? (f c) = digit? c) (cs : List Char) :
    takeDigits digit? (cs.map f)
      = ((takeDigits digit? cs).1, (takeDigits digit? cs).2.map f) := by
  induction cs with
  | nil => rfl
  | cons c cs ih =>
    rw [List.map_cons, takeDigits, takeDigits, hdigit, ih]
    cases digit? c <;> rfl

theorem separatorsPlaced_map (hdigit : ∀ c, digit? (f c) = digit? c)
    (hmark : ∀ c, f c = '_' ↔ c = '_') (afterDigit : Bool) (cs : List Char) :
    separatorsPlaced digit? afterDigit (cs.map f) = separatorsPlaced digit? afterDigit cs := by
  induction cs generalizing afterDigit with
  | nil => rfl
  | cons c cs ih =>
    by_cases hc : c = '_'
    · subst hc
      rw [List.map_cons, (hmark '_').2 rfl]
      cases cs with
      | nil => rfl
      | cons c cs =>
        have ih := ih false
        rw [List.map_cons] at ih ⊢
        rw [separatorsPlaced.eq_2, separatorsPlaced.eq_2, hdigit, ih]
    · rw [List.map_cons, separatorsPlaced.eq_4 _ _ _ _ (mt (hmark c).1 hc),
        separatorsPlaced.eq_4 _ _ _ _ hc, ih, hdigit]

namespace Unseen

variable (hf : Unseen f)
include hf

theorem takeSign_map (cs : List Char) :
    takeSign (cs.map f) = ((takeSign cs).1, (takeSign cs).2.map f) := by
  cases cs with
  | nil => rfl
  | cons c cs =>
    by_cases hplus : c = '+'
    · subst hplus
      rw [List.map_cons, (hf.mark '+' (by decide) _).2 rfl]
      rfl
    by_cases hminus : c = '-'
    · subst hminus
      rw [List.map_cons, (hf.mark '-' (by decide) _).2 rfl]
      rfl
    rw [takeSign.eq_3 (c :: cs) (by simpa using hplus) (by simpa using hminus), List.map_cons,
      takeSign.eq_3]
    · simpa using (hf.mark '+' (by decide) c).not.2 hplus
    · simpa using (hf.mark '-' (by decide) c).not.2 hminus

theorem readExponent?_map (cs : List Char) : readExponent? (cs.map f) = readExponent? cs := by
  unfold readExponent?
  rw [hf.takeSign_map]
  dsimp only
  rw [takeDigits_map hf.digit]
  rcases takeDigits decimalDigit? (takeSign cs).2 with ⟨_ | _, _ | _⟩ <;> rfl

theorem takeMantissa?_map (hdigit : ∀ c, digit? (f c) = digit? c) (cs : List Char) :
    takeMantissa? digit? (cs.map f)
      = (takeMantissa? digit? cs).map fun (ds, after, rest) => (ds, after, rest.map f) := by
  have hpoint : ∀ c, f c = '.' ↔ c = '.' := hf.mark '.' (by decide)
  unfold takeMantissa?
  rw [takeDigits_map hdigit]
  obtain ⟨whole, rest⟩ := takeDigits digit? cs
  dsimp only
  rcases rest with _ | ⟨c, rest⟩
  · rw [List.map_nil]
    cases whole <;> rfl
  · rw [List.map_cons]
    by_cases hc : c = '.'
    · subst hc
      rw [(hpoint '.').2 rfl]
      simp only [takeDigits_map hdigit]
      split <;> rfl
    · have hfc : f c ≠ '.' := mt (hpoint c).1 hc
      cases whole <;> simp [hc, hfc]

/-- Underscores are left out. -/
theorem filter_map (cs : List Char) :
    (cs.map f).filter (· != '_') = (cs.filter (· != '_')).map f := by
  rw [List.filter_map]
  congr 1
  refine List.filter_congr fun c _ => ?_
  rw [Function.comp_apply, bne, bne, Bool.eq_iff_iff]
  simpa using (hf.mark '_' (by decide) c).not

/-! ### Whole numerals -/

theorem readDecimal?_map (cs : List Char) : readDecimal? (cs.map f) = readDecimal? cs := by
  have hletter : ∀ c, f c = 'e' ∨ f c = 'E' ↔ c = 'e' ∨ c = 'E' :=
    hf.letterMark ('e', 'E') (by decide)
  unfold readDecimal?
  rw [separatorsPlaced_map hf.digit (hf.mark '_' (by decide)), hf.filter_map,
    hf.takeMantissa?_map hf.digit]
  rcases takeMantissa? decimalDigit? (cs.filter (· != '_')) with _ | ⟨ds, after, rest⟩
  · rfl
  · rcases rest with _ | ⟨c, rest⟩
    · rfl
    · simp [hletter, hf.readExponent?_map]

theorem readHexadecimal?_map (cs : List Char) :
    readHexadecimal? (cs.map f) = readHexadecimal? cs := by
  have hletter : ∀ c, f c = 'p' ∨ f c = 'P' ↔ c = 'p' ∨ c = 'P' :=
    hf.letterMark ('p', 'P') (by decide)
  unfold readHexadecimal?
  rw [separatorsPlaced_map hf.hexDigit (hf.mark '_' (by decide)), hf.filter_map,
    hf.takeMantissa?_map hf.hexDigit]
  rcases takeMantissa? hexDigit? (cs.filter (· != '_')) with _ | ⟨ds, after, rest⟩
  · rfl
  · rcases rest with _ | ⟨c, rest⟩
    · rfl
    · simp [hletter, hf.readExponent?_map]

/-- A word is recognised all the same. -/
theorem word_map {word : List Char} (hword : word ⊆ ['i', 'n', 'f', 't', 'y'])
    (cs : List Char) :
    ((cs.map f).map Char.toLower == word) = (cs.map Char.toLower == word) := by
  rw [Bool.eq_iff_iff, beq_iff_eq, beq_iff_eq]
  induction cs generalizing word with
  | nil => rfl
  | cons c cs ih =>
    cases word with
    | nil => simp
    | cons l word =>
      obtain ⟨hl, hword⟩ := List.cons_subset.1 hword
      simp only [List.map_cons, List.cons.injEq, hf.wordLetter l hl c, ih hword]

theorem readUnsigned?_map (cs : List Char) : readUnsigned? (cs.map f) = readUnsigned? cs := by
  -- the prefix of the other base is told by these two characters
  have hzero : ∀ c, f c = '0' ↔ c = '0' := hf.mark '0' (by decide)
  have hletter : ∀ c, f c = 'x' ∨ f c = 'X' ↔ c = 'x' ∨ c = 'X' :=
    hf.letterMark ('x', 'X') (by decide)
  unfold readUnsigned?
  dsimp only
  rw [hf.word_map (by decide), hf.word_map (by decide)]
  congr 1
  rcases cs with _ | ⟨c, cs⟩
  · rfl
  have hdecimal := hf.readDecimal?_map (c :: cs)
  by_cases hc : c = '0'
  · subst hc
    rcases cs with _ | ⟨x, rest⟩
    · rw [List.map_cons, (hzero '0').2 rfl]
      rfl
    · rw [List.map_cons, (hzero '0').2 rfl, List.map_cons] at hdecimal ⊢
      simp [hletter, hdecimal, hf.readHexadecimal?_map]
  · have hfc : f c ≠ '0' := mt (hzero c).1 hc
    rw [List.map_cons] at hdecimal ⊢
    simp [hc, hfc, hdecimal]

theorem readList?_map (cs : List Char) : readList? (cs.map f) = readList? cs := by
  unfold readList?
  rw [hf.takeSign_map]
  dsimp only
  rw [hf.readUnsigned?_map]

end Unseen

theorem hexDigit?_beyond {c : Char} (hc : 0x80 ≤ c.toNat) : hexDigit? c = none := by
  have h9 : ¬c ≤ '9' := Text.not_le_of_beyond hc (by decide)
  have hf : ¬c ≤ 'f' := Text.not_le_of_beyond hc (by decide)
  have hF : ¬c ≤ 'F' := Text.not_le_of_beyond hc (by decide)
  simp [hexDigit?, h9, hf, hF]

theorem decimalDigit?_beyond {c : Char} (hc : 0x80 ≤ c.toNat) : decimalDigit? c = none := by
  have h9 : ¬c ≤ '9' := Text.not_le_of_beyond hc (by decide)
  simp [decimalDigit?, h9]

/-- **Folding is not noticed.** -/
theorem unseen_foldKey : Unseen Text.foldKey where
  blank := Text.isBlank_foldKey
  digit := Text.apply_foldKey (b := none) (by decide) rfl rfl fun _ => decimalDigit?_beyond
  hexDigit := Text.apply_foldKey (b := none) (by decide) rfl rfl fun _ => hexDigit?_beyond
  mark m hm := by
    -- below 0x80 a mark is checked by computing, beyond it nothing folds to one
    obtain ⟨hsmall, hS, hK, hascii⟩ : m.toNat < 0x80 ∧ 'S' ≠ m ∧ 'K' ≠ m ∧
        ∀ n < 0x80, (Char.ofNat n).toUpper = m ↔ Char.ofNat n = m := by
      revert m
      exact List.all_iff_forall_prop.1 (by decide)
    refine Text.foldKey_iff (P := (· = m)) hascii hS hK fun c hc h => ?_
    subst h
    omega
  letterMark l hl := by
    obtain ⟨hsmall, hcapital, hS, hK, hascii⟩ : l.1.toNat < 0x80 ∧ l.2.toNat < 0x80 ∧
        ¬('S' = l.1 ∨ 'S' = l.2) ∧ ¬('K' = l.1 ∨ 'K' = l.2) ∧
        ∀ n < 0x80, (Char.ofNat n).toUpper = l.1 ∨ (Char.ofNat n).toUpper = l.2 ↔
          Char.ofNat n = l.1 ∨ Char.ofNat n = l.2 := by
      revert l
      exact List.all_iff_forall_prop.1 (by decide)
    refine Text.foldKey_iff (P := fun c => c = l.1 ∨ c = l.2) hascii hS hK fun c hc h => ?_
    rcases h with rfl | rfl <;> omega
  wordLetter l hl := by
    obtain ⟨hsmall, hS, hK, hascii⟩ : l.toNat < 0x80 ∧ 'S'.toLower ≠ l ∧ 'K'.toLower ≠ l ∧
        ∀ n < 0x80, (Char.ofNat n).toUpper.toLower = l ↔ (Char.ofNat n).toLower = l := by
      revert l
      exact List.all_iff_forall_prop.1 (by decide)
    refine Text.foldKey_iff (P := (·.toLower = l)) hascii hS hK fun c hc h => ?_
    rw [Text.toLower_of_beyond hc] at h
    subst h
    omega

end Numeral

theorem Binary64.read?_of_sameFold {a b : String} (h : Text.sameFold a b = true) :
    Binary64.read? a = Binary64.read? b := by
  have hread : ∀ s : String,
      Numeral.readList? (Text.trimList (Text.foldKeys s)) = Binary64.read? s := by
    intro s
    rw [Text.foldKeys, Text.trimList_map Text.isBlank_foldKey, Numeral.unseen_foldKey.readList?_map]
    rfl
  rw [← hread, ← hread, show Text.foldKeys a = Text.foldKeys b from beq_iff_eq.1 h]

end Blockwork
