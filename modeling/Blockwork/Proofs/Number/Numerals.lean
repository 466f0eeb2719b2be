import Blockwork.Number.Display
import Blockwork.Number.Numeral
import Blockwork.Proofs.Number.Nearest
import Blockwork.Proofs.Text.Folding
import Mathlib.Data.Bool.AllAny

/-!
# Decimal numerals are read as they are written

`Numeral.Written` lists the texts that decimal numerals have when they are written by the book: some
digits, a point with more digits perhaps, an exponent perhaps. Such a text is read as the decimal
that its digits and its exponent say (`Written.readDecimal?`), and with a sign in front as the
number nearest to it (`Written.read?`): nothing in it can be taken for a blank, for one of the two
words or for the mark of another base. The reader takes more than these; that is of no concern here.
-/

namespace Blockwork

namespace Numeral

/-! ### Digits -/

/-- The value of a decimal digit. -/
def digitValue (c : Char) : Nat := c.toNat - '0'.toNat

theorem decimalDigit?_of_isDigit {c : Char} (h : c.isDigit = true) :
    decimalDigit? c = some (digitValue c) := by
  unfold Char.isDigit at h
  obtain ⟨hlow, hhigh⟩ := by simpa using h
  exact if_pos (by simpa using ⟨hlow, hhigh⟩)

/-- Digits are taken up to what is none. -/
theorem takeDigits_append {ds rest : List Char} (hds : ∀ c ∈ ds, c.isDigit = true)
    (hrest : takeDigits decimalDigit? rest = ([], rest)) :
    takeDigits decimalDigit? (ds ++ rest) = (ds.map digitValue, rest) := by
  induction ds with
  | nil => exact hrest
  | cons c ds ih =>
    obtain ⟨hc, hds⟩ := List.forall_mem_cons.1 hds
    rw [List.cons_append, takeDigits, decimalDigit?_of_isDigit hc, ih hds]
    rfl

/-- The number that digits write. -/
theorem ofDigits_map_digitValue (ds : List Char) :
    ofDigits 10 (ds.map digitValue) = Nat.ofDigitChars 10 ds 0 := by
  unfold ofDigits digitValue
  rw [List.foldl_map, Nat.ofDigitChars_eq_foldl]
  simp only [Nat.mul_comm]

/-- Without underscores there is nothing to place. -/
theorem separatorsPlaced_of_notMem (digit? : Char → Option Nat) {cs : List Char}
    (hcs : '_' ∉ cs) (afterDigit : Bool) : separatorsPlaced digit? afterDigit cs = true := by
  induction cs generalizing afterDigit with
  | nil => rw [separatorsPlaced]
  | cons c cs ih =>
    obtain ⟨hc, hcs⟩ := not_or.1 (List.mem_cons.not.1 hcs)
    rw [separatorsPlaced]
    · exact ih hcs _
    · exact fun h => hc h.symm

/-- The digits of an exponent after its sign. -/
theorem readExponent?_cons {sign : Char} (minus : Bool) {ds : List Char}
    (hsign : takeSign (sign :: ds) = (minus, ds)) (hds : ∀ c ∈ ds, c.isDigit = true)
    (hne : ds ≠ []) :
    readExponent? (sign :: ds)
      = some (if minus then -(Nat.ofDigitChars 10 ds 0 : Int) else Nat.ofDigitChars 10 ds 0) := by
  have htake : takeDigits decimalDigit? ds = (ds.map digitValue, []) := by
    have happend : takeDigits decimalDigit? (ds ++ []) = (ds.map digitValue, []) :=
      takeDigits_append hds rfl
    rwa [List.append_nil] at happend
  obtain ⟨c, rest, rfl⟩ := List.exists_cons_of_ne_nil hne
  unfold readExponent?
  rw [hsign]
  dsimp only
  rw [htake, ← ofDigits_map_digitValue]
  rfl

/-! ### Decimal numerals -/

/-- Digits with a point, unless nothing follows it. -/
def pointed (whole after : List Char) : List Char :=
  if after = [] then whole else whole ++ '.' :: after

/-- What follows the digits of a numeral: nothing, or an exponent. -/
inductive Ending : List Char → Int → Prop where
  | nothing : Ending [] 0
  | exponent {cs : List Char} {e : Int} : readExponent? cs = some e →
      (∀ c ∈ cs, c.isDigit = true ∨ c = '+' ∨ c = '-') → Ending ('e' :: cs) e

/-- **Decimal numerals in writing**: digits, a point and digits perhaps, an exponent perhaps. -/
inductive Written : List Char → Nat → Int → Prop where
  | mk {whole after tail : List Char} {e : Int} : whole ≠ [] →
      (∀ c ∈ whole, c.isDigit = true) → (∀ c ∈ after, c.isDigit = true) → Ending tail e →
      Written (pointed whole after ++ tail) (Nat.ofDigitChars 10 (whole ++ after) 0)
        (e - after.length)

theorem Written.of_eq {cs : List Char} (whole after tail : List Char) {n : Nat} {e x : Int}
    (hcs : cs = pointed whole after ++ tail) (hne : whole ≠ [])
    (hdigits : ∀ c ∈ whole ++ after, c.isDigit = true) (htail : Ending tail e)
    (hn : Nat.ofDigitChars 10 (whole ++ after) 0 = n) (hx : e - after.length = x) :
    Written cs n x := by
  subst hcs hn hx
  exact .mk hne (fun c hc => hdigits c (List.mem_append_left _ hc))
    (fun c hc => hdigits c (List.mem_append_right _ hc)) htail

/-- The characters of decimal numerals. -/
def characters : List Char :=
  ['0', '1', '2', '3', '4', '5', '6', '7', '8', '9', '.', 'e', '+', '-']

theorem mem_characters_of_isDigit {c : Char} (h : c.isDigit = true) : c ∈ characters := by
  have hbounds : 48 ≤ c.toNat ∧ c.toNat ≤ 57 := Char.isDigit_iff_toNat.1 h
  have hall : ∀ n < 58, 48 ≤ (Char.ofNat n).toNat → Char.ofNat n ∈ characters := by decide
  exact Text.of_lt (P := fun c => 48 ≤ c.toNat → c ∈ characters) hall (by omega) hbounds.1

theorem Ending.takeDigits {tail : List Char} {e : Int} (h : Ending tail e) :
    takeDigits decimalDigit? tail = ([], tail) := by
  cases h <;> rfl

theorem Ending.mem_characters {tail : List Char} {e : Int} (h : Ending tail e) :
    ∀ c ∈ tail, c ∈ characters := by
  cases h with
  | nothing => exact fun c hc => absurd hc List.not_mem_nil
  | exponent _ hcs =>
    refine List.forall_mem_cons.2 ⟨by decide, fun c hc => ?_⟩
    rcases hcs c hc with hdigit | rfl | rfl
    · exact mem_characters_of_isDigit hdigit
    · decide
    · decide

theorem Written.mem_characters {cs : List Char} {n : Nat} {e : Int} (h : Written cs n e) :
    ∀ c ∈ cs, c ∈ characters := by
  obtain ⟨-, hwhole, hafter, htail⟩ := h
  intro c hc
  rcases List.mem_append.1 hc with hc | hc
  · unfold pointed at hc
    split at hc
    · exact mem_characters_of_isDigit (hwhole c hc)
    rcases List.mem_append.1 hc with hc | hc
    · exact mem_characters_of_isDigit (hwhole c hc)
    rcases List.mem_cons.1 hc with rfl | hc
    · decide
    · exact mem_characters_of_isDigit (hafter c hc)
  · exact htail.mem_characters c hc

/-- A numeral begins with a digit. -/
theorem Written.exists_cons {cs : List Char} {n : Nat} {e : Int} (h : Written cs n e) :
    ∃ c rest, cs = c :: rest ∧ c.isDigit = true := by
  obtain @⟨whole, after, tail, -, hne, hwhole, -, -⟩ := h
  obtain ⟨c, rest, rfl⟩ := List.exists_cons_of_ne_nil hne
  refine ⟨c, if after = [] then rest ++ tail else rest ++ '.' :: after ++ tail, ?_,
    hwhole c List.mem_cons_self⟩
  unfold pointed
  split <;> rfl

theorem takeMantissa?_pointed {whole after tail : List Char} {e : Int} (hne : whole ≠ [])
    (hwhole : ∀ c ∈ whole, c.isDigit = true) (hafter : ∀ c ∈ after, c.isDigit = true)
    (htail : Ending tail e) :
    takeMantissa? decimalDigit? (pointed whole after ++ tail)
      = some ((whole ++ after).map digitValue, after.length, tail) := by
  have hsome : (whole.map digitValue).isEmpty = false := by simpa using hne
  unfold takeMantissa? pointed
  by_cases hempty : after = []
  · rw [if_pos hempty, takeDigits_append hwhole htail.takeDigits, hempty]
    cases htail <;> simp [hne]
  · have hpoint :
        takeDigits decimalDigit? ('.' :: (after ++ tail)) = ([], '.' :: (after ++ tail)) := rfl
    rw [if_neg hempty, List.append_assoc, List.cons_append, takeDigits_append hwhole hpoint]
    simp only [takeDigits_append hafter htail.takeDigits, hsome, Bool.false_and, List.map_append,
      List.length_map, Bool.false_eq_true, if_false]

/-- **A decimal numeral is read as it is written.** -/
theorem Written.readDecimal? {cs : List Char} {n : Nat} {e : Int} (h : Written cs n e) :
    readDecimal? cs = some (n, e) := by
  have hunderscore : '_' ∉ cs := fun hmem => absurd (h.mem_characters _ hmem) (by decide)
  have hkept : cs.filter (· != '_') = cs := by
    refine List.filter_eq_self.2 fun c hc => bne_iff_ne.2 ?_
    rintro rfl
    exact hunderscore hc
  obtain ⟨hne, hwhole, hafter, htail⟩ := h
  unfold Numeral.readDecimal?
  rw [separatorsPlaced_of_notMem _ hunderscore, hkept,
    takeMantissa?_pointed hne hwhole hafter htail, ← ofDigits_map_digitValue]
  cases htail with
  | nothing => rfl
  | exponent hread _ =>
    rw [guard, if_pos rfl]
    simp [hread]

/-- No decimal numeral is a word or has a mark of another base. -/
theorem Written.readUnsigned? {cs : List Char} {n : Nat} {e : Int} (h : Written cs n e) :
    readUnsigned? cs = Decimal.nearestWord n e := by
  have hletters : ∀ c ∈ characters, c.toLower ≠ 'i' ∧ c ≠ 'x' ∧ c ≠ 'X' :=
    List.all_iff_forall_prop.1 (by decide)
  -- the words begin with a letter that no numeral has
  have hword : ∀ word : List Char, cs.map Char.toLower ≠ 'i' :: word := by
    obtain ⟨c, rest, rfl, hdigit⟩ := h.exists_cons
    intro word hword
    exact (hletters c (mem_characters_of_isDigit hdigit)).1 (List.cons.inj hword).1
  have hinf : (cs.map Char.toLower == "inf".toList) = false :=
    beq_false_of_ne fun h => hword ['n', 'f'] h
  have hinfinity : (cs.map Char.toLower == "infinity".toList) = false :=
    beq_false_of_ne fun h => hword ['n', 'f', 'i', 'n', 'i', 't', 'y'] h
  unfold Numeral.readUnsigned?
  dsimp only
  rw [hinf, hinfinity]
  simp only [Bool.or_self, Bool.false_eq_true, if_false, h.readDecimal?, Option.bind_some]
  split
  · next x rest =>
    obtain ⟨-, hx, hX⟩ := hletters x (h.mem_characters x (by simp))
    simp only [beq_false_of_ne hx, beq_false_of_ne hX, Bool.or_self, Bool.false_and,
      Bool.false_eq_true, if_false]
  · rfl

/-! ### Signs -/

theorem takeSign_of_isDigit {c : Char} (hc : c.isDigit = true) (rest : List Char) :
    takeSign (c :: rest) = (false, c :: rest) := by
  unfold takeSign
  split
  · next heq => exact absurd ((List.cons.inj heq).1 ▸ hc) (by decide)
  · next heq => exact absurd ((List.cons.inj heq).1 ▸ hc) (by decide)
  · rfl

/-- **A numeral with a sign is read as the nearest number of that sign.** -/
theorem Written.read? {cs : List Char} {n w : Nat} {e : Int} (h : Written cs n e)
    (hw : Decimal.nearestWord n e = some w) (negative : Bool) :
    Binary64.read? (String.ofList (Display.signed negative cs)) = some (.ofWord negative w) := by
  have hplain : ∀ c ∈ Display.signed negative cs, c ∈ characters := by
    cases negative with
    | false => exact h.mem_characters
    | true => exact List.forall_mem_cons.2 ⟨by decide, h.mem_characters⟩
  have hblank : ∀ c ∈ characters, Text.isBlank c = false := List.all_iff_forall_prop.1 (by decide)
  have hsign : takeSign (Display.signed negative cs) = (negative, cs) := by
    cases negative with
    | false =>
      obtain ⟨c, rest, rfl, hc⟩ := h.exists_cons
      exact takeSign_of_isDigit hc rest
    | true => rfl
  unfold Binary64.read? Numeral.readList?
  rw [String.toList_ofList, Text.trimList_eq_self fun c hc => hblank c (hplain c hc), hsign]
  dsimp only
  rw [h.readUnsigned?, hw]
  rfl

end Numeral

end Blockwork
