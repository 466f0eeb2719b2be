import Blockwork.Proofs.Text.Decoding
import Blockwork.Proofs.Yaml.Cursor

/-!
# Quoted scalars are read as they are written

Between quotes a text is words and gaps. What stands for one character of a word is read as that
character: itself, a doubled quote, or an escape (`takeQuotedWord_written`). A gap is spaces, or in
single quotes line breaks with the indentation of the next line after them; it is read as what it
was because breaks stand for themselves here and the indentation is dropped.

Double quotes escape tabs and breaks, so there only spaces make gaps, and all is on one line. In
single quotes no space stands next to a break, as such a text is not written that way.
-/

namespace Blockwork.Yaml

/-! ### Escapes -/

theorem hexDigit?_toUpper : ∀ d < 16, Numeral.hexDigit? (Text.hexDigit d).toUpper = some d := by
  decide

theorem length_upperHex (width n : Nat) : (upperHex width n).length = width := by
  unfold upperHex
  rw [List.length_map]
  induction width generalizing n with
  | zero => rfl
  | succ width ih => rw [Text.hexDigits, List.length_append, ih, List.length_singleton]

/-- **The digits of a number are read as that number.** -/
theorem filterMap_upperHex (width n : Nat) :
    ∃ ds, (upperHex width n).filterMap Numeral.hexDigit? = ds ∧ ds.length = width ∧
      Numeral.ofDigits 16 ds = n % 16 ^ width := by
  induction width generalizing n with
  | zero => exact ⟨[], rfl, rfl, (Nat.mod_one n).symm⟩
  | succ width ih =>
    obtain ⟨ds, hds, hlength, hvalue⟩ := ih (n / 16)
    refine ⟨ds ++ [n % 16], ?_, by rw [List.length_append, hlength]; rfl, ?_⟩
    · unfold upperHex at hds ⊢
      rw [Text.hexDigits, List.map_append, List.filterMap_append, hds, List.map_singleton,
        List.filterMap_cons_some (hexDigit?_toUpper _ (Nat.mod_lt _ (by decide)))]
      rfl
    · unfold Numeral.ofDigits at hvalue ⊢
      rw [List.foldl_append, hvalue, List.foldl_cons, List.foldl_nil, Nat.pow_succ, Nat.mul_comm,
        Nat.mul_comm (16 ^ width), Nat.mod_mul, Nat.add_comm]

section

variable (origin : Cursor) {c : Cursor} {l x : Char} {r : List Char}

theorem takeEscape_letter (hc : c.rest = '\\' :: l :: r) (hl : escaped? l = some x) :
    ∃ c', takeEscape origin c = .ok (x, c') ∧ c.Passes ['\\', l] c' := by
  have hslash := Cursor.passes_advance hc
  have hrest := hslash.of_rest hc
  refine ⟨c.advance.advance, ?_, hslash.trans (Cursor.passes_advance hrest)⟩
  unfold takeEscape
  dsimp only
  rw [Cursor.peek?_cons hrest]
  simp only [hl]

theorem takeEscape_code {width : Nat} (hc : c.rest = '\\' :: l :: (upperHex width x.toNat ++ r))
    (hl : escaped? l = none) (hwidth : codeWidth? l = some width)
    (hx : x.toNat < 16 ^ width) :
    ∃ c', takeEscape origin c = .ok (x, c') ∧
      c.Passes ('\\' :: l :: upperHex width x.toNat) c' := by
  have hslash := Cursor.passes_advance hc
  have hrest := hslash.of_rest hc
  have hletter := Cursor.passes_advance hrest
  have hdigits : c.advance.advance.rest = upperHex width x.toNat ++ r := hletter.of_rest hrest
  -- the digits give back the code point, which is below the bound
  obtain ⟨ds, hds, hlength, hvalue⟩ := filterMap_upperHex width x.toNat
  rw [Nat.mod_eq_of_lt hx] at hvalue
  have htake : (c.advance.advance.rest.take width) = upperHex width x.toNat := by
    rw [hdigits, List.take_left' (length_upperHex width x.toNat)]
  have hsize := length_upperHex width x.toNat
  have hpasses := Cursor.passes_advanceBy hdigits
  rw [hsize] at hpasses
  have hvalid := Text.not_surrogate x
  have hbound := Text.toNat_lt_bound x
  refine ⟨_, ?_, (hslash.trans hletter).trans hpasses⟩
  unfold takeEscape
  dsimp only
  rw [Cursor.peek?_cons hrest]
  simp only [hl, hwidth, htake, hds, hlength, hvalue]
  rw [if_neg (by omega), if_neg (by omega), Char.ofNat_toNat]

end

/-- **How a character is escaped**: by a letter that stands for it, or by its code. -/
theorem escapeChar_cases {x : Char} (h : isEscaped x = true) :
    (∃ l, escapeChar x = ['\\', l] ∧ isBreak l = false ∧ escaped? l = some x) ∨
    ∃ l width, escapeChar x = '\\' :: l :: upperHex width x.toNat ∧ isBreak l = false ∧
      escaped? l = none ∧ codeWidth? l = some width ∧ x.toNat < 16 ^ width := by
  have hchar : ∀ n, x.toNat = n → x = Char.ofNat n := fun n hn => by rw [← hn, Char.ofNat_toNat]
  unfold escapeChar
  rw [h]
  simp only [Bool.not_true, Bool.false_eq_true, if_false]
  split
  -- without a letter of its own a character is written by its code
  case h_16 =>
    have hbound := Text.toNat_lt_bound x
    refine .inr ?_
    split_ifs with hshort hlong
    · exact ⟨'x', 2, rfl, by decide, by decide, by decide, by omega⟩
    · exact ⟨'u', 4, rfl, by decide, by decide, by decide, by omega⟩
    · exact ⟨'U', 8, rfl, by decide, by decide, by decide, by omega⟩
  all_goals
    rename_i hcode
    obtain rfl := hchar _ hcode
    exact .inl ⟨_, rfl, by decide, by decide⟩

/-! ### Words -/

/-- What stands for a character between quotes. -/
def quotedChar (single : Bool) (x : Char) : List Char :=
  if single then (if x == '\'' then [x, x] else [x]) else escapeChar x

/-- A character that a word can have: every other one makes a gap. -/
def isWordChar (single : Bool) (x : Char) : Bool := if single then !isGap x else x != ' '

/-- The quote. -/
def quoteMark (single : Bool) : Char := if single then '\'' else '"'

/-- A character that is not escaped is a space or belongs to a word. -/
theorem not_escaped {x : Char} (h : isEscaped x = false) (hspace : x ≠ ' ') :
    isGap x = false ∧ (x == '"') = false ∧ (x == '\\') = false := by
  obtain ⟨⟨⟨hshown, hbreak⟩, hquote⟩, hslash⟩ :
      ((isShown x = true ∧ isBreak x = false) ∧ (x == '"') = false) ∧ (x == '\\') = false := by
    unfold isEscaped at h
    simpa only [Bool.or_eq_false_iff, Bool.not_eq_false'] using h
  refine ⟨isGap_eq_false_iff.2 ⟨hspace, ?_, hbreak⟩, hquote, hslash⟩
  rintro rfl
  exact absurd hshown (by decide)

section

variable (single : Bool) (origin : Cursor) {c : Cursor} {x : Char} {r : List Char}

/-- What stands for a character of a word begins with no gap. -/
theorem exists_quotedChar (hx : isWordChar single x = true) :
    ∃ y ys, quotedChar single x = y :: ys ∧ isGap y = false := by
  cases single with
  | true =>
    have hgap : isGap x = false := by simpa [isWordChar] using hx
    unfold quotedChar
    simp only [if_true]
    split
    · exact ⟨x, [x], rfl, hgap⟩
    · exact ⟨x, [], rfl, hgap⟩
  | false =>
    have hspace : x ≠ ' ' := by simpa [isWordChar] using hx
    change ∃ y ys, escapeChar x = y :: ys ∧ isGap y = false
    cases hescaped : isEscaped x with
    | false => exact ⟨x, [], by simp [escapeChar, hescaped], (not_escaped hescaped hspace).1⟩
    | true =>
      rcases escapeChar_cases hescaped with ⟨l, hl, -⟩ | ⟨l, width, hl, -⟩
      · exact ⟨_, _, hl, by decide⟩
      · exact ⟨_, _, hl, by decide⟩

/-- **One character of a word** is read as itself, however it is written. -/
theorem takeQuotedWord_char (hx : isWordChar single x = true)
    (hc : c.rest = quotedChar single x ++ r) (fuel : Nat) :
    ∃ c', c.Passes (quotedChar single x) c' ∧ takeQuotedWord single origin (fuel + 1) c
      = (takeQuotedWord single origin fuel c').map fun (word, escapedBreak, c) =>
          (x :: word, escapedBreak, c) := by
  cases single with
  | true =>
    have hgap : isGap x = false := by simpa [isWordChar] using hx
    by_cases hquote : x = '\''
    · subst hquote
      -- a quote is written twice, and the reader looks one character ahead for the second
      have hrest : c.rest = ['\'', '\''] ++ r := hc
      refine ⟨c.advanceBy 2, Cursor.passes_advanceBy hrest, ?_⟩
      have hnext : c.peekAt? 1 = some '\'' := by
        rw [Cursor.peekAt?, hrest]
        rfl
      rw [takeQuotedWord, Cursor.peek?_cons hrest, hnext]
      rfl
    · -- any other character stands for itself
      have hwritten : quotedChar true x = [x] := by simp [quotedChar, hquote]
      rw [hwritten] at hc ⊢
      refine ⟨c.advance, Cursor.passes_advance hc, ?_⟩
      rw [takeQuotedWord, Cursor.peek?_cons hc]
      simp only [hgap, beq_eq_false_iff_ne.2 hquote, Bool.false_eq_true, if_false, if_true]
  | false =>
    have hspace : x ≠ ' ' := by simpa [isWordChar] using hx
    cases hescaped : isEscaped x with
    | false =>
      have hwritten : quotedChar false x = [x] := by
        simp [quotedChar, escapeChar, hescaped]
      rw [hwritten] at hc ⊢
      refine ⟨c.advance, Cursor.passes_advance hc, ?_⟩
      obtain ⟨hgap, hquote, hslash⟩ := not_escaped hescaped hspace
      rw [takeQuotedWord, Cursor.peek?_cons hc]
      simp only [hgap, hquote, hslash, Bool.false_eq_true, if_false]
    | true =>
      -- the reader looks whether the line ends after the backslash, then for an escape
      have hread : ∀ {l : Char} {more : List Char} {c' : Cursor}, c.rest = '\\' :: l :: more →
          isBreak l = false → takeEscape origin c = .ok (x, c') →
          takeQuotedWord false origin (fuel + 1) c
            = (takeQuotedWord false origin fuel c').map fun (word, escapedBreak, c) =>
                (x :: word, escapedBreak, c) := by
        intro l more c' hrest hbreak hescape
        have hnext : (c.peekAt? 1).any isBreak = false := by
          rw [Cursor.peekAt?, hrest]
          exact hbreak
        have hgap : isGap '\\' = false := by decide
        have hquote : ('\\' == '"') = false := by decide
        rw [takeQuotedWord, Cursor.peek?_cons hrest]
        simp only [hgap, hquote, hnext, hescape, Bool.false_eq_true, if_false, beq_self_eq_true,
          if_true]
      have hwritten : quotedChar false x = escapeChar x := rfl
      rw [hwritten] at hc ⊢
      -- an escape is one letter, or a letter and the code in digits
      rcases escapeChar_cases hescaped with ⟨l, hl, hbreak, hletter⟩ |
        ⟨l, width, hl, hbreak, hletter, hwidth, hbound⟩
      · rw [hl] at hc ⊢
        obtain ⟨c', hescape, hpasses⟩ := takeEscape_letter origin hc hletter
        exact ⟨c', hpasses, hread hc hbreak hescape⟩
      · rw [hl] at hc ⊢
        obtain ⟨c', hescape, hpasses⟩ := takeEscape_code origin hc hletter hwidth hbound
        exact ⟨c', hpasses, hread hc hbreak hescape⟩

/-- A word ends before a gap, and before the quote that closes the scalar. -/
def StopsQuoted (single : Bool) (stop : List Char) : Prop :=
  ∃ x r, stop = x :: r ∧ (isGap x = true ∨ x = quoteMark single ∧ r.head? ≠ some '\'')

theorem takeQuotedWord_stop {stop : List Char} (hstop : StopsQuoted single stop)
    (hc : c.rest = stop) (fuel : Nat) :
    takeQuotedWord single origin fuel c = .ok ([], false, c) := by
  cases fuel with
  | zero => rfl
  | succ fuel =>
    obtain ⟨x, r, rfl, hgap | ⟨rfl, hnext⟩⟩ := hstop
    · rw [takeQuotedWord, Cursor.peek?_cons hc]
      simp only [hgap, if_true]
    · rw [takeQuotedWord, Cursor.peek?_cons hc]
      cases single with
      | true =>
        have hother : (c.peekAt? 1 == some '\'') = false := by
          rw [Cursor.peekAt?, hc, List.getElem?_cons_succ, ← List.head?_eq_getElem?]
          simpa using hnext
        simp only [quoteMark, if_true, hother]
        rfl
      | false => rfl

/-- **A word** is read as it is written. -/
theorem takeQuotedWord_written {w stop : List Char} (hw : ∀ x ∈ w, isWordChar single x = true)
    (hstop : StopsQuoted single stop) (hc : c.rest = w.flatMap (quotedChar single) ++ stop)
    {fuel : Nat} (hfuel : w.length ≤ fuel) :
    ∃ c', takeQuotedWord single origin fuel c = .ok (w, false, c') ∧
      c.Passes (w.flatMap (quotedChar single)) c' := by
  induction w generalizing c fuel with
  | nil => exact ⟨c, takeQuotedWord_stop single origin hstop hc fuel, .refl c⟩
  | cons x w ih =>
    obtain ⟨fuel, rfl⟩ : ∃ n, fuel = n + 1 := ⟨fuel - 1, by simp at hfuel; omega⟩
    rw [List.flatMap_cons, List.append_assoc] at hc
    obtain ⟨c₁, hchar, hread⟩ := takeQuotedWord_char single origin (hw x List.mem_cons_self) hc fuel
    obtain ⟨c₂, hrest, hpasses⟩ := ih (fun y hy => hw y (List.mem_cons_of_mem x hy))
      (hchar.of_rest hc) (show w.length ≤ fuel by simp at hfuel; omega)
    refine ⟨c₂, ?_, hchar.trans hpasses⟩
    rw [hread, hrest]
    rfl

/-! ### Lines -/

theorem quotedChar_space : quotedChar single ' ' = [' '] := by
  cases single <;> decide

theorem length_le_flatMap {w : List Char} (hw : ∀ x ∈ w, isWordChar single x = true ∨ x = ' ') :
    w.length ≤ (w.flatMap (quotedChar single)).length := by
  induction w with
  | nil => exact Nat.le_refl 0
  | cons x w ih =>
    have hrest := ih fun y hy => hw y (List.mem_cons_of_mem x hy)
    have hx : 0 < (quotedChar single x).length := by
      rcases hw x List.mem_cons_self with hword | rfl
      · obtain ⟨y, ys, hy, -⟩ := exists_quotedChar single hword
        rw [hy]
        exact Nat.succ_pos _
      · rw [quotedChar_space]
        exact Nat.succ_pos _
    rw [List.flatMap_cons, List.length_append, List.length_cons]
    omega

theorem flatMap_quotedChar_spaces (m : Nat) :
    (spaces m).flatMap (quotedChar single) = spaces m := by
  induction m with
  | zero => rfl
  | succ m ih =>
    change (' ' :: spaces m).flatMap (quotedChar single) = ' ' :: spaces m
    rw [List.flatMap_cons, quotedChar_space, ih]
    rfl

/-- The scalar goes on here: there is more, and no mark of a document. -/
def GoesOn (c : Cursor) : Prop :=
  c.atIndicator '-' = false ∧ c.atIndicator '.' = false ∧ c.rest ≠ []

theorem goesOn_of_column (hcolumn : 0 < c.column) (hne : c.rest ≠ []) : GoesOn c :=
  ⟨Cursor.atIndicator_of_column hcolumn _, Cursor.atIndicator_of_column hcolumn _, hne⟩

/-- A word and the closing quote. -/
theorem takeQuoted_close {w stop : List Char} (hw : ∀ x ∈ w, isWordChar single x = true)
    (hstop : stop.head? ≠ some '\'')
    (hc : c.rest = w.flatMap (quotedChar single) ++ quoteMark single :: stop) (hgoes : GoesOn c)
    (fuel : Nat) (text : List Char) :
    ∃ c', takeQuoted single origin (fuel + 1) text c = .ok (text ++ w, c') ∧
      c.Passes (w.flatMap (quotedChar single) ++ [quoteMark single]) c' := by
  obtain ⟨hdash, hdot, hne⟩ := hgoes
  obtain ⟨c₁, hread, hpasses⟩ := takeQuotedWord_written single origin hw
    ⟨_, _, rfl, .inr ⟨rfl, hstop⟩⟩ hc (show w.length ≤ c.rest.length by
      have hlength := length_le_flatMap single fun x hx => .inl (hw x hx)
      rw [hc, List.length_append]
      omega)
  have hrest := hpasses.of_rest hc
  refine ⟨c₁.advance, ?_, hpasses.trans (Cursor.passes_advance hrest)⟩
  rw [takeQuoted, hdash, hdot, hread]
  have hquote : c₁.isAt (if single = true then '\'' else '"') = true := by
    rw [Cursor.isAt_cons hrest]
    exact beq_self_eq_true _
  simp only [Bool.or_self, Bool.false_eq_true, if_false, List.isEmpty_iff, hne, hquote, if_true]

/-- A word and the gap after it. -/
theorem takeQuoted_gap {w stop : List Char} {y : Char} (hw : ∀ x ∈ w, isWordChar single x = true)
    (hy : isGap y = true) (hc : c.rest = w.flatMap (quotedChar single) ++ y :: stop)
    (hgoes : GoesOn c) :
    ∃ c', c.Passes (w.flatMap (quotedChar single)) c' ∧ ∀ g next,
      (Gap.blanks []).take origin 0 c'.rest.length c' = .ok (g, next) →
      ∀ fuel text, takeQuoted single origin (fuel + 1) text c
        = takeQuoted single origin fuel (text ++ w ++ g.folded) next := by
  obtain ⟨hdash, hdot, hne⟩ := hgoes
  obtain ⟨c₁, hread, hpasses⟩ := takeQuotedWord_written single origin hw
    ⟨_, _, rfl, .inl hy⟩ hc (show w.length ≤ c.rest.length by
      have hlength := length_le_flatMap single fun x hx => .inl (hw x hx)
      rw [hc, List.length_append]
      omega)
  have hrest := hpasses.of_rest hc
  refine ⟨c₁, hpasses, fun g next hnext fuel text => ?_⟩
  -- the word did not end at the closing quote
  have hquote : c₁.isAt (if single = true then '\'' else '"') = false := by
    rw [Cursor.isAt_cons hrest, beq_eq_false_iff_ne]
    rintro rfl
    cases single <;> exact absurd hy (by decide)
  rw [takeQuoted, hdash, hdot, hread]
  simp only [Bool.or_self, Bool.false_eq_true, if_false, List.isEmpty_iff, hne, hquote, hnext]

/-- Without line breaks, a quoted text is read up to its last word. -/
theorem takeQuoted_words {stop : List Char} (n : Nat) :
    ∀ (cs : List Char) (c : Cursor) (fuel : Nat) (text : List Char), cs.length ≤ n →
      (∀ x ∈ cs, isWordChar single x = true ∨ x = ' ') →
      (Begun stop ∨ cs.getLast? ≠ some ' ') → stop ≠ [] →
      c.rest = cs.flatMap (quotedChar single) ++ stop → GoesOn c → cs.length ≤ fuel →
      ∃ before last c' fuel', cs = before ++ last ∧ (∀ x ∈ last, isWordChar single x = true) ∧
        c.Passes (before.flatMap (quotedChar single)) c' ∧ GoesOn c' ∧
        fuel ≤ fuel' + before.length ∧ takeQuoted single origin fuel text c
          = takeQuoted single origin fuel' (text ++ before) c' := by
  induction n with
  | zero =>
    intro cs c fuel text hlength hcs _ _ _ hgoes _
    obtain rfl := List.length_eq_zero_iff.1 (Nat.le_zero.1 hlength)
    exact ⟨[], [], c, fuel, rfl, nofun, .refl c, hgoes, Nat.le_refl _, by rw [List.append_nil]⟩
  | succ n ih =>
    intro cs c fuel text hlength hcs hlast hstop hc hgoes hfuel
    -- the text begins with a word, which may be empty, and then there is a gap or nothing
    obtain ⟨w, r, rfl, hw, hr⟩ := exists_span (isWordChar single) cs
    cases r with
    | nil =>
      -- the only word is the last one, and is left to the caller
      refine ⟨[], w, c, fuel, ?_, hw, .refl c, hgoes, Nat.le_refl _, ?_⟩
      · rw [List.append_nil, List.nil_append]
      · rw [List.append_nil]
    | cons x r =>
      -- the characters after the gap are a shorter text of the same kind
      obtain rfl : x = ' ' := (hcs x (by simp)).resolve_left (by simp [hr x rfl])
      obtain ⟨gap, es, hr', hgap, hes⟩ := exists_span (· == ' ') r
      obtain ⟨m, hm⟩ : ∃ m, ' ' :: r = spaces (m + 1) ++ es := by
        refine ⟨gap.length, ?_⟩
        rw [hr', eq_spaces hgap, length_spaces]
        rfl
      rw [hm] at hcs hlast hc hlength hfuel ⊢
      have hshorter : es.length < (w ++ (spaces (m + 1) ++ es)).length := by
        rw [List.length_append, List.length_append, length_spaces]
        omega
      -- the gap ends before the next word, or before what stops the text
      have hbegun : Begun (es.flatMap (quotedChar single) ++ stop) := by
        cases es with
        | nil =>
          refine hlast.resolve_right fun hne => hne ?_
          rw [List.append_nil, spaces_add, ← List.append_assoc]
          exact List.getLast?_concat
        | cons y es =>
          have hy : isWordChar single y = true :=
            (hcs y (by simp)).resolve_right fun heq => by simpa [heq] using hes y rfl
          obtain ⟨z, zs, hz, hgap⟩ := exists_quotedChar single hy
          rw [List.flatMap_cons, hz]
          exact begun_cons.2 hgap
      have hc' : c.rest = w.flatMap (quotedChar single) ++
          (spaces (m + 1) ++ (es.flatMap (quotedChar single) ++ stop)) := by
        rw [hc, List.flatMap_append, List.flatMap_append, flatMap_quotedChar_spaces,
          List.append_assoc, List.append_assoc]
      obtain ⟨fuel, rfl⟩ : ∃ k, fuel = k + 1 := ⟨fuel - 1, by omega⟩
      obtain ⟨c₁, hword, hread⟩ := takeQuoted_gap single origin hw (by decide) hc' hgoes
      have hrest := hword.of_rest hc'
      obtain ⟨c₂, htake, hblanks⟩ := Gap.take_blanks origin 0 hrest hbegun
        (show m + 1 ≤ c₁.rest.length by rw [hrest, List.length_append, length_spaces]; omega) []
      have hrest₂ := hblanks.of_rest hrest
      -- behind the gap the cursor has left the first column, where a marker could end the document
      have hgoes₂ : GoesOn c₂ := by
        refine goesOn_of_column ?_ (by rw [hrest₂]; simp [hstop])
        rw [hblanks.column, length_spaces]
        omega
      -- what the text ends with is what its rest ends with
      have hlast₂ : Begun stop ∨ es.getLast? ≠ some ' ' := by
        refine hlast.imp_right fun hne heq => hne ?_
        rw [List.getLast?_append, List.getLast?_append, heq]
        rfl
      obtain ⟨before, last, c', fuel', rfl, hchars, hpasses, hgoes', hleft, hstep⟩ := ih es c₂ fuel
        (text ++ w ++ spaces (m + 1)) (by omega) (fun y hy => hcs y (by simp [hy])) hlast₂ hstop
        hrest₂ hgoes₂ (by omega)
      refine ⟨w ++ (spaces (m + 1) ++ before), last, c', fuel', ?_, hchars, ?_, hgoes', ?_, ?_⟩
      · simp only [List.append_assoc]
      · rw [List.flatMap_append, List.flatMap_append, flatMap_quotedChar_spaces,
          ← List.append_assoc]
        exact (hword.trans hblanks).trans hpasses
      · rw [List.length_append, List.length_append, length_spaces]
        omega
      · rw [hread _ _ htake, ← List.append_assoc, ← List.append_assoc]
        exact hstep

/-- **A quoted text without line breaks** is read as it is written, on its line. -/
theorem takeQuoted_line {cs stop : List Char}
    (hcs : ∀ x ∈ cs, isWordChar single x = true ∨ x = ' ') (hstop : stop.head? ≠ some '\'')
    (hc : c.rest = cs.flatMap (quotedChar single) ++ quoteMark single :: stop) (hgoes : GoesOn c)
    {fuel : Nat} (hfuel : cs.length < fuel) (text : List Char) :
    ∃ c', takeQuoted single origin fuel text c = .ok (text ++ cs, c') ∧
      c.Passes (cs.flatMap (quotedChar single) ++ [quoteMark single]) c' := by
  have hbegun : Begun (quoteMark single :: stop) :=
    begun_cons.2 (by cases single <;> decide)
  obtain ⟨before, last, c₁, fuel', rfl, hlast, hbefore, hgoes₁, hleft, hread⟩ :=
    takeQuoted_words single origin cs.length cs c fuel text (Nat.le_refl _) hcs (.inl hbegun)
      (by simp) hc hgoes (Nat.le_of_lt hfuel)
  rw [List.length_append] at hfuel
  -- one round is left for the last word and the closing quote
  obtain ⟨fuel', rfl⟩ : ∃ k, fuel' = k + 1 := ⟨fuel' - 1, by omega⟩
  rw [List.flatMap_append, List.append_assoc] at hc
  obtain ⟨c₂, hclose, hpasses⟩ := takeQuoted_close single origin hlast hstop (hbefore.of_rest hc)
    hgoes₁ fuel' (text ++ before)
  refine ⟨c₂, ?_, ?_⟩
  · rw [hread, hclose, List.append_assoc]
  · rw [List.flatMap_append, List.append_assoc]
    exact hbefore.trans hpasses

end

/-! ### Single quotes over several lines -/

section

variable (indent : Nat)

theorem singleBody_line {w : List Char} (hw : ∀ x ∈ w, isBreak x = false) (r : List Char) :
    singleBody indent false (w ++ r)
      = w.flatMap (quotedChar true) ++ singleBody indent false r := by
  induction w with
  | nil => rfl
  | cons x w ih =>
    have hx := hw x List.mem_cons_self
    rw [List.cons_append, singleBody, hx, ih fun y hy => hw y (List.mem_cons_of_mem x hy),
      List.flatMap_cons, List.append_assoc]
    simp only [quotedChar, Bool.false_eq_true, if_false, if_true, List.nil_append,
      List.append_assoc]

theorem length_le_singleBody (afterBreak : Bool) (cs : List Char) :
    cs.length ≤ (singleBody indent afterBreak cs).length := by
  induction cs generalizing afterBreak with
  | nil => exact Nat.le_refl 0
  | cons x cs ih =>
    have hthen := ih true
    have helse := ih false
    have hquote : 0 < (if x == '\'' then [x, x] else [x]).length := by split <;> simp
    rw [singleBody]
    split
    · rw [List.length_cons, List.length_cons]
      omega
    · rw [List.length_append, List.length_append, List.length_cons]
      omega

theorem singleBody_breaks {bs : List Char} (hbs : ∀ x ∈ bs, isBreak x = true) (r : List Char) :
    singleBody indent true (bs ++ r) = bs ++ singleBody indent true r := by
  induction bs with
  | nil => rfl
  | cons x bs ih =>
    rw [List.cons_append, singleBody, if_pos (hbs x List.mem_cons_self),
      ih fun y hy => hbs y (List.mem_cons_of_mem x hy)]
    rfl

/-- A line that is not empty is indented. -/
theorem exists_singleBody {r : List Char} (hr : ∀ x, r.head? = some x → isBreak x = false) :
    ∃ k, (r = [] ∨ k = indent) ∧
      singleBody indent true r = spaces k ++ singleBody indent false r := by
  cases r with
  | nil => exact ⟨0, .inl rfl, rfl⟩
  | cons x r =>
    refine ⟨indent, .inr rfl, ?_⟩
    rw [singleBody, singleBody, hr x rfl]
    simp only [Bool.false_eq_true, if_false, if_true, List.nil_append, List.append_assoc]

/-- A gap of breaks stays as it is, if it does not begin with a line feed. -/
theorem folded_breaks {b : Char} (hb : b ≠ '\n') (bs : List Char) :
    (Gap.breaks [b] bs).folded = b :: bs := by
  unfold Gap.folded
  split
  · rename_i heq
    exact absurd heq (by simp)
  · rename_i heq
    exact absurd (List.cons.inj (Gap.breaks.inj heq).1).1 hb
  · rename_i heq
    exact absurd (List.cons.inj (Gap.breaks.inj heq).1).1 hb
  · rename_i heq
    rw [← (Gap.breaks.inj heq).1, ← (Gap.breaks.inj heq).2]
    rfl

/-- What a text in single quotes may hold: its gaps are spaces, or breaks without spaces. -/
structure SingleQuoted (cs : List Char) : Prop where
  chars : ∀ x ∈ cs, x ≠ '\t' ∧ x ≠ '\n' ∧ isShown x = true
  spaceBreak : hasSpaceBreak cs = false
  breakSpace : hasBreakSpace cs = false

namespace SingleQuoted

variable {line bs es : List Char} {b : Char}

/-- The characters of a line make words with spaces between them. -/
theorem words (h : SingleQuoted (line ++ es)) (hline : ∀ x ∈ line, isBreak x = false) :
    ∀ x ∈ line, isWordChar true x = true ∨ x = ' ' := by
  intro x hx
  by_cases hblank : x = ' '
  · exact .inr hblank
  · have htab := (h.chars x (List.mem_append_left es hx)).1
    have hgap := isGap_eq_false_iff.2 ⟨hblank, htab, hline x hx⟩
    exact .inl (by rw [isWordChar, hgap]; rfl)

variable (h : SingleQuoted (line ++ b :: (bs ++ es)))
  (hbreaks : ∀ x ∈ b :: bs, isBreak x = true)

include h hbreaks

theorem kept : ∀ x ∈ b :: bs, isKept x = true := fun x hx =>
  isKept_of_isShown (hbreaks x hx)
    (h.chars x (List.mem_append_right line (List.mem_append_left es hx))).2.2

theorem getLast_ne : line.getLast? ≠ some ' ' := by
  intro heq
  obtain ⟨before, rfl⟩ := List.getLast?_eq_some_iff.1 heq
  have hpair := h.spaceBreak
  rw [List.append_assoc] at hpair
  have hb := hasPair_middle hpair (by decide)
  exact absurd (hbreaks b List.mem_cons_self) (by simp [hb])

theorem next (hes : ∀ x, es.head? = some x → isBreak x = false) :
    SingleQuoted es ∧ ∀ x, es.head? = some x → isGap x = false := by
  have hwhole : line ++ b :: (bs ++ es) = (line ++ b :: bs) ++ es := by simp
  have hspace := h.spaceBreak
  have hbreak := h.breakSpace
  rw [hwhole] at hspace hbreak
  have hchars : ∀ x ∈ es, x ≠ '\t' ∧ x ≠ '\n' ∧ isShown x = true := fun x hx =>
    h.chars x (by rw [hwhole]; exact List.mem_append_right _ hx)
  refine ⟨⟨hchars, hasPair_of_append hspace, hasPair_of_append hbreak⟩, fun x hx => ?_⟩
  obtain ⟨ds, rfl⟩ : ∃ ds, es = x :: ds := by
    cases es with
    | nil => exact absurd hx (by simp)
    | cons y ds => exact ⟨ds, by rw [Option.some.inj hx]⟩
  refine isGap_eq_false_iff.2 ⟨?_, (hchars x List.mem_cons_self).1, hes x rfl⟩
  -- a space would stand after the last of the breaks
  rintro rfl
  obtain ⟨before, a, ha⟩ := (List.eq_nil_or_concat (b :: bs)).resolve_left (List.cons_ne_nil b bs)
  rw [ha, List.concat_eq_append, ← List.append_assoc, List.append_assoc _ [a]] at hbreak
  exact absurd (hasPair_middle hbreak (hbreaks a (by rw [ha]; simp))) (by decide)

end SingleQuoted

theorem begun_singleBody {es : List Char} (hes : ∀ x, es.head? = some x → isGap x = false)
    (stop : List Char) : Begun (singleBody indent false es ++ '\'' :: stop) := by
  cases es with
  | nil => exact begun_cons.2 (by decide)
  | cons y es =>
    have hgap := hes y rfl
    obtain ⟨-, -, hbreak⟩ := isGap_eq_false_iff.1 hgap
    rw [singleBody, hbreak]
    simp only [Bool.false_eq_true, if_false, List.nil_append]
    split
    · exact begun_cons.2 hgap
    · exact begun_cons.2 hgap

variable (origin : Cursor)

/-- **A text in single quotes** is read as it is written, over any number of lines. -/
theorem takeQuoted_lines (hindent : 0 < indent) {stop : List Char}
    (hstop : stop.head? ≠ some '\'') (n : Nat) :
    ∀ (cs : List Char) (c : Cursor) (fuel : Nat) (text : List Char), cs.length = n →
      SingleQuoted cs → c.rest = singleBody indent false cs ++ '\'' :: stop → GoesOn c →
      cs.length < fuel →
      ∃ c', takeQuoted true origin fuel text c = .ok (text ++ cs, c') ∧ c'.rest = stop ∧
        c.line ≤ c'.line := by
  induction n using Nat.strongRecOn with
  | _ n ih =>
    intro cs c fuel text hlength hcs hc hgoes hfuel
    obtain ⟨line, r, rfl, hline, rfl | ⟨b, bs, es, rfl, hbreaks, hes⟩⟩ := exists_line cs
    · -- a single line is read to the quote at its end
      rw [singleBody_line indent hline, singleBody, List.append_nil] at hc
      have hwords := hcs.words hline
      rw [List.append_nil] at hfuel ⊢
      obtain ⟨c', hread, hpasses⟩ := takeQuoted_line true origin hwords hstop hc hgoes hfuel text
      refine ⟨c', hread, hpasses.of_rest ?_, Nat.le_of_eq hpasses.line.symm⟩
      rw [hc, List.append_assoc]
      rfl
    · -- a line up to its last word, the breaks, and the lines after them
      have hwords := hcs.words hline
      have hkept := hcs.kept hbreaks
      have hlast := hcs.getLast_ne hbreaks
      have hfeed : b ≠ '\n' := (hcs.chars b (by simp)).2.1
      obtain ⟨hnext, hhead⟩ := hcs.next hbreaks hes
      -- what follows the breaks is indented, unless it is the closing quote
      obtain ⟨k, hk, hindented⟩ := exists_singleBody indent hes
      have hrest : c.rest = line.flatMap (quotedChar true) ++
          b :: (bs ++ (spaces k ++ (singleBody indent false es ++ '\'' :: stop))) := by
        rw [hc, singleBody_line indent hline, singleBody, if_pos (hbreaks b List.mem_cons_self),
          singleBody_breaks indent fun x hx => hbreaks x (List.mem_cons_of_mem b hx), hindented]
        simp only [List.append_assoc, List.cons_append]
      rw [List.length_append, List.length_cons, List.length_append] at hfuel hlength
      -- the words before the last one are read with their gaps, the last one with the breaks
      obtain ⟨before, last, c₁, fuel', rfl, hlast', hbefore, hgoes₁, hleft, hread⟩ :=
        takeQuoted_words true origin line.length line c fuel text (Nat.le_refl _) hwords
          (.inr hlast) (List.cons_ne_nil _ _) hrest hgoes (by omega)
      rw [List.length_append] at hfuel hlength
      obtain ⟨fuel', rfl⟩ : ∃ j, fuel' = j + 1 := ⟨fuel' - 1, by omega⟩
      rw [List.flatMap_append, List.append_assoc] at hrest
      have hrest₁ := hbefore.of_rest hrest
      obtain ⟨c₂, hword, hgap⟩ := takeQuoted_gap true origin hlast'
        (isGap_of_isBreak (hbreaks b List.mem_cons_self)) hrest₁ hgoes₁
      have hrest₂ := hword.of_rest hrest₁
      obtain ⟨c₃, htake, hrest₃, hcolumn, hline₃⟩ := Gap.take_break origin 0
        (hkept b List.mem_cons_self) bs (fun x hx => hkept x (List.mem_cons_of_mem b hx)) hrest₂
        (begun_singleBody indent hhead stop)
        (show bs.length + k < c₂.rest.length by
          rw [hrest₂, List.length_cons, List.length_append, List.length_append, length_spaces]
          omega)
      -- the closing quote may stand in the first column, but it is no marker
      have hgoes₃ : GoesOn c₃ := by
        rcases hk with rfl | rfl
        · have hquote : c₃.rest = '\'' :: stop := hrest₃
          exact ⟨Cursor.atIndicator_of_head hquote (by decide),
            Cursor.atIndicator_of_head hquote (by decide),
            by rw [hquote]; exact List.cons_ne_nil _ _⟩
        · exact goesOn_of_column (by omega) (by rw [hrest₃]; simp)
      -- the lines after the breaks are a shorter text, which begins where the cursor is
      obtain ⟨c', hend, hstop', hline'⟩ := ih es.length (by omega) es c₃ fuel'
        (text ++ before ++ last ++ b :: bs) rfl hnext hrest₃ hgoes₃ (by omega)
      refine ⟨c', ?_, hstop', ?_⟩
      · rw [hread, hgap _ _ htake, folded_breaks hfeed, hend]
        simp
      · rw [hword.line, hbefore.line] at hline₃
        exact Nat.le_trans (Nat.le_of_lt hline₃) hline'

end

end Blockwork.Yaml
