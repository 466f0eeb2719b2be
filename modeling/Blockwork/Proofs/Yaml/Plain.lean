import Blockwork.Proofs.Yaml.Cursor

/-!
# Plain scalars are read as they are written

A text that is written plain has no breaks and no tabs, does not end with a space, and no colon or
number sign in it is taken for an indicator. A reader takes it word by word: a word goes up to a
space, and the spaces between two words are kept because the words after the first are far enough
to the right (`takePlain_words`). So all that is left is the last word, and what follows it decides
how the scalar ends: at the colon after a key (`takePlain_key`), or with the line, when the next one
is less indented (`takePlain_line`).
-/

namespace Blockwork.Yaml

/-! ### Texts without indicators -/

/-- What may stand in a plain scalar after a gap, or after another character. -/
structure Unmarked (afterGap : Bool) (cs : List Char) : Prop where
  inner : hasInnerIndicator afterGap cs = false
  chars : ∀ x ∈ cs, x ≠ '\t' ∧ isBreak x = false
  last : cs.getLast? ≠ some ' '

namespace Unmarked

variable {afterGap : Bool} {x : Char} {cs : List Char}

theorem tail (h : Unmarked afterGap (x :: cs)) : Unmarked (isGap x) cs where
  inner := by
    have hinner := h.inner
    rw [hasInnerIndicator, Bool.or_eq_false_iff] at hinner
    exact hinner.2
  chars y hy := h.chars y (List.mem_cons_of_mem x hy)
  last := by
    cases cs with
    | nil => simp
    | cons y cs => simpa [List.getLast?_cons_cons] using h.last

/-- A colon stands before a character that is no gap. -/
theorem colon (h : Unmarked afterGap (':' :: cs)) : ∃ y ds, cs = y :: ds ∧ isGap y = false := by
  have hinner := h.inner
  rw [hasInnerIndicator, Bool.or_eq_false_iff, Bool.or_eq_false_iff] at hinner
  cases cs with
  | nil => exact absurd hinner.1.1 (by decide)
  | cons y ds =>
    refine ⟨y, ds, rfl, ?_⟩
    have hblank : isBlank y = false := by simpa [beginsBlank] using hinner.1.1
    rw [isGap, hblank, (h.chars y (by simp)).2]
    rfl

/-- After a gap there is no number sign. -/
theorem ne_hash (h : Unmarked true (x :: cs)) : x ≠ '#' := by
  rintro rfl
  have hinner := h.inner
  rw [hasInnerIndicator, Bool.or_eq_false_iff, Bool.or_eq_false_iff] at hinner
  exact absurd hinner.1.2 (by decide)

theorem isGap_iff (h : Unmarked afterGap (x :: cs)) : isGap x = true ↔ x = ' ' := by
  obtain ⟨htab, hbreak⟩ := h.chars x List.mem_cons_self
  unfold isGap isBlank
  simp [htab, hbreak]

theorem drop (h : Unmarked afterGap cs) (ds : List Char) {es : List Char}
    (hcs : cs = ds ++ ' ' :: es) :
    Unmarked true es := by
  induction ds generalizing afterGap cs with
  | nil =>
    subst hcs
    exact h.tail
  | cons y ds ih =>
    subst hcs
    exact ih h.tail rfl

end Unmarked

/-! ### Words -/

/-- A plain scalar ends before these characters. -/
def StopsPlain (stop : List Char) : Prop :=
  ∀ c : Cursor, c.rest = stop → endsPlain false c = true

theorem stopsPlain_of_isGap {x : Char} (h : isGap x = true) (r : List Char) :
    StopsPlain (x :: r) := by
  intro c hc
  unfold endsPlain
  rw [Cursor.peek?_cons hc]
  simp [h]

theorem stopsPlain_colon {x : Char} (h : isGap x = true) (r : List Char) :
    StopsPlain (':' :: x :: r) := by
  intro c hc
  unfold endsPlain
  rw [Cursor.peek?_cons hc]
  simp [Cursor.endsAt_one hc, h]

/-- A word goes up to the first space. -/
theorem takeWord_eq {afterGap : Bool} {w r : List Char} (h : Unmarked afterGap (w ++ r))
    (hw : ∀ x ∈ w, x ≠ ' ') {stop : List Char} (hr : r = [] ∧ StopsPlain stop ∨ r.head? = some ' ')
    {c : Cursor} (hc : c.rest = w ++ (r ++ stop)) {fuel : Nat} (hfuel : w.length ≤ fuel) :
    ∃ c', takeWord false fuel c = (w, c') ∧ c.Passes w c' := by
  induction w generalizing afterGap c fuel with
  | nil =>
    -- after the word comes a stop or a space, and both end it
    have hend : endsPlain false c = true := by
      rcases hr with ⟨rfl, hstop⟩ | hr
      · exact hstop c hc
      · obtain ⟨r, rfl⟩ : ∃ r', r = ' ' :: r' := by
          cases r with
          | nil => exact absurd hr (by simp)
          | cons y r => exact ⟨r, by rw [Option.some.inj hr]⟩
        exact stopsPlain_of_isGap (by decide) (r ++ stop) c hc
    refine ⟨c, ?_, .refl c⟩
    cases fuel with
    | zero => rfl
    | succ fuel =>
      unfold takeWord
      rw [hend]
      cases c.peek? <;> rfl
  | cons x w ih =>
    obtain ⟨fuel, rfl⟩ : ∃ n, fuel = n + 1 := ⟨fuel - 1, by simp at hfuel; omega⟩
    rw [List.cons_append] at hc h
    have hgap : isGap x = false := by
      rw [← Bool.not_eq_true, h.isGap_iff]
      exact hw x List.mem_cons_self
    -- within it no gap comes, and no colon before one
    have hgoes : endsPlain false c = false := by
      unfold endsPlain
      rw [Cursor.peek?_cons hc]
      simp only [hgap, Bool.false_or, Bool.false_and, Bool.or_false, Bool.and_eq_false_iff,
        beq_eq_false_iff_ne]
      by_cases hcolon : x = ':'
      · subst hcolon
        obtain ⟨y, ds, hy, hgap⟩ := h.colon
        rw [← List.append_assoc, hy] at hc
        exact .inr (by rw [Cursor.endsAt_one hc, hgap])
      · exact .inl hcolon
    have hstep := Cursor.passes_advance hc
    -- a tail of unmarked text is unmarked, whatever it comes after
    obtain ⟨c', htake, hpasses⟩ := ih h.tail (fun y hy => hw y (List.mem_cons_of_mem x hy))
      (hstep.of_rest hc) (show w.length ≤ fuel by simp at hfuel; omega)
    refine ⟨c', ?_, hstep.trans hpasses⟩
    unfold takeWord
    rw [Cursor.peek?_cons hc, hgoes, htake]
    rfl

/-! ### Scalars -/

section

variable (origin : Cursor) (indent : Nat) {c : Cursor}

/-- The next word can begin here: no mark of a document and no comment does. -/
def StartsWord (c : Cursor) : Prop :=
  c.atIndicator '-' = false ∧ c.atIndicator '.' = false ∧ c.isAt '#' = false

/-- One word, and what comes after it: the end of the scalar, or a gap. -/
theorem takePlain_word {w r stop : List Char} (hne : w ≠ []) (h : Unmarked true (w ++ r))
    (hw : ∀ x ∈ w, x ≠ ' ') (hr : r = [] ∧ StopsPlain stop ∨ r.head? = some ' ')
    (hc : c.rest = w ++ (r ++ stop)) (hstarts : StartsWord c) (fuel : Nat) (text : List Char)
    (g : Gap) :
    ∃ c', c.Passes w c' ∧
      (c'.peek?.any isGap = false →
        takePlain false indent origin (fuel + 1) text g c
          = .ok (text ++ g.folded ++ w, false, c')) ∧
      ∀ g' next, c'.peek?.any isGap = true →
        (Gap.blanks []).take origin indent c'.rest.length c' = .ok (g', next) →
        takePlain false indent origin (fuel + 1) text g c
          = if next.column < indent then .ok (text ++ g.folded ++ w, g'.isMultiline, next)
            else takePlain false indent origin fuel (text ++ g.folded ++ w) g' next := by
  obtain ⟨hdash, hdot, hhash⟩ := hstarts
  obtain ⟨c', htake, hpasses⟩ := takeWord_eq h hw hr hc
    (show w.length ≤ c.rest.length by rw [hc, List.length_append]; omega)
  have hword : w.isEmpty = false := by simpa using hne
  -- a gap after the word is folded, unless the next line ends the scalar
  refine ⟨c', hpasses, fun hend => ?_, fun g' next hgap hnext => ?_⟩
  · rw [takePlain, hdash, hdot, hhash, htake]
    simp only [Bool.or_self, Bool.false_eq_true, if_false, hword, hend, Bool.not_false, if_true]
    rfl
  · rw [takePlain, hdash, hdot, hhash, htake]
    simp only [Bool.or_self, Bool.false_eq_true, if_false, hword, hgap, Bool.not_true, hnext,
      Bool.not_false, Bool.true_and, decide_eq_true_eq]

/-- A text begins with a word, and a gap of spaces with more text may follow. -/
theorem exists_word {cs : List Char} (hne : cs ≠ []) (hhead : cs.head? ≠ some ' ')
    (hlast : cs.getLast? ≠ some ' ') :
    ∃ w, w ≠ [] ∧ (∀ x ∈ w, x ≠ ' ') ∧ (cs = w ∨
      ∃ m es, cs = w ++ (spaces (m + 1) ++ es) ∧ es ≠ [] ∧ es.head? ≠ some ' ') := by
  obtain ⟨w, r, rfl, hw, hr⟩ := exists_span (· != ' ') cs
  have hwne : w ≠ [] := by
    rintro rfl
    cases r with
    | nil => exact hne rfl
    | cons x r => exact hhead (by simpa using hr x rfl)
  refine ⟨w, hwne, fun x hx => by simpa using hw x hx, ?_⟩
  cases r with
  | nil => exact .inl (List.append_nil w)
  | cons x r =>
    obtain rfl : x = ' ' := by simpa using hr x rfl
    obtain ⟨gap, es, rfl, hgap, hes⟩ := exists_span (· == ' ') r
    have hspaces := eq_spaces hgap
    refine .inr ⟨gap.length, es, ?_, ?_, fun h => by simpa using hes ' ' h⟩
    · rw [← List.cons_append, hspaces, length_spaces]
      rfl
    · -- the text would end with the gap
      rintro rfl
      refine hlast ?_
      rw [List.append_nil, hspaces]
      change (w ++ spaces (gap.length + 1)).getLast? = some ' '
      rw [spaces_add, ← List.append_assoc]
      exact List.getLast?_concat

/-- A plain scalar is read up to its last word. -/
theorem takePlain_words {stop : List Char} (n : Nat) :
    ∀ (cs : List Char) (c : Cursor) (fuel : Nat) (text : List Char) (g : Gap), cs.length ≤ n →
      cs ≠ [] → cs.head? ≠ some ' ' → Unmarked true cs → c.rest = cs ++ stop → StartsWord c →
      indent ≤ c.column + 1 → cs.length ≤ fuel →
      ∃ before last c' fuel' text' g', cs = before ++ last ∧ last ≠ [] ∧ (∀ x ∈ last, x ≠ ' ') ∧
        Unmarked true last ∧ c.Passes before c' ∧ StartsWord c' ∧
        text' ++ g'.folded = text ++ g.folded ++ before ∧
        takePlain false indent origin fuel text g c
          = takePlain false indent origin (fuel' + 1) text' g' c' := by
  induction n with
  | zero =>
    intro cs c fuel text g hlength hne
    exact absurd (List.length_eq_zero_iff.1 (Nat.le_zero.1 hlength)) hne
  | succ n ih =>
    intro cs c fuel text g hlength hne hhead h hc hstarts hindent hfuel
    obtain ⟨fuel, rfl⟩ : ∃ k, fuel = k + 1 :=
      ⟨fuel - 1, by have := List.length_pos_iff.2 hne; omega⟩
    -- the text is one word, or a word with a gap and more words behind it
    obtain ⟨w, hwne, hw, rfl | ⟨m, es, rfl, hesne, heshead⟩⟩ := exists_word hne hhead h.last
    · exact ⟨[], cs, c, fuel, text, g, rfl, hwne, hw, h, .refl c, hstarts,
        (List.append_nil _).symm, rfl⟩
    · -- the words after the gap are a shorter text of the same kind
      have hunmarked : Unmarked true es := by
        refine h.drop (w ++ spaces m) ?_
        rw [spaces_add, List.append_assoc, List.append_assoc]
        rfl
      obtain ⟨y, ds, rfl⟩ := List.exists_cons_of_ne_nil hesne
      have hbegun : Begun (y :: ds ++ stop) := by
        rw [List.cons_append, begun_cons, ← Bool.not_eq_true, hunmarked.isGap_iff]
        rintro rfl
        exact heshead rfl
      obtain ⟨c₁, hword, -, hgap⟩ := takePlain_word origin indent hwne h hw (.inr rfl)
        (by rw [hc, List.append_assoc]) hstarts fuel text g
      have hshorter : (y :: ds).length < (w ++ (spaces (m + 1) ++ y :: ds)).length := by
        rw [List.length_append, List.length_append, length_spaces]
        omega
      have hrest : c₁.rest = spaces (m + 1) ++ (y :: ds ++ stop) := by
        refine hword.of_rest ?_
        rw [hc, List.append_assoc, List.append_assoc]
      obtain ⟨c₂, htake, hblanks⟩ := Gap.take_blanks origin indent hrest hbegun
        (show m + 1 ≤ c₁.rest.length by rw [hrest, List.length_append, length_spaces]; omega) []
      -- the gap moves the cursor on, so it is not in the first column
      have hcolumn : c.column < c₂.column := by
        rw [hblanks.column, hword.column, length_spaces]
        omega
      have hrest₂ : c₂.rest = y :: (ds ++ stop) := hblanks.of_rest hrest
      have hstarts₂ : StartsWord c₂ := by
        refine ⟨Cursor.atIndicator_of_column (by omega) _,
          Cursor.atIndicator_of_column (by omega) _, ?_⟩
        -- a number sign after a gap would begin a comment
        rw [Cursor.isAt_cons hrest₂]
        simpa using hunmarked.ne_hash
      have hstep := hgap _ _ (by rw [Cursor.peek?_cons hrest]; rfl) htake
      -- the next word is not left of the indentation, so the scalar goes on
      rw [if_neg (by omega)] at hstep
      obtain ⟨before, last, c', fuel', text', g', hcs, hne', hlast, hlast', hpasses, hstarts',
        htext, hread⟩ := ih (y :: ds) c₂ fuel (text ++ g.folded ++ w) (.blanks (spaces (m + 1)))
          (by omega) hesne heshead hunmarked hrest₂ hstarts₂ (by omega) (by omega)
      refine ⟨w ++ spaces (m + 1) ++ before, last, c', fuel', text', g', ?_, hne', hlast, hlast',
        (hword.trans hblanks).trans hpasses, hstarts', ?_, hstep.trans hread⟩
      · rw [hcs]
        simp only [List.append_assoc]
      · rw [htext]
        simp only [Gap.folded, List.append_assoc]

variable {cs : List Char} (h : Unmarked true cs) (hne : cs ≠ []) (hhead : cs.head? ≠ some ' ')
  (hstarts : StartsWord c) (hindent : indent ≤ c.column + 1)

include h hne hhead hstarts hindent

/-- **A plain key** ends at the colon after it. -/
theorem takePlain_key {y : Char} (hy : isGap y = true) {r : List Char}
    (hc : c.rest = cs ++ ':' :: y :: r) :
    ∃ c', takePlain false indent origin (c.rest.length + 1) [] (.blanks []) c
        = .ok (cs, false, c') ∧ c.Passes cs c' := by
  obtain ⟨before, last, c₁, fuel, text, g, rfl, hlast, hchars, hunmarked, hbefore, hstarts₁, htext,
    hread⟩ := takePlain_words origin indent cs.length cs c (c.rest.length + 1) [] (.blanks [])
      (Nat.le_refl _) hne hhead h hc hstarts hindent (by rw [hc, List.length_append]; omega)
  obtain ⟨c₂, hword, hend, -⟩ := takePlain_word origin indent hlast
    (r := []) (by rwa [List.append_nil]) hchars (.inl ⟨rfl, stopsPlain_colon hy r⟩)
    (hbefore.of_rest (hc.trans (List.append_assoc ..))) hstarts₁ fuel text g
  have hpasses := hbefore.trans hword
  refine ⟨c₂, ?_, hpasses⟩
  rw [hread, hend (by rw [Cursor.peek?_cons (hpasses.of_rest hc)]; rfl), htext]
  rfl

/-- **A plain value** ends with its line, the next one being less indented. -/
theorem takePlain_line {j : Nat} (hj : j < indent) {r : List Char} (hr : Begun r)
    (hc : c.rest = cs ++ '\n' :: (spaces j ++ r)) :
    ∃ c', takePlain false indent origin (c.rest.length + 1) [] (.blanks []) c
        = .ok (cs, true, c') ∧ c'.rest = r ∧ c'.column = j ∧ c.line < c'.line := by
  have hfeed : isGap '\n' = true := by decide
  obtain ⟨before, last, c₁, fuel, text, g, rfl, hlast, hchars, hunmarked, hbefore, hstarts₁, htext,
    hread⟩ := takePlain_words origin indent cs.length cs c (c.rest.length + 1) [] (.blanks [])
      (Nat.le_refl _) hne hhead h hc hstarts hindent (by rw [hc, List.length_append]; omega)
  -- the last word, after those before it
  obtain ⟨c₂, hword, -, hgap⟩ := takePlain_word origin indent hlast
    (r := []) (by rwa [List.append_nil]) hchars (.inl ⟨rfl, stopsPlain_of_isGap hfeed _⟩)
    (hbefore.of_rest (hc.trans (List.append_assoc ..))) hstarts₁ fuel text g
  have hrest : c₂.rest = '\n' :: (spaces j ++ r) := (hbefore.trans hword).of_rest hc
  -- the line break and the indentation of the next line
  obtain ⟨c₃, htake, hrest₃, hcolumn, hline⟩ := Gap.take_break origin indent (b := '\n') (by decide)
    [] nofun hrest hr (show _ < c₂.rest.length by
      rw [hrest, List.length_cons, List.length_append, length_spaces, List.length_nil]; omega)
  rw [(hbefore.trans hword).line] at hline
  refine ⟨c₃, ?_, hrest₃, hcolumn, hline⟩
  rw [hread, hgap _ c₃ (by rw [Cursor.peek?_cons hrest]; exact hfeed) htake,
    if_pos (by omega), htext]
  rfl

end

/-! ### Texts that are written plain -/

/-- What a text is that a plain scalar can hold. -/
structure Plain (cs : List Char) : Prop where
  first : ∀ x, cs.head? = some x → isSpaceOrBreak x = false
  last : ∀ x, cs.getLast? = some x → isSpaceOrBreak x = false
  shown : ∀ x ∈ cs, x ≠ '\t' ∧ isShown x = true ∧ isBreak x = false
  unmarked : hasIndicator cs = false

theorem plain_of_fitsPlain {cs : List Char} (h : fitsPlain cs = true) : Plain cs := by
  obtain ⟨⟨⟨⟨⟨hfirst, hlast⟩, htab⟩, hhidden⟩, hmultiline⟩, hindicator⟩ :
      ((((cs.head?.any isSpaceOrBreak = false ∧ cs.getLast?.any isSpaceOrBreak = false) ∧
        cs.contains '\t' = false) ∧ hasHidden cs = false) ∧ isMultiline cs = false) ∧
        hasIndicator cs = false := by
    unfold fitsPlain at h
    simpa only [Bool.not_eq_true', Bool.or_eq_false_iff] using h
  refine ⟨fun x hx => ?_, fun x hx => ?_, fun x hx => ?_, hindicator⟩
  · rwa [hx] at hfirst
  · rwa [hx] at hlast
  · have hne : x ≠ '\t' := by
      rintro rfl
      rw [List.contains_eq_mem, decide_eq_false_iff_not] at htab
      exact htab hx
    have hshown : (x != '\t' && !isShown x) = false :=
      List.any_eq_false.1 hhidden x hx |> Bool.eq_false_iff.2
    refine ⟨hne, ?_, Bool.eq_false_iff.2 (List.any_eq_false.1 hmultiline x hx)⟩
    simpa [hne] using hshown

namespace Plain

variable {cs : List Char}

theorem head_ne (h : Plain cs) : cs.head? ≠ some ' ' := fun hx =>
  absurd (h.first ' ' hx) (by decide)

/-- The characters that begin no plain scalar. -/
theorem not_indicator {x : Char} (h : Plain (x :: cs)) :
    ['#', ',', '[', ']', '{', '}', '&', '*', '!', '|', '>', '\'', '"', '%', '@',
      '\x60'].contains x = false ∧
    ((x == '?' || x == ':' || x == '-') && beginsBlank cs) = false ∧
    hasInnerIndicator (isGap x) cs = false := by
  obtain ⟨-, hindicator⟩ := Bool.or_eq_false_iff.1 h.unmarked
  obtain ⟨hfirst, hinner⟩ := Bool.or_eq_false_iff.1 hindicator
  obtain ⟨hlist, hblank⟩ := Bool.or_eq_false_iff.1 hfirst
  exact ⟨hlist, hblank, hinner⟩

theorem toUnmarked (h : Plain cs) : Unmarked true cs where
  inner := by
    cases cs with
    | nil => rfl
    | cons x cs =>
      obtain ⟨hlist, hblank, hinner⟩ := h.not_indicator
      rw [hasInnerIndicator, hinner]
      have hhash : x ≠ '#' := by
        rintro rfl
        exact absurd hlist (by decide)
      by_cases hcolon : x = ':'
      · subst hcolon
        have hbegins : beginsBlank cs = false := by simpa using hblank
        rw [hbegins]
        rfl
      · simp [hcolon, hhash]
  chars x hx := ⟨(h.shown x hx).1, (h.shown x hx).2.2⟩
  last hx := absurd (h.last ' ' hx) (by decide)

end Plain

end Blockwork.Yaml
