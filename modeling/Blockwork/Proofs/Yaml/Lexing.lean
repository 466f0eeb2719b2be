import Blockwork.Proofs.Yaml.Tokens

/-!
# From text to text

How the lexer goes over what the writer makes of a text: a key up to its colon, and a value with
the end of its line and the indentation of the next one. Between two lines it **waits** at a column
(`Lexer.Waits`): what is indented beyond the column is not closed yet, but it is clear what the
tokens will be when it is.
-/

namespace Blockwork.Yaml

/-- The token of a text. -/
def textLexeme (s : String) : Lexeme := .scalar (styleOf s = .plain) s

namespace Lexer

variable {l : Lexer} {L : List Lexeme} {I : List Nat} {k : Option Candidate} {x : Char}
  {ds : List Char}

/-! ### The beginning of a token -/

/-- A plain text begins no other token. -/
theorem fetchContent_plain (hflow : l.inFlow = false) (hplain : Plain (x :: ds))
    {stop : List Char} (hc : l.cursor.rest = x :: (ds ++ stop)) :
    l.fetchContent x = l.fetchPlain := by
  obtain ⟨hlist, hblank, -⟩ := hplain.not_indicator
  -- three marks begin a plain text only if no blank follows
  have halone : (x == '-' || x == '?' || x == ':') = true → l.cursor.endsAt 1 isGap = false := by
    intro hx
    have hbegins : beginsBlank ds = false := by
      refine (Bool.and_eq_false_iff.1 hblank).resolve_left ?_
      rw [Bool.not_eq_false]
      simpa only [Bool.or_eq_true, or_comm, or_left_comm, or_assoc] using hx
    cases ds with
    | nil => exact absurd hbegins (by decide)
    | cons y ds =>
      have hbreak := (hplain.shown y (by simp)).2.2
      rw [Cursor.endsAt_one hc, isGap, hbreak, Bool.or_false]
      exact hbegins
  -- all other marks never begin one
  have hnot : ∀ y, (['#', ',', '[', ']', '{', '}', '&', '*', '!', '|', '>', '\'', '"', '%', '@',
      '\x60'].contains y) = true → (x == y) = false := by
    intro y hy
    rw [beq_eq_false_iff_ne]
    rintro rfl
    rw [hlist] at hy
    exact absurd hy (by decide)
  have hindicator : (isIndicator x || isBlank x) = false := by
    have hshown := hplain.shown x List.mem_cons_self
    have hfirst := hplain.first x rfl
    unfold isIndicator isBlank
    unfold isSpaceOrBreak at hfirst
    simp only [List.contains_cons, List.contains_nil, Bool.or_false, Bool.or_eq_false_iff]
      at hlist hfirst ⊢
    simp [hlist, hfirst, hshown.1]
  have hdash : (x == '-' && l.cursor.endsAt 1 isGap) = false := by
    cases hx : x == '-' with
    | false => rfl
    | true => rw [halone (by simp [hx])]; rfl
  have hquestion : (x == '?' && l.cursor.endsAt 1 isGap) = false := by
    cases hx : x == '?' with
    | false => rfl
    | true => rw [halone (by simp [hx])]; rfl
  have hcolon : (x == ':' && l.cursor.endsAt 1 isGap) = false := by
    cases hx : x == ':' with
    | false => rfl
    | true => rw [halone (by simp [hx])]; rfl
  -- so each test of the lexer fails, up to the last one
  unfold fetchContent
  simp only [hflow, hdash, hquestion, hcolon, hindicator, hnot '[' (by decide),
    hnot '{' (by decide), hnot ']' (by decide), hnot '}' (by decide), hnot ',' (by decide), hnot '*' (by decide),
    hnot '&' (by decide), hnot '!' (by decide), hnot '|' (by decide), hnot '>' (by decide),
    hnot '\'' (by decide), hnot '"' (by decide), Bool.false_or, Bool.false_and, Bool.false_eq_true,
    if_false]

theorem fetchContent_quoted (single : Bool) :
    l.fetchContent (quoteMark single) = l.fetchQuoted single := by
  cases single <;> rfl

theorem fetchContent_literal (hflow : l.inFlow = false) :
    l.fetchContent '|' = l.fetchBlock true := by
  unfold fetchContent
  rw [hflow]
  rfl

theorem fetchContent_dash (hc : l.cursor.rest = '-' :: ' ' :: ds) :
    l.fetchContent '-' = l.fetchBlockEntry := by
  have halone : l.cursor.endsAt 1 isGap = true := Cursor.endsAt_one hc isGap
  unfold fetchContent
  simp [halone]

theorem fetchContent_question (hc : l.cursor.rest = '?' :: ' ' :: ds) :
    l.fetchContent '?' = l.fetchKey := by
  have halone : l.cursor.endsAt 1 isGap = true := Cursor.endsAt_one hc isGap
  unfold fetchContent
  simp [halone]

theorem fetchContent_colon (hx : isGap x = true) (hc : l.cursor.rest = ':' :: x :: ds) :
    l.fetchContent ':' = l.fetchValue := by
  have halone : l.cursor.endsAt 1 isGap = true := (Cursor.endsAt_one hc isGap).trans hx
  unfold fetchContent
  simp [halone]

/-! ### Keys -/

/-- A text on one line between quotes, up to its closing quote. -/
theorem takeQuoted_written (single : Bool) {origin : Cursor} {s : String}
    (hwords : ∀ x ∈ s.toList, isWordChar single x = true ∨ x = ' ') {stop : List Char}
    (hstop : stop.head? ≠ some '\'')
    (hc : origin.rest = quoteMark single ::
      (s.toList.flatMap (quotedChar single) ++ quoteMark single :: stop)) :
    ∃ c, takeQuoted single origin (origin.advance.rest.length + 1) [] origin.advance
        = .ok (s.toList, c) ∧
      origin.Passes
        (quoteMark single :: (s.toList.flatMap (quotedChar single) ++ [quoteMark single])) c := by
  have hquote := Cursor.passes_advance hc
  have hbody : origin.advance.rest
      = s.toList.flatMap (quotedChar single) ++ quoteMark single :: stop := hquote.of_rest hc
  have hgoes : GoesOn origin.advance :=
    goesOn_of_column (by rw [hquote.column]; exact Nat.succ_pos _) (by rw [hbody]; simp)
  -- every character takes one place at least
  have hfuel : s.toList.length < origin.advance.rest.length + 1 := by
    have hlength := length_le_flatMap single hwords
    rw [hbody, List.length_append]
    omega
  obtain ⟨c, hread, hpasses⟩ := takeQuoted_line single origin hwords hstop hbody hgoes hfuel []
  exact ⟨c, hread, hquote.trans hpasses⟩

section

variable (h : Holds l L I k) (hk : Spare k) {s : String} {indent : Nat}
  (hx : isGap x = true) (hc : l.cursor.rest = writeText indent s ++ ':' :: x :: ds)

include h hk

theorem fetchContent_plainKey (hstyle : styleOf s = .plain) (hx : isGap x = true)
    (hc : l.cursor.rest = writeText indent s ++ ':' :: x :: ds)
    (hI : ∀ i, I.head? = some i → i ≤ l.cursor.column)
    (hstart : Plainly l.cursor.column l.cursor.rest) :
    ∃ l', (∃ y r, l.cursor.rest = y :: r ∧ l.fetchContent y = .ok l') ∧
      Holds l' (L ++ [textLexeme s]) I (saved l L I k) ∧
      l.cursor.Passes (writeText indent s) l'.cursor := by
  obtain ⟨hplain, -, hne⟩ := plain_of_style hstyle
  have hwritten : writeText indent s = s.toList := by rw [writeText, hstyle]
  obtain ⟨y, cs, hcs⟩ := List.exists_cons_of_ne_nil hne
  rw [hwritten] at hc ⊢
  have hrest : l.cursor.rest = y :: (cs ++ ':' :: x :: ds) := by rw [hc, hcs]; rfl
  -- a comment mark does not begin a plain text
  have hhash : l.cursor.isAt '#' = false := by
    rw [Cursor.isAt_cons hrest, beq_eq_false_iff_ne]
    rintro rfl
    rw [hcs] at hplain
    exact absurd hplain.not_indicator.1 (by decide)
  obtain ⟨hdash, hdot⟩ := hstart.not_indicator
  have hindent : I.head?.elim 0 (· + 1) ≤ l.cursor.column + 1 := by
    cases hhead : I.head? with
    | none => exact Nat.zero_le _
    | some i => exact Nat.succ_le_succ (hI i hhead)
  -- the scalar ends before the colon, and then it is a token
  obtain ⟨c', hread, hpasses⟩ := takePlain_key l.cursor _ hplain.toUnmarked hne hplain.head_ne
    ⟨hdash, hdot, hhash⟩ hindent hx hc
  obtain ⟨l', hfetch, hholds, hcursor, -⟩ := h.fetchPlain hk rfl hread
  rw [hcs] at hplain
  refine ⟨l', ⟨y, _, hrest, ?_⟩, ?_, ?_⟩
  · rw [fetchContent_plain h.inFlow hplain hrest, hfetch]
  · rwa [textLexeme, hstyle, ← String.ofList_toList (s := s)]
  · rwa [hcursor]

theorem fetchContent_quotedKey (hstyle : styleOf s ≠ .plain)
    (hline : isMultiline s.toList = false)
    (hc : l.cursor.rest = writeText indent s ++ ':' :: x :: ds) :
    ∃ l', (∃ y r, l.cursor.rest = y :: r ∧ l.fetchContent y = .ok l') ∧
      Holds l' (L ++ [textLexeme s]) I (saved l L I k) ∧
      l.cursor.Passes (writeText indent s) l'.cursor := by
  obtain ⟨single, -, hwritten, hwords⟩ := writeText_quoted hline hstyle indent
  have hrest : l.cursor.rest = quoteMark single ::
      (s.toList.flatMap (quotedChar single) ++ quoteMark single :: ':' :: x :: ds) := by
    rw [hc, hwritten]
    simp
  have hstop : (':' :: x :: ds).head? ≠ some '\'' := by simp
  obtain ⟨c', hread, hpasses⟩ := takeQuoted_written single hwords hstop hrest
  obtain ⟨l', hfetch, hholds, hcursor, -⟩ := h.fetchQuoted hk hread
  have hplain : decide (styleOf s = .plain) = false := decide_eq_false hstyle
  rw [String.ofList_toList] at hholds
  refine ⟨l', ⟨_, _, hrest, by rw [fetchContent_quoted, hfetch]⟩, ?_, ?_⟩
  · rwa [textLexeme, hplain]
  · rwa [hcursor, hwritten]

/-- **A key** is read up to its colon. -/
theorem Holds.fetch_key (hline : isMultiline s.toList = false) (hx : isGap x = true)
    (hc : l.cursor.rest = writeText indent s ++ ':' :: x :: ds)
    (hI : ∀ i, I.head? = some i → i ≤ l.cursor.column)
    (hstart : Plainly l.cursor.column l.cursor.rest) :
    ∃ l', Fetches l l' ∧ Holds l' (L ++ [textLexeme s]) I (saved l L I k) ∧
      l.cursor.Passes (writeText indent s) l'.cursor := by
  obtain ⟨l', hread, hholds, hpasses⟩ :
      ∃ l', (∃ y r, l.cursor.rest = y :: r ∧ l.fetchContent y = .ok l') ∧
        Holds l' (L ++ [textLexeme s]) I (saved l L I k) ∧
        l.cursor.Passes (writeText indent s) l'.cursor := by
    by_cases hstyle : styleOf s = .plain
    · exact fetchContent_plainKey h hk hstyle hx hc hI hstart
    · exact fetchContent_quotedKey h hk hstyle hline hc
  obtain ⟨y, r, hwritten, -⟩ := exists_writeText indent s
  refine ⟨l', ⟨hread, ?_, ?_, hholds.isDone (by simp [textLexeme])⟩, hholds, hpasses⟩
  · rw [hpasses.of_rest hc]
    exact noComment_cons (by decide) (by decide) _
  · rw [hpasses.length_rest, hwritten, List.length_cons]
    omega

end

/-! ### Values -/

/-- Between two lines: the lexer goes on at a column with some text. What is indented beyond the
column will be closed; the tokens and the open collections are those after that. -/
def Waits (l : Lexer) (column : Nat) (cs : List Char) (L : List Lexeme) (I : List Nat) : Prop :=
  ∃ L₀ K k c, Holds l L₀ (K ++ I) k ∧ L = L₀ ++ List.replicate K.length .blockEnd ∧
    (∀ i ∈ K, column < i) ∧ Leads l true c ∧ c.rest = cs ∧ c.column = column ∧ Stale k c

theorem waits_of_leads {c : Cursor} (h : Holds l L I k) (hleads : Leads l true c)
    (hk : Stale k c) : Waits l c.column c.rest L I :=
  ⟨L, [], k, c, h, (List.append_nil L).symm, nofun, hleads, rfl, rfl, hk⟩

/-- What is saved at a value is given up on the next line. -/
theorem stale_saved {c : Cursor} {i : Nat} (hcolumn : i < l.cursor.column)
    (hline : l.cursor.line < c.line) : Stale (saved l L (i :: I) none) c := by
  intro d hd
  unfold saved at hd
  split at hd
  · obtain rfl := Option.some.inj hd
    refine ⟨?_, hline⟩
    simp [Nat.ne_of_lt hcolumn]
  · simp at hd

section

variable {i j : Nat} {s : String} (h : Holds l L (i :: I) none) (hcolumn : i < l.cursor.column)
  (hj : j ≤ i) (hds : Starts ds)

include h hds

include hcolumn in
/-- A value in quotes, and the line feed after it. -/
theorem fetch_quotedValue (hstyle : styleOf s ≠ .plain) (single : Bool) {r : List Char}
    (hc : l.cursor.rest = quoteMark single :: r) {c : Cursor}
    (hread : takeQuoted single l.cursor (l.cursor.advance.rest.length + 1) [] l.cursor.advance
      = .ok (s.toList, c))
    (hrest : c.rest = '\n' :: (spaces j ++ ds)) (hshorter : c.rest.length ≤ r.length)
    (hline : l.cursor.line ≤ c.line) :
    ∃ l', Fetches l l' ∧ Waits l' j ds (L ++ [textLexeme s]) (i :: I) := by
  obtain ⟨l', hfetch, hholds, hcursor, -⟩ := h.fetchQuoted nofun hread
  -- after the closing quote the line ends, and the lexer waits on the next one
  obtain ⟨c', hleads, hrest', hcolumn', hline'⟩ := leads_feed (l := l') (m := j)
    (by rw [hcursor, hrest]) hds hholds.inFlow
  rw [hcursor] at hline'
  have htext : textLexeme s = .scalar false (String.ofList s.toList) := by
    rw [textLexeme, String.ofList_toList, decide_eq_false hstyle]
  rw [← htext] at hholds
  refine ⟨l', ⟨⟨_, _, hc, ?_⟩, ?_, ?_, hholds.isDone (by simp [textLexeme])⟩, ?_⟩
  · rw [fetchContent_quoted, hfetch]
  · rw [hcursor, hrest]
    exact noComment_cons (by decide) (by decide) _
  · rw [hcursor, hc, List.length_cons]
    omega
  · rw [← hrest', ← hcolumn']
    -- the text could be a key only on its own line
    exact waits_of_leads hholds hleads (stale_saved hcolumn (Nat.lt_of_le_of_lt hline hline'))

include hj in
theorem fetch_literalValue (hstyle : styleOf s = .literal) (hs : losesStart s = false)
    (hc : l.cursor.rest = writeLiteral (i + 2) s.toList ++
      ((if s.toList.getLast?.any isBreak then [] else ['\n']) ++ (spaces j ++ ds))) :
    ∃ l', Fetches l l' ∧ Waits l' j ds (L ++ [textLexeme s]) (i :: I) := by
  obtain ⟨-, hne, -⟩ := literal_of_style hstyle
  obtain ⟨c, hread, hend, hcolumn'⟩ := takeBlock_literal l.cursor (k := i)
    (show j < i + 2 by omega) hne (kept_of_literal hstyle) (head_of_literal hstyle hs) hds.begun hc
  obtain ⟨l', hfetch, hholds, hcursor, hallowed⟩ := h.fetchBlock nofun hread
  -- the block ends at the next line, where the lexer waits at once
  obtain ⟨c', hleads, hpasses⟩ := leads_spaces (l := l') (m := 0) (by rw [hcursor, hend]; rfl) hds
  rw [hallowed] at hleads
  rw [hcursor] at hpasses
  have hrest' : c'.rest = ds := hpasses.of_rest (hend.trans rfl)
  have hcolumn'' : c'.column = j := hpasses.column.trans hcolumn'
  have htext : textLexeme s = .scalar false (String.ofList s.toList) := by
    rw [textLexeme, hstyle, String.ofList_toList]
    rfl
  rw [← htext] at hholds
  refine ⟨l', ⟨⟨'|', _, hc, ?_⟩, ?_, ?_, hholds.isDone (by simp [textLexeme])⟩, ?_⟩
  · rw [fetchContent_literal h.inFlow, hfetch]
  · rw [hcursor, hend]
    exact noComment_of_starts (m := 0) hds
  · rw [hcursor, hend, hc, writeLiteral]
    simp only [List.length_append, List.length_cons]
    omega
  · rw [← hrest', ← hcolumn'']
    exact waits_of_leads hholds hleads (stale_none c')

include hcolumn hj

theorem fetch_plainValue (hstyle : styleOf s = .plain)
    (hc : l.cursor.rest = s.toList ++ '\n' :: (spaces j ++ ds)) :
    ∃ l', Fetches l l' ∧ Waits l' j ds (L ++ [textLexeme s]) (i :: I) := by
  obtain ⟨hplain, -, hne⟩ := plain_of_style hstyle
  obtain ⟨y, cs, hcs⟩ := List.exists_cons_of_ne_nil hne
  have hrest : l.cursor.rest = y :: (cs ++ '\n' :: (spaces j ++ ds)) := by rw [hc, hcs]; rfl
  -- a comment mark does not begin a plain text
  have hhash : l.cursor.isAt '#' = false := by
    rw [Cursor.isAt_cons hrest, beq_eq_false_iff_ne]
    rintro rfl
    rw [hcs] at hplain
    exact absurd hplain.not_indicator.1 (by decide)
  have hpos : 0 < l.cursor.column := Nat.zero_lt_of_lt hcolumn
  obtain ⟨c, hread, hend, hcolumn', hline⟩ := takePlain_line l.cursor (i + 1) hplain.toUnmarked hne
    hplain.head_ne
    ⟨Cursor.atIndicator_of_column hpos _, Cursor.atIndicator_of_column hpos _, hhash⟩
    (Nat.le_succ_of_le hcolumn) (Nat.lt_succ_of_le hj) hds.begun hc
  obtain ⟨l', hfetch, hholds, hcursor, hallowed⟩ := h.fetchPlain nofun rfl hread
  -- the scalar ends at the next line, where the lexer waits at once
  obtain ⟨c', hleads, hpasses⟩ := leads_spaces (l := l') (m := 0) (by rw [hcursor, hend]; rfl) hds
  rw [hallowed] at hleads
  rw [hcursor] at hpasses
  have hrest' : c'.rest = ds := hpasses.of_rest (hend.trans rfl)
  have hcolumn'' : c'.column = j := hpasses.column.trans hcolumn'
  have htext : textLexeme s = .scalar true (String.ofList s.toList) := by
    rw [textLexeme, hstyle, String.ofList_toList]
    rfl
  rw [← htext] at hholds
  rw [hcs] at hplain
  refine ⟨l', ⟨⟨y, _, hrest, ?_⟩, ?_, ?_, hholds.isDone (by simp [textLexeme])⟩, ?_⟩
  · rw [fetchContent_plain h.inFlow hplain hrest, hfetch]
  · rw [hcursor, hend]
    exact noComment_of_starts (m := 0) hds
  · rw [hcursor, hend, hrest, List.length_cons, List.length_append, List.length_cons,
      List.length_append]
    omega
  · rw [← hrest', ← hcolumn'']
    exact waits_of_leads hholds hleads (stale_saved hcolumn (hpasses.line ▸ hline))

/-- **A value** is read to the end of its line, and the lexer waits on the next one. -/
theorem Holds.fetch_value (hs : losesStart s = false)
    (hc : l.cursor.rest = writeLine (i + 2) s ++ (spaces j ++ ds)) :
    ∃ l', Fetches l l' ∧ Waits l' j ds (L ++ [textLexeme s]) (i :: I) := by
  unfold writeLine writeText at hc
  cases hstyle : styleOf s with
  | plain =>
    refine fetch_plainValue h hcolumn hj hds hstyle ?_
    rw [hc, hstyle]
    simp
  | single =>
    rw [hstyle] at hc
    -- between single quotes the text may go over several lines
    have hrest : l.cursor.rest = quoteMark true ::
        (singleBody (i + 2) false s.toList ++ '\'' :: '\n' :: (spaces j ++ ds)) := by
      rw [hc]
      simp [writeSingle, quoteMark]
    have hquote := Cursor.passes_advance hrest
    have hbody : l.cursor.advance.rest
        = singleBody (i + 2) false s.toList ++ '\'' :: '\n' :: (spaces j ++ ds) :=
      hquote.of_rest hrest
    have hgoes : GoesOn l.cursor.advance :=
      goesOn_of_column (by rw [hquote.column]; exact Nat.succ_pos _) (by rw [hbody]; simp)
    -- every character takes one place at least
    have hfuel : s.toList.length < l.cursor.advance.rest.length + 1 := by
      have hlength := length_le_singleBody (i + 2) false s.toList
      rw [hbody, List.length_append]
      omega
    obtain ⟨c, hread, hend, hline⟩ := takeQuoted_lines (i + 2) l.cursor (Nat.succ_pos _)
      (show ('\n' :: (spaces j ++ ds)).head? ≠ some '\'' by simp) s.toList.length s.toList
      l.cursor.advance _ [] rfl (single_of_style hstyle) hbody hgoes hfuel
    refine fetch_quotedValue h hcolumn hds (by simp [hstyle]) true hrest hread hend ?_ ?_
    · rw [hend, List.length_append]
      simp only [List.length_cons]
      omega
    · rwa [hquote.line] at hline
  | double =>
    rw [hstyle] at hc
    have hrest : l.cursor.rest = quoteMark false ::
        (s.toList.flatMap (quotedChar false) ++ quoteMark false :: '\n' :: (spaces j ++ ds)) := by
      rw [hc]
      change '"' :: s.toList.flatMap escapeChar ++ ['"'] ++ ['\n'] ++ (spaces j ++ ds)
        = '"' :: (s.toList.flatMap escapeChar ++ '"' :: '\n' :: (spaces j ++ ds))
      simp
    have hstop : ('\n' :: (spaces j ++ ds)).head? ≠ some '\'' := by simp
    -- in double quotes there are no line breaks of their own, since they are escaped
    obtain ⟨c, hread, hpasses⟩ := takeQuoted_written false (fun x _ => isWordChar_double x) hstop
      hrest
    have hend : c.rest = '\n' :: (spaces j ++ ds) := hpasses.of_rest (by rw [hrest]; simp)
    refine fetch_quotedValue h hcolumn hds (by simp [hstyle]) false hrest hread hend ?_
      (Nat.le_of_eq hpasses.line.symm)
    rw [hend, List.length_append]
    simp only [List.length_cons]
    omega
  | literal =>
    refine fetch_literalValue h hj hds hstyle hs ?_
    rw [hc, hstyle]
    simp

end

end Lexer

end Blockwork.Yaml
