import Blockwork.Markup.Yaml.Lexer
import Blockwork.Proofs.Yaml.Texts

/-!
# One token

What the lexer does with a token that the writer makes, outside of flow collections. A state is
known by its lexemes so far, the columns of the open collections and the candidate for a key
(`Holds`); where it stands in the text is said apart.

A step first goes to the next token (`Leads`), closes what is indented beyond it and then reads it
(`next_eq`). The readers of the single tokens follow.
-/

namespace Blockwork.Yaml

namespace Lexer

/-- What the tokens are. -/
def lexemes (l : Lexer) : List Lexeme := l.tokens.reverse.map (·.lexeme)

/-- The state outside of flow collections. -/
structure Holds (l : Lexer) (L : List Lexeme) (I : List Nat) (k : Option Candidate) : Prop where
  lexemes : l.lexemes = L
  count : l.count = L.length
  indents : l.indents = I
  candidates : l.candidates = [k]

/-! ### Open collections and candidates -/

/-- A collection is indented beyond a column. -/
def isBeyond : Option Nat → Nat → Bool
  | some n, i => n < i
  | none, _ => true

/-- A collection at a column: a new one, with its mark, or the one that is open there. -/
inductive Opened (column : Nat) (x : Lexeme) : List Nat → List Lexeme → List Nat → Prop
  | new {I : List Nat} (hcolumn : ∀ i, I.head? = some i → i < column)
      (hdepth : I.length < maxDepth) : Opened column x I [x] (column :: I)
  | same {I : List Nat} : Opened column x (column :: I) [] (column :: I)

/-- The candidate may be given up. -/
def Spare (k : Option Candidate) : Prop := ∀ c, k = some c → c.required = false

/-- The candidate is too far back. -/
def Stale (k : Option Candidate) (c : Cursor) : Prop :=
  ∀ d, k = some d → d.required = false ∧ d.place.line < c.line

theorem Stale.spare {k : Option Candidate} {c : Cursor} (h : Stale k c) : Spare k := fun d hd =>
  (h d hd).1

theorem stale_none (c : Cursor) : Stale none c := nofun

/-- The candidate after something that may be a key. -/
def saved (l : Lexer) (L : List Lexeme) (I : List Nat) (k : Option Candidate) :
    Option Candidate :=
  if l.keyAllowed then some ⟨I.head? == some l.cursor.column, L.length, l.cursor⟩ else k

namespace Holds

variable {l : Lexer} {L : List Lexeme} {I : List Nat} {k : Option Candidate}

theorem moved (h : Holds l L I k) (c : Cursor) (allowed : Bool) :
    Holds { l with cursor := c, keyAllowed := allowed } L I k :=
  ⟨h.lexemes, h.count, h.indents, h.candidates⟩

theorem inFlow (h : Holds l L I k) : l.inFlow = false := by
  rw [Lexer.inFlow, h.candidates]
  rfl

theorem candidate? (h : Holds l L I k) : l.candidate? = k := by
  rw [Lexer.candidate?, h.candidates]
  rfl

theorem withCandidate (h : Holds l L I k) (k' : Option Candidate) :
    Holds (l.withCandidate k') L I k' := by
  refine ⟨h.lexemes, h.count, h.indents, ?_⟩
  rw [Lexer.withCandidate, h.candidates]
  rfl

theorem emit (h : Holds l L I k) (x : Lexeme) (place : Cursor) :
    Holds (l.emit x place) (L ++ [x]) I k where
  lexemes := by
    have hold := h.lexemes
    unfold Lexer.lexemes at hold ⊢
    rw [Lexer.emit, List.reverse_cons, List.map_append, hold]
    rfl
  count := by rw [Lexer.emit, h.count, List.length_append, List.length_singleton]
  indents := h.indents
  candidates := h.candidates

/-- A token that is put before the last ones. -/
theorem insert {A B : List Lexeme} (h : Holds l (A ++ B) I k) (x : Lexeme) (place : Cursor) :
    Holds (l.insert A.length x place) (A ++ x :: B) I k where
  lexemes := by
    have hold := h.lexemes
    have hlater : l.count - A.length = B.length := by
      rw [h.count, List.length_append, Nat.add_sub_cancel_left]
    unfold Lexer.lexemes at hold ⊢
    rw [Lexer.insert, hlater]
    dsimp only
    -- tokens and indentations are kept in reverse
    have hmap : l.tokens.map (·.lexeme) = B.reverse ++ A.reverse := by
      rw [← List.reverse_append, ← hold, List.map_reverse, List.reverse_reverse]
    have hlength : B.reverse.length = B.length := List.length_reverse
    rw [List.map_reverse, List.map_append, List.map_cons, List.map_take, List.map_drop, hmap,
      ← hlength, List.take_left, List.drop_left, List.reverse_append, List.reverse_cons,
      List.reverse_reverse, List.reverse_reverse, List.append_assoc]
    rfl
  count := by
    rw [Lexer.insert, h.count, List.length_append, List.length_append, List.length_cons]
    rfl
  indents := h.indents
  candidates := h.candidates

/-! ### Indentation -/

/-- Marks of the end. -/
theorem closed (h : Holds l L I k) (K : List Nat) (place : Cursor) :
    let l' := K.foldl (fun l _ => l.emit .blockEnd place) l
    Holds l' (L ++ List.replicate K.length .blockEnd) I k ∧ l'.cursor = l.cursor ∧
      l'.keyAllowed = l.keyAllowed := by
  induction K generalizing l L with
  | nil => exact ⟨by rwa [List.length_nil, List.replicate_zero, List.append_nil], rfl, rfl⟩
  | cons i K ih =>
    obtain ⟨hholds, hcursor, hallowed⟩ := ih (h.emit .blockEnd place)
    refine ⟨?_, hcursor, hallowed⟩
    rwa [List.append_assoc, List.singleton_append, ← List.replicate_succ] at hholds

/-- The collections that are indented beyond a column are closed. -/
theorem unroll {K : List Nat} (h : Holds l L (K ++ I) k) (column : Option Nat)
    (hK : ∀ i ∈ K, isBeyond column i = true)
    (hI : ∀ i, I.head? = some i → isBeyond column i = false) (place : Cursor) :
    Holds (l.unroll column place) (L ++ List.replicate K.length .blockEnd) I k ∧
      (l.unroll column place).cursor = l.cursor ∧
      (l.unroll column place).keyAllowed = l.keyAllowed := by
  -- what is closed is the part of the stack beyond the column
  have hclosed : l.indents.takeWhile (isBeyond column) = K := by
    rw [h.indents, List.takeWhile_append_of_pos hK]
    cases hhead : I with
    | nil => rw [List.takeWhile_nil, List.append_nil]
    | cons i I' =>
      have hi := hI i (by rw [hhead]; rfl)
      rw [List.takeWhile_cons_of_neg (by simp [hi]), List.append_nil]
  obtain ⟨hholds, hcursor, hallowed⟩ := h.closed K place
  have hunroll : l.unroll column place
      = { K.foldl (fun l _ => l.emit .blockEnd place) l with
          indents := (K.foldl (fun l _ => l.emit .blockEnd place) l).indents.drop K.length } := by
    rw [Lexer.unroll, h.inFlow]
    cases column with
    | none =>
      change l.indents.takeWhile (fun _ => true) = K at hclosed
      simp only [Bool.false_eq_true, if_false, hclosed]
    | some n =>
      change l.indents.takeWhile (fun i => decide (n < i)) = K at hclosed
      simp only [Bool.false_eq_true, if_false, hclosed]
  rw [hunroll]
  refine ⟨⟨hholds.lexemes, hholds.count, ?_, hholds.candidates⟩, hcursor, hallowed⟩
  dsimp only
  rw [hholds.indents, List.drop_left]

theorem roll {A B marks : List Lexeme} {I' : List Nat} {x : Lexeme} {column : Nat}
    (h : Holds l (A ++ B) I k) (ho : Opened column x I marks I') (place : Cursor) :
    ∃ l', l.roll column A.length x place = .ok l' ∧ Holds l' (A ++ marks ++ B) I' k ∧
      l'.cursor = l.cursor ∧ l'.keyAllowed = l.keyAllowed := by
  cases ho with
  | new hcolumn hdepth =>
    have hinsert := h.insert x place
    -- a deeper column opens a collection
    refine ⟨{ l.insert A.length x place with indents := column :: l.indents }, ?_, ?_, rfl, rfl⟩
    · rw [Lexer.roll, h.inFlow, h.indents, if_neg (Nat.not_le_of_lt hdepth)]
      cases hhead : I.head? with
      | none => rfl
      | some i =>
        simp only [hcolumn i hhead, decide_true, Bool.not_false, Bool.and_self, Bool.not_true,
          Bool.false_eq_true, if_false]
    · refine ⟨?_, ?_, by rw [h.indents], hinsert.candidates⟩
      · rw [List.append_assoc]
        exact hinsert.lexemes
      · rw [List.append_assoc]
        exact hinsert.count
  | same =>
    -- at the same column the collection goes on
    refine ⟨l, ?_, by rwa [List.append_nil], rfl, rfl⟩
    rw [Lexer.roll, h.inFlow, h.indents]
    simp

/-! ### Candidates -/

theorem dropCandidate (h : Holds l L I k) (hk : Spare k) :
    ∃ l', l.dropCandidate = .ok l' ∧ Holds l' L I none ∧ l'.cursor = l.cursor ∧
      l'.keyAllowed = l.keyAllowed := by
  unfold Lexer.dropCandidate
  rw [h.candidate?]
  cases k with
  | none => exact ⟨l, rfl, h, rfl, rfl⟩
  | some c =>
    refine ⟨l.withCandidate none, ?_, h.withCandidate none, rfl, rfl⟩
    dsimp only
    rw [hk c rfl]
    rfl

theorem saveCandidate (h : Holds l L I k) (hk : Spare k) :
    ∃ l', l.saveCandidate = .ok l' ∧ Holds l' L I (saved l L I k) ∧ l'.cursor = l.cursor ∧
      l'.keyAllowed = l.keyAllowed := by
  unfold Lexer.saveCandidate saved
  cases hallowed : l.keyAllowed with
  | false => exact ⟨l, rfl, h, rfl, hallowed⟩
  | true =>
    obtain ⟨l', hdrop, hholds, hcursor, hallowed'⟩ := h.dropCandidate hk
    refine ⟨_, ?_, hholds.withCandidate _, hcursor, hallowed'.trans hallowed⟩
    rw [hdrop]
    simp only [if_true, bind, Except.bind, pure, Except.pure, hholds.inFlow, hholds.indents,
      hholds.count, hcursor, Bool.not_false, Bool.true_and]

end Holds

/-! ### On the way to a token -/

/-- The next token is looked for at a cursor. -/
structure Leads (l : Lexer) (allowed : Bool) (c : Cursor) : Prop where
  step : l.toNext (l.cursor.rest.length + 1) = { l with cursor := c, keyAllowed := allowed }
  shorter : c.rest.length ≤ l.cursor.rest.length

/-- One round: the spaces at the cursor, and a line break after them. -/
theorem toNext_succ {l : Lexer} {m : Nat} {r : List Char} (hc : l.cursor.rest = spaces m ++ r)
    (hr : ∀ x, r.head? = some x → isBlank x = false ∧ x ≠ '#' ∧ x ≠ '\ufeff') (fuel : Nat) :
    ∃ c, l.cursor.Passes (spaces m) c ∧ l.toNext (fuel + 1)
      = if r.head?.any isBreak then
          toNext fuel { l with cursor := c.dropBreak, keyAllowed := l.keyAllowed || !l.inFlow }
        else { l with cursor := c } := by
  -- what follows the spaces is no mark of the encoding, no tab and no comment
  have hmark : l.cursor.isAt '\ufeff' = false := by
    rw [Cursor.isAt, Cursor.peek?, hc, beq_eq_false_iff_ne]
    cases m with
    | succ m => exact fun h => absurd (Option.some.inj h) (by decide)
    | zero => exact fun h => (hr _ h).2.2 rfl
  obtain ⟨-, hpasses⟩ := Cursor.passes_takeWhile
    (p := fun x => x == ' ' || ((l.inFlow || !l.keyAllowed) && x == '\t')) hc
    (fun x hx => by rw [eq_space_of_mem_spaces hx]; rfl)
    (fun x hx => by
      obtain ⟨hspace, htab⟩ : (x == ' ') = false ∧ (x == '\t') = false := by
        simpa only [isBlank, Bool.or_eq_false_iff] using (hr x hx).1
      rw [hspace, htab, Bool.and_false, Bool.or_self])
  have hhash : (l.cursor.dropWhile fun x =>
      x == ' ' || ((l.inFlow || !l.keyAllowed) && x == '\t')).isAt '#' = false := by
    rw [Cursor.isAt, Cursor.peek?, Cursor.dropWhile, hpasses.of_rest hc, beq_eq_false_iff_ne]
    exact fun h => (hr _ h).2.1 rfl
  refine ⟨_, hpasses, ?_⟩
  rw [toNext, hmark]
  simp only [Bool.and_false, Bool.false_eq_true, if_false, hhash]
  rw [Cursor.peek?, Cursor.dropWhile, hpasses.of_rest hc]

/-- Spaces before a token on its line. -/
theorem toNext_spaces {l : Lexer} {m : Nat} {r : List Char} (hc : l.cursor.rest = spaces m ++ r)
    (hr : Starts r) (fuel : Nat) :
    ∃ c, l.cursor.Passes (spaces m) c ∧ l.toNext (fuel + 1) = { l with cursor := c } := by
  have hgaps : ∀ x, r.head? = some x → isBlank x = false ∧ isBreak x = false := fun x hx => by
    simpa only [isGap, Bool.or_eq_false_iff] using (hr x hx).1
  obtain ⟨c, hpasses, hround⟩ := toNext_succ hc
    (fun x hx => ⟨(hgaps x hx).1, (hr x hx).2⟩) fuel
  refine ⟨c, hpasses, ?_⟩
  have hline : r.head?.any isBreak = false := by
    cases hhead : r.head? with
    | none => rfl
    | some x => exact (hgaps x hhead).2
  rw [hround, hline]
  rfl

theorem leads_spaces {l : Lexer} {m : Nat} {r : List Char} (hc : l.cursor.rest = spaces m ++ r)
    (hr : Starts r) :
    ∃ c, Leads l l.keyAllowed c ∧ l.cursor.Passes (spaces m) c := by
  obtain ⟨c, hpasses, hnext⟩ := toNext_spaces hc hr l.cursor.rest.length
  refine ⟨c, ⟨hnext, ?_⟩, hpasses⟩
  rw [hpasses.length_rest]
  omega

/-- The end of a line, and the indentation of the next one. -/
theorem leads_feed {l : Lexer} {m : Nat} {r : List Char}
    (hc : l.cursor.rest = '\n' :: (spaces m ++ r)) (hr : Starts r) (hflow : l.inFlow = false) :
    ∃ c, Leads l true c ∧ c.rest = r ∧ c.column = m ∧ l.cursor.line < c.line := by
  -- the break is one round
  obtain ⟨c₁, hstill, hround⟩ := toNext_succ (m := 0) hc
    (fun x hx => by
      obtain rfl := Option.some.inj hx
      decide) l.cursor.rest.length
  have hbreak := Cursor.takeBreak_kept (hstill.of_rest hc) (by decide)
  have hdropped : c₁.dropBreak = ⟨spaces m ++ r, c₁.index + 1, c₁.line + 1, 0, true⟩ := by
    rw [Cursor.dropBreak, hbreak]
  -- the indentation is another
  obtain ⟨c, hpasses, hnext⟩ := toNext_spaces
    (l := { l with cursor := c₁.dropBreak, keyAllowed := true }) (m := m)
    (by dsimp only; rw [hdropped]) hr (spaces m ++ r).length
  rw [hdropped] at hpasses
  have hrest : c.rest = r := hpasses.of_rest rfl
  refine ⟨c, ⟨?_, ?_⟩, hrest, ?_, ?_⟩
  · have hfeed : ('\n' :: (spaces m ++ r)).head?.any isBreak = true := rfl
    rw [hround, if_pos hfeed, hflow, Bool.not_false, Bool.or_true, hc]
    exact hnext
  · rw [hrest, hc, List.length_cons, List.length_append]
    omega
  · rw [hpasses.column, length_spaces, Nat.zero_add]
  · rw [hpasses.line, hstill.line]
    exact Nat.lt_succ_self _

/-- No comment follows on the line. -/
def NoComment (cs : List Char) : Prop :=
  ∃ m r, cs = spaces m ++ r ∧ ∀ x, r.head? = some x → isBlank x = false ∧ x ≠ '#'

theorem dropLineComment_eq {l : Lexer} (h : NoComment l.cursor.rest) : l.dropLineComment = l := by
  obtain ⟨m, r, hc, hr⟩ := h
  have hblanks : l.cursor.rest.takeWhile isBlank = spaces m :=
    (Cursor.passes_takeWhile (p := isBlank) hc
      (fun x hx => by rw [eq_space_of_mem_spaces hx]; rfl) fun x hx => (hr x hx).1).1
  have hnext : (l.cursor.peekAt? (l.cursor.rest.takeWhile isBlank).length == some '#') = false := by
    rw [hblanks, Cursor.peekAt?, hc, List.getElem?_append_right (Nat.le_refl _), Nat.sub_self,
      ← List.head?_eq_getElem?, beq_eq_false_iff_ne]
    exact fun hx => (hr _ hx).2 rfl
  rw [dropLineComment, hnext]
  simp

theorem noComment_cons {x : Char} (hblank : isBlank x = false) (hhash : x ≠ '#') (r : List Char) :
    NoComment (x :: r) :=
  ⟨0, x :: r, rfl, fun _ hy => Option.some.inj hy ▸ ⟨hblank, hhash⟩⟩

theorem noComment_of_starts {m : Nat} {r : List Char} (hr : Starts r) :
    NoComment (spaces m ++ r) := by
  refine ⟨m, r, rfl, fun x hx => ?_⟩
  obtain ⟨hgap, hhash, -⟩ := hr x hx
  obtain ⟨hblank, -⟩ := Bool.or_eq_false_iff.1 hgap
  exact ⟨hblank, hhash⟩

theorem Holds.isDone {l : Lexer} {L : List Lexeme} {I : List Nat} {k : Option Candidate}
    {x : Lexeme} (h : Holds l (L ++ [x]) I k) (hx : x ≠ .streamEnd) : l.isDone = false := by
  have hlast := h.lexemes
  unfold Lexer.lexemes at hlast
  unfold Lexer.isDone
  cases htokens : l.tokens with
  | nil => rfl
  | cons t ts =>
    rw [htokens, List.reverse_cons, List.map_append] at hlast
    have ht : t.lexeme = x := (List.cons.inj (List.append_inj' hlast rfl).2).1
    dsimp only
    rw [ht, beq_eq_false_iff_ne]
    exact hx

/-- The token at the cursor is read, and there is more to come. -/
structure Fetches (l l' : Lexer) : Prop where
  read : ∃ x r, l.cursor.rest = x :: r ∧ l.fetchContent x = .ok l'
  comment : NoComment l'.cursor.rest
  shorter : l'.cursor.rest.length < l.cursor.rest.length
  done : l'.isDone = false

/-- One step of the lexer, and there is more to come. -/
structure Step (l l' : Lexer) : Prop where
  next : l.next = .ok l'
  shorter : l'.cursor.rest.length < l.cursor.rest.length
  done : l'.isDone = false

/-- A line does not begin with a directive or with a mark of a document. -/
def Plainly (column : Nat) (cs : List Char) : Prop :=
  column = 0 → ∀ x, cs.head? = some x → x ≠ '%' ∧ x ≠ '-' ∧ x ≠ '.'

theorem plainly_of_pos {column : Nat} (h : 0 < column) (cs : List Char) : Plainly column cs :=
  fun hzero => absurd hzero (Nat.ne_of_gt h)

theorem Plainly.not_indicator {c : Cursor} (h : Plainly c.column c.rest) :
    c.atIndicator '-' = false ∧ c.atIndicator '.' = false := by
  by_cases hzero : c.column = 0
  · cases hrest : c.rest with
    | nil => exact ⟨by simp [Cursor.atIndicator, hrest], by simp [Cursor.atIndicator, hrest]⟩
    | cons x r =>
      obtain ⟨-, hdash, hdot⟩ := h hzero x (by rw [hrest]; rfl)
      exact ⟨Cursor.atIndicator_of_head hrest hdash, Cursor.atIndicator_of_head hrest hdot⟩
  · have hpos := Nat.pos_of_ne_zero hzero
    exact ⟨Cursor.atIndicator_of_column hpos _, Cursor.atIndicator_of_column hpos _⟩

/-- **One step**: the lexer goes to the next token, closes what is indented beyond it, and reads
it. -/
theorem step_of_fetches {l : Lexer} {L : List Lexeme} {K I : List Nat} {k : Option Candidate}
    {allowed : Bool} {c : Cursor} (h : Holds l L (K ++ I) k) (hleads : Leads l allowed c)
    (hK : ∀ i ∈ K, c.column < i) (hI : ∀ i, I.head? = some i → i ≤ c.column)
    (hc : Plainly c.column c.rest) :
    ∃ l', Holds l' (L ++ List.replicate K.length .blockEnd) I k ∧ l'.cursor = c ∧
      l'.keyAllowed = allowed ∧ ∀ l'', Fetches l' l'' → Step l l'' := by
  obtain ⟨hholds, hcursor, hallowed⟩ := (h.moved c allowed).unroll (some c.column)
    (fun i hi => decide_eq_true (hK i hi))
    (fun i hi => decide_eq_false (Nat.not_lt_of_le (hI i hi))) l.cursor
  refine ⟨_, hholds, hcursor, hallowed, fun l'' hfetch => ⟨?_, ?_, hfetch.done⟩⟩
  · obtain ⟨x, r, hrest, hread⟩ := hfetch.read
    rw [hcursor] at hrest
    -- nothing that stands at the beginning of a line is met
    have hpercent : (x == '%' && c.column == 0) = false := by
      rw [Bool.and_eq_false_iff, beq_eq_false_iff_ne, beq_eq_false_iff_ne]
      by_cases hzero : c.column = 0
      · exact .inl (hc hzero x (by rw [hrest]; rfl)).1
      · exact .inr hzero
    obtain ⟨hdash, hdot⟩ := hc.not_indicator
    rw [next, hleads.step]
    dsimp only
    rw [hcursor, Cursor.peek?_cons hrest]
    simp only [hpercent, Bool.false_eq_true, if_false, hdash, hdot, hread,
      dropLineComment_eq hfetch.comment, ite_self]
  · have hshorter := hfetch.shorter
    rw [hcursor] at hshorter
    exact Nat.lt_of_lt_of_le hshorter hleads.shorter

/-! ### Marks -/

namespace Holds

variable {l : Lexer} {L : List Lexeme} {I I' : List Nat} {k : Option Candidate}
  {marks : List Lexeme}

theorem fetchBlockEntry (h : Holds l L I k) (hk : Spare k) (hallowed : l.keyAllowed = true)
    (ho : Opened l.cursor.column .blockSequenceStart I marks I') :
    ∃ l', l.fetchBlockEntry = .ok l' ∧ Holds l' (L ++ marks ++ [.blockEntry]) I' none ∧
      l'.cursor = l.cursor.advance ∧ l'.keyAllowed = true := by
  obtain ⟨l₁, hroll, hholds₁, hcursor₁, -⟩ := roll (A := L) (B := []) (by rwa [List.append_nil]) ho
    l.cursor
  rw [List.append_nil] at hholds₁
  obtain ⟨l₂, hdrop, hholds₂, hcursor₂, -⟩ := hholds₁.dropCandidate hk
  refine ⟨_, ?_, (hholds₂.emit .blockEntry l₂.cursor).moved l₂.cursor.advance true, ?_, rfl⟩
  · rw [Lexer.fetchBlockEntry, h.inFlow, hallowed, h.count, hroll]
    simp only [Bool.not_false, Bool.not_true, Bool.and_false, Bool.false_eq_true, if_false, bind,
      Except.bind, hdrop]
    rfl
  · dsimp only
    rw [hcursor₂, hcursor₁]

theorem fetchKey (h : Holds l L I k) (hk : Spare k) (hallowed : l.keyAllowed = true)
    (ho : Opened l.cursor.column .blockMappingStart I marks I') :
    ∃ l', l.fetchKey = .ok l' ∧ Holds l' (L ++ marks ++ [.key]) I' none ∧
      l'.cursor = l.cursor.advance ∧ l'.keyAllowed = true := by
  obtain ⟨l₁, hroll, hholds₁, hcursor₁, -⟩ := roll (A := L) (B := []) (by rwa [List.append_nil]) ho
    l.cursor
  rw [List.append_nil] at hholds₁
  obtain ⟨l₂, hdrop, hholds₂, hcursor₂, -⟩ := hholds₁.dropCandidate hk
  refine ⟨_, ?_, (hholds₂.emit .key l₂.cursor).moved l₂.cursor.advance (!l₂.inFlow),
    ?_, ?_⟩
  · rw [Lexer.fetchKey, h.inFlow, hallowed, h.count, hroll]
    simp only [Bool.not_false, Bool.not_true, Bool.and_false, Bool.false_eq_true, if_false, bind,
      Except.bind, hdrop]
    rfl
  · dsimp only
    rw [hcursor₂, hcursor₁]
  · exact congrArg (!·) hholds₂.inFlow

/-- The colon after a candidate that is in time: its marks are put before it. -/
theorem fetchValue {A B : List Lexeme} {c : Candidate} (h : Holds l (A ++ B) I (some c))
    (hnumber : c.number = A.length)
    (htime : c.place.line = l.cursor.line ∧ l.cursor.index ≤ c.place.index + 1024)
    (ho : Opened c.place.column .blockMappingStart I marks I') :
    ∃ l', l.fetchValue = .ok l' ∧ Holds l' (A ++ marks ++ .key :: B ++ [.value]) I' none ∧
      l'.cursor = l.cursor.advance := by
  obtain ⟨l₁, hroll, hholds₁, hcursor₁, -⟩ := (h.insert .key c.place).roll ho c.place
  have hvalid : l.validCandidate = .ok (some c) := by
    rw [Lexer.validCandidate, h.candidate?]
    simp only [htime.1, Nat.lt_irrefl, decide_false, Bool.false_or,
      decide_eq_false (Nat.not_lt_of_le htime.2), Bool.false_eq_true, if_false]
  have hholds₂ := (hholds₁.withCandidate none).emit .value l₁.cursor
  refine ⟨_, ?_, hholds₂.moved l₁.cursor.advance false, ?_⟩
  · rw [Lexer.fetchValue, hvalid]
    simp only [bind, Except.bind, pure, Except.pure, hnumber, hroll]
    rfl
  · exact congrArg Cursor.advance hcursor₁

/-- The colon after an announced key. -/
theorem fetchValue_announced {column : Nat} (h : Holds l L (column :: I) k)
    (hk : Stale k l.cursor) (hallowed : l.keyAllowed = true) (hcolumn : l.cursor.column = column) :
    ∃ l', l.fetchValue = .ok l' ∧ Holds l' (L ++ [.value]) (column :: I) none ∧
      l'.cursor = l.cursor.advance := by
  -- a candidate from an earlier line is no key
  have hvalid : l.validCandidate = .ok none := by
    rw [Lexer.validCandidate, h.candidate?]
    cases k with
    | none => rfl
    | some d =>
      obtain ⟨hrequired, hline⟩ := hk d rfl
      simp only [hline, decide_true, Bool.true_or, if_true, hrequired, Bool.false_eq_true, if_false]
  -- the mapping is open already
  have hroll : l.roll l.cursor.column l.count .blockMappingStart l.cursor = .ok l := by
    rw [Lexer.roll, h.inFlow, h.indents, hcolumn]
    simp
  refine ⟨_, ?_, ((h.withCandidate none).emit .value l.cursor).moved l.cursor.advance (!l.inFlow),
    rfl⟩
  rw [Lexer.fetchValue, hvalid]
  simp only [bind, Except.bind, h.inFlow, hallowed, Bool.not_false, Bool.not_true, Bool.and_false,
    Bool.false_eq_true, if_false, hroll, pure, Except.pure]
  rfl

/-! ### Scalars -/

theorem fetchPlain (h : Holds l L I k) (hk : Spare k) {text : List Char} {broken : Bool}
    {c : Cursor} {indent : Nat}
    (hindent : indent = I.head?.elim 0 (· + 1))
    (hread : takePlain false indent l.cursor (l.cursor.rest.length + 1) [] (.blanks []) l.cursor
      = .ok (text, broken, c)) :
    ∃ l', l.fetchPlain = .ok l' ∧
      Holds l' (L ++ [.scalar true (String.ofList text)]) I (saved l L I k) ∧ l'.cursor = c ∧
      l'.keyAllowed = broken := by
  obtain ⟨l₁, hsave, hholds, hcursor, -⟩ := h.saveCandidate hk
  refine ⟨_, ?_, (hholds.emit (.scalar true (String.ofList text)) l₁.cursor).moved c broken, rfl,
    rfl⟩
  rw [Lexer.fetchPlain, hsave]
  simp only [bind, Except.bind, hholds.inFlow, hholds.indents, hcursor]
  subst hindent
  cases I with
  | nil =>
    simp only [List.head?_nil, Option.elim] at hread
    simp only [List.head?_nil, hread]
    rfl
  | cons i I =>
    simp only [List.head?_cons, Option.elim] at hread
    simp only [List.head?_cons, hread]
    rfl

theorem fetchQuoted (h : Holds l L I k) (hk : Spare k) {single : Bool} {text : List Char}
    {c : Cursor}
    (hread : takeQuoted single l.cursor (l.cursor.advance.rest.length + 1) [] l.cursor.advance
      = .ok (text, c)) :
    ∃ l', l.fetchQuoted single = .ok l' ∧
      Holds l' (L ++ [.scalar false (String.ofList text)]) I (saved l L I k) ∧ l'.cursor = c ∧
      l'.keyAllowed = false := by
  obtain ⟨l₁, hsave, hholds, hcursor, -⟩ := h.saveCandidate hk
  refine ⟨_, ?_, (hholds.emit (.scalar false (String.ofList text)) l₁.cursor).moved c false, rfl,
    rfl⟩
  rw [Lexer.fetchQuoted, hsave]
  simp only [bind, Except.bind, hcursor, hread]
  rfl

theorem fetchBlock (h : Holds l L I k) (hk : Spare k) {text : List Char} {c : Cursor}
    (hread : takeBlock true I.head? l.cursor = .ok (text, c)) :
    ∃ l', l.fetchBlock true = .ok l' ∧
      Holds l' (L ++ [.scalar false (String.ofList text)]) I none ∧ l'.cursor = c ∧
      l'.keyAllowed = true := by
  obtain ⟨l₁, hdrop, hholds, hcursor, -⟩ := h.dropCandidate hk
  refine ⟨_, ?_, (hholds.emit (.scalar false (String.ofList text)) l₁.cursor).moved c true, rfl,
    rfl⟩
  rw [Lexer.fetchBlock, hdrop]
  simp only [bind, Except.bind, hcursor, hholds.indents, hread]
  rfl

end Holds

end Lexer

end Blockwork.Yaml
