import Blockwork.Markup.Yaml.Print
import Blockwork.Proofs.Program.Reading
import Blockwork.Proofs.Yaml.Lexing
import Mathlib.Logic.Relation

/-!
# From trees to tokens

The layout of a tree is read as the tokens of its mappings and sequences (`lexes_node`). A reader
that waits at a line is at a **station**: the open collections, the column and the text from there
on. What leads from one station to another are tokens (`Lexes`), and the pieces of a layout lead
from their own beginning to the beginning of what follows them, so that they can be put together.

The end of a collection is not written: the next line is less indented, and the station after it has
one collection less (`Lexes.close`).
-/

namespace Blockwork.Yaml

/-- Steps of the lexer. -/
abbrev Runs : Lexer → Lexer → Prop := Relation.ReflTransGen Lexer.Step

namespace Lexer

variable {l : Lexer} {L marks : List Lexeme} {I I' : List Nat} {x : Char} {ds : List Char}
  {column : Nat}

/-- The first token of a line. -/
theorem Waits.step {cs : List Char} (h : Waits l column cs L I)
    (hI : ∀ i, I.head? = some i → i ≤ column) (hcs : Plainly column cs) :
    ∃ l' k, Holds l' L I k ∧ l'.cursor.rest = cs ∧ l'.cursor.column = column ∧
      l'.keyAllowed = true ∧ Stale k l'.cursor ∧ ∀ l'', Fetches l' l'' → Step l l'' := by
  obtain ⟨L₀, K, k, c, hholds, rfl, hK, hleads, rfl, rfl, hk⟩ := h
  obtain ⟨l', hholds', hcursor, hallowed, hstep⟩ := step_of_fetches hholds hleads hK hI hcs
  exact ⟨l', k, hholds', by rw [hcursor], by rw [hcursor], hallowed, by rwa [hcursor], hstep⟩

theorem Opened.head_le {lexeme : Lexeme} (h : Opened column lexeme I marks I') :
    ∀ i, I.head? = some i → i ≤ column := by
  cases h with
  | new hcolumn _ => exact fun i hi => Nat.le_of_lt (hcolumn i hi)
  | same => exact fun i hi => Nat.le_of_eq (Option.some.inj hi).symm

/-- A mark of one character. -/
theorem fetches_mark {l' : Lexer} (hc : l.cursor.rest = x :: ds) (hds : NoComment ds)
    (hfetch : l.fetchContent x = .ok l') (hcursor : l'.cursor = l.cursor.advance)
    (hdone : l'.isDone = false) :
    Fetches l l' ∧ l'.cursor.rest = ds ∧ l'.cursor.column = l.cursor.column + 1 := by
  have hadvance := Cursor.passes_advance hc
  rw [← hcursor] at hadvance
  have hrest : l'.cursor.rest = ds := hadvance.of_rest hc
  refine ⟨⟨⟨x, ds, hc, hfetch⟩, by rwa [hrest], ?_, hdone⟩, hrest, hadvance.column⟩
  rw [hrest, hc]
  exact Nat.lt_succ_self _

/-- **A short key with its colon**, on one line. -/
theorem Waits.key_colon {name : String} {indent : Nat}
    (h : Waits l column (writeText indent name ++ ':' :: x :: ds) L I)
    (ho : Opened column .blockMappingStart I marks I') (hname : isShortKey name = true)
    (hx : isGap x = true) (hcomment : NoComment (x :: ds))
    (hstart : Plainly column (writeText indent name ++ ':' :: x :: ds)) :
    ∃ l', Runs l l' ∧ Holds l' (L ++ marks ++ [.key, textLexeme name, .value]) I' none ∧
      l'.cursor.rest = x :: ds ∧ column < l'.cursor.column := by
  obtain ⟨l₁, k, hholds₁, hrest₁, hcolumn₁, hallowed₁, hk, hstep₁⟩ := h.step ho.head_le hstart
  have hline : isMultiline name.toList = false := by
    unfold isShortKey at hname
    simp only [Bool.and_eq_true, Bool.not_eq_true'] at hname
    exact hname.1
  obtain ⟨l₂, hfetch₂, hholds₂, hpasses₂⟩ := hholds₁.fetch_key hk.spare hline hx hrest₁
    (by rw [hcolumn₁]; exact ho.head_le) (by rw [hcolumn₁, hrest₁]; exact hstart)
  -- the lexer remembers where the key began, for the colon may still come
  have hsaved : saved l₁ L I k = some ⟨I.head? == some column, L.length, l₁.cursor⟩ := by
    rw [saved, hallowed₁, hcolumn₁]
    rfl
  rw [hsaved] at hholds₂
  have hrest₂ : l₂.cursor.rest = ':' :: x :: ds := hpasses₂.of_rest hrest₁
  have hcolumn₂ : column ≤ l₂.cursor.column := by
    rw [hpasses₂.column, hcolumn₁]
    exact Nat.le_add_right _ _
  -- the colon
  obtain ⟨c, hleads, hstill⟩ := leads_spaces (l := l₂) (m := 0) (r := ':' :: x :: ds) hrest₂
    (starts_cons (by decide) (by decide) (by decide) _)
  have hrestc : c.rest = ':' :: x :: ds := hstill.of_rest hrest₂
  have hcolumnc : column ≤ c.column := by rwa [hstill.column]
  obtain ⟨l₃, hholds₃, hcursor₃, -, hstep₃⟩ := step_of_fetches (K := []) hholds₂ hleads nofun
    (fun i hi => Nat.le_trans (ho.head_le i hi) hcolumnc) (by
      rw [hrestc]
      intro _ y hy
      obtain rfl := Option.some.inj hy
      decide)
  rw [List.length_nil, List.replicate_zero, List.append_nil] at hholds₃
  -- a short key keeps to its line and its length, so the memory has not lapsed
  have htime : l₁.cursor.line = l₃.cursor.line ∧ l₃.cursor.index ≤ l₁.cursor.index + 1024 := by
    have hlength := length_writeText_le hname indent
    rw [hcursor₃, hstill.line, hstill.index, hpasses₂.line, hpasses₂.index]
    exact ⟨rfl, by simpa [spaces] using hlength⟩
  obtain ⟨l₄, hfetch₄, hholds₄, hcursor₄⟩ := hholds₃.fetchValue rfl htime
    (by dsimp only; rw [hcolumn₁]; exact ho)
  have hrest₃ : l₃.cursor.rest = ':' :: x :: ds := by rw [hcursor₃, hrestc]
  obtain ⟨hfetches₄, hrest₄, hcolumn₄⟩ := fetches_mark hrest₃ hcomment
    (by rw [fetchContent_colon hx hrest₃, hfetch₄]) hcursor₄ (hholds₄.isDone (by simp))
  refine ⟨l₄, .tail (.tail .refl (hstep₁ l₂ hfetch₂)) (hstep₃ l₄ hfetches₄), ?_, hrest₄, ?_⟩
  · rw [List.append_assoc (L ++ marks)] at hholds₄
    exact hholds₄
  · rw [hcolumn₄, hcursor₃]
    exact Nat.lt_succ_of_le hcolumnc

/-- **The mark of an announced key.** -/
theorem Waits.question (h : Waits l column ('?' :: ' ' :: ds) L I)
    (ho : Opened column .blockMappingStart I marks I') (hds : Starts ds) :
    ∃ l', Runs l l' ∧ Holds l' (L ++ marks ++ [.key]) I' none ∧ l'.cursor.rest = ' ' :: ds ∧
      column < l'.cursor.column := by
  obtain ⟨l₁, k, hholds₁, hrest₁, hcolumn₁, hallowed₁, hk, hstep₁⟩ := h.step ho.head_le (by
    intro _ y hy
    obtain rfl := Option.some.inj hy
    decide)
  obtain ⟨l₂, hfetch, hholds₂, hcursor, -⟩ := hholds₁.fetchKey hk.spare hallowed₁
    (by rw [hcolumn₁]; exact ho)
  obtain ⟨hfetches, hrest₂, hcolumn₂⟩ := fetches_mark hrest₁ (noComment_of_starts (m := 1) hds)
    (by rw [fetchContent_question hrest₁, hfetch]) hcursor (hholds₂.isDone (by simp))
  refine ⟨l₂, .single (hstep₁ l₂ hfetches), hholds₂, hrest₂, ?_⟩
  rw [hcolumn₂, hcolumn₁]
  exact Nat.lt_succ_self _

/-- **The colon after an announced key**, on a line of its own. -/
theorem Waits.colon (h : Waits l column (':' :: ' ' :: ds) L (column :: I)) (hds : Starts ds) :
    ∃ l', Runs l l' ∧ Holds l' (L ++ [.value]) (column :: I) none ∧ l'.cursor.rest = ' ' :: ds ∧
      column < l'.cursor.column := by
  obtain ⟨l₁, k, hholds₁, hrest₁, hcolumn₁, hallowed₁, hk, hstep₁⟩ := h.step
    (fun i hi => Nat.le_of_eq (Option.some.inj hi).symm) (by
    intro _ y hy
    obtain rfl := Option.some.inj hy
    decide)
  obtain ⟨l₂, hfetch, hholds₂, hcursor⟩ := hholds₁.fetchValue_announced hk hallowed₁ hcolumn₁
  obtain ⟨hfetches, hrest₂, hcolumn₂⟩ := fetches_mark hrest₁ (noComment_of_starts (m := 1) hds)
    (by rw [fetchContent_colon (by decide) hrest₁, hfetch]) hcursor (hholds₂.isDone (by simp))
  refine ⟨l₂, .single (hstep₁ l₂ hfetches), hholds₂, hrest₂, ?_⟩
  rw [hcolumn₂, hcolumn₁]
  exact Nat.lt_succ_self _

/-- **The mark of an item**: the item begins on the same line. -/
theorem Waits.dash (h : Waits l column ('-' :: ' ' :: ds) L I) (hcolumn : 0 < column)
    (ho : Opened column .blockSequenceStart I marks I') (hds : Starts ds) :
    ∃ l', Runs l l' ∧ Waits l' (column + 2) ds (L ++ marks ++ [.blockEntry]) I' := by
  obtain ⟨l₁, k, hholds₁, hrest₁, hcolumn₁, hallowed₁, hk, hstep₁⟩ := h.step ho.head_le
    (plainly_of_pos hcolumn _)
  obtain ⟨l₂, hfetch, hholds₂, hcursor, hallowed₂⟩ := hholds₁.fetchBlockEntry hk.spare hallowed₁
    (by rw [hcolumn₁]; exact ho)
  obtain ⟨hfetches, hrest₂, hcolumn₂⟩ := fetches_mark hrest₁ (noComment_of_starts (m := 1) hds)
    (by rw [fetchContent_dash hrest₁, hfetch]) hcursor (hholds₂.isDone (by simp))
  obtain ⟨c, hleads, hspace⟩ := leads_spaces (l := l₂) (m := 1) hrest₂ hds
  rw [hallowed₂] at hleads
  have hcolumnc : c.column = column + 2 := by
    rw [hspace.column, hcolumn₂, hcolumn₁]
    rfl
  have hrestc : c.rest = ds := hspace.of_rest hrest₂
  refine ⟨l₂, .single (hstep₁ l₂ hfetches), ?_⟩
  rw [← hcolumnc, ← hrestc]
  exact waits_of_leads hholds₂ hleads (stale_none c)

/-- **A value** after its mark, up to the next line. -/
theorem Holds.value {i j : Nat} {s : String} (h : Holds l L (i :: I) none)
    (hcolumn : i < l.cursor.column) (hj : j ≤ i) (hds : Starts ds) (hs : losesStart s = false)
    (hc : l.cursor.rest = ' ' :: (writeLine (i + 2) s ++ (spaces j ++ ds))) :
    ∃ l', Runs l l' ∧ Waits l' j ds (L ++ [textLexeme s]) (i :: I) := by
  have hstarts : Starts (writeLine (i + 2) s ++ (spaces j ++ ds)) := by
    obtain ⟨x, r, hwritten, hx⟩ := exists_writeText (i + 2) s
    rw [writeLine, hwritten]
    exact hx _
  -- the space after the mark
  obtain ⟨c, hleads, hspace⟩ := leads_spaces (l := l) (m := 1) hc hstarts
  have hcolumnc : i < c.column := by
    rw [hspace.column]
    exact Nat.lt_add_right _ hcolumn
  have hrestc : c.rest = writeLine (i + 2) s ++ (spaces j ++ ds) := hspace.of_rest hc
  -- nothing is closed, since the value stands beyond the column of the entry
  obtain ⟨l₁, hholds₁, hcursor₁, -, hstep₁⟩ := step_of_fetches (K := []) h hleads nofun
    (fun n hn => Option.some.inj hn ▸ Nat.le_of_lt hcolumnc)
    (plainly_of_pos (Nat.zero_lt_of_lt hcolumnc) _)
  rw [List.length_nil, List.replicate_zero, List.append_nil] at hholds₁
  obtain ⟨l₂, hfetches, hwaits⟩ := hholds₁.fetch_value (by rwa [hcursor₁]) hj hds hs
    (by rw [hcursor₁, hrestc])
  exact ⟨l₂, .single (hstep₁ l₂ hfetches), hwaits⟩

/-- The end of the line after a colon. -/
theorem Holds.feed {j : Nat} (h : Holds l L I none) (hds : Starts ds)
    (hc : l.cursor.rest = '\n' :: (spaces j ++ ds)) : Waits l j ds L I := by
  obtain ⟨c, hleads, hrest, hcolumn, -⟩ := leads_feed hc hds h.inFlow
  rw [← hrest, ← hcolumn]
  exact waits_of_leads h hleads (stale_none c)

end Lexer

/-! ### Stations -/

open Lexer (Waits Opened)

/-- A place between two lines. -/
structure Station where
  indents : List Nat
  column : Nat
  rest : List Char

/-- From one station to another the lexer makes some tokens. -/
def Lexes (a : Station) (M : List Lexeme) (b : Station) : Prop :=
  ∀ l L, Waits l a.column a.rest L a.indents →
    ∃ l', Runs l l' ∧ Waits l' b.column b.rest (L ++ M) b.indents

namespace Lexes

variable {a b c : Station} {M N : List Lexeme}

theorem refl (a : Station) : Lexes a [] a := fun l L h =>
  ⟨l, .refl, by rwa [List.append_nil]⟩

theorem trans (h : Lexes a M b) (h' : Lexes b N c) : Lexes a (M ++ N) c := by
  intro l L hwaits
  obtain ⟨l₁, hruns₁, hwaits₁⟩ := h l L hwaits
  obtain ⟨l₂, hruns₂, hwaits₂⟩ := h' l₁ (L ++ M) hwaits₁
  exact ⟨l₂, hruns₁.trans hruns₂, by rwa [List.append_assoc] at hwaits₂⟩

/-- **A collection ends** before a line that is less indented. -/
theorem close {j k : Nat} (hj : j < k) (I : List Nat) (r : List Char) :
    Lexes ⟨k :: I, j, r⟩ [.blockEnd] ⟨I, j, r⟩ := by
  rintro l L ⟨L₀, K, d, c, hholds, rfl, hK, hleads⟩
  refine ⟨l, .refl, L₀, K ++ [k], d, c, ?_, ?_, ?_, hleads⟩
  · rwa [List.append_assoc]
  · rw [List.length_append, List.length_singleton, List.append_assoc, List.replicate_succ']
  · intro i hi
    rcases List.mem_append.1 hi with hi | hi
    · exact hK i hi
    · rwa [List.mem_singleton.1 hi]

end Lexes

/-! ### Entries and items -/

/-- An entry of a mapping without the indentation of its first line. -/
def entryBody (indent : Nat) (name value : String) : List Char :=
  if isShortKey name then
    writeText (indent + 2) name ++ ':' :: ' ' :: writeLine (indent + 2) value
  else
    '?' :: ' ' :: (writeLine (indent + 2) name ++ (spaces indent ++
      ':' :: ' ' :: writeLine (indent + 2) value))

theorem writeEntry_eq (indent : Nat) (name value : String) :
    writeEntry indent name value = spaces indent ++ entryBody indent name value := by
  unfold writeEntry entryBody
  dsimp only
  split <;> simp

/-- The tokens of an entry. -/
def entryLexemes (name value : String) : List Lexeme :=
  [.key, textLexeme name, .value, textLexeme value]

theorem starts_writeLine (indent : Nat) (s : String) (r : List Char) :
    Starts (writeLine indent s ++ r) := by
  obtain ⟨x, r', hwritten, hx⟩ := exists_writeText indent s
  rw [writeLine, hwritten]
  exact hx _

theorem starts_entryBody (indent : Nat) (name value : String) (r : List Char) :
    Starts (entryBody indent name value ++ r) := by
  unfold entryBody
  split
  · obtain ⟨x, r', hwritten, hx⟩ := exists_writeText (indent + 2) name
    rw [hwritten]
    exact hx _
  · exact starts_cons (by decide) (by decide) (by decide) _

section

variable {i j : Nat} {I I₀ : List Nat} {marks : List Lexeme} {ds : List Char}

/-- **An entry** leads to the line after it. -/
theorem lexes_entry (name value : String)
    (ho : Opened i .blockMappingStart I marks (i :: I₀)) (hj : j ≤ i) (hds : Starts ds)
    (hname : losesStart name = false) (hvalue : losesStart value = false)
    (hstart : Lexer.Plainly i (entryBody i name value)) :
    Lexes ⟨I, i, entryBody i name value ++ (spaces j ++ ds)⟩ (marks ++ entryLexemes name value)
      ⟨i :: I₀, j, ds⟩ := by
  intro l L hwaits
  dsimp only at hwaits ⊢
  unfold entryBody at hwaits hstart
  have hline := starts_writeLine (i + 2) value (spaces j ++ ds)
  split at hwaits
  · rename_i hshort
    rw [if_pos hshort] at hstart
    rw [List.append_assoc] at hwaits
    -- the key begins with its own text, so what may not begin it is the same
    have hstart' : Lexer.Plainly i (writeText (i + 2) name ++
        ':' :: ' ' :: (writeLine (i + 2) value ++ (spaces j ++ ds))) := by
      intro hzero x hx
      refine hstart hzero x ?_
      obtain ⟨y, r, hwritten, -⟩ := exists_writeText (i + 2) name
      rw [hwritten] at hx ⊢
      exact hx
    obtain ⟨l₁, hruns₁, hholds₁, hrest₁, hcolumn₁⟩ := hwaits.key_colon ho hshort (by decide)
      (Lexer.noComment_of_starts (m := 1) hline) hstart'
    obtain ⟨l₂, hruns₂, hwaits₂⟩ := hholds₁.value hcolumn₁ hj hds hvalue hrest₁
    refine ⟨l₂, hruns₁.trans hruns₂, ?_⟩
    simpa only [entryLexemes, List.append_assoc, List.cons_append, List.nil_append] using hwaits₂
  · -- a long key has a question mark in front of it and its colon on the next line
    simp only [List.cons_append, List.append_assoc] at hwaits
    have hcolon : Starts (':' :: ' ' :: (writeLine (i + 2) value ++ (spaces j ++ ds))) :=
      starts_cons (by decide) (by decide) (by decide) _
    obtain ⟨l₁, hruns₁, hholds₁, hrest₁, hcolumn₁⟩ := hwaits.question ho
      (starts_writeLine (i + 2) name _)
    obtain ⟨l₂, hruns₂, hwaits₂⟩ := hholds₁.value hcolumn₁ (Nat.le_refl i) hcolon hname hrest₁
    obtain ⟨l₃, hruns₃, hholds₃, hrest₃, hcolumn₃⟩ := hwaits₂.colon hline
    obtain ⟨l₄, hruns₄, hwaits₄⟩ := hholds₃.value hcolumn₃ hj hds hvalue hrest₃
    refine ⟨l₄, ((hruns₁.trans hruns₂).trans hruns₃).trans hruns₄, ?_⟩
    simpa only [entryLexemes, List.append_assoc, List.cons_append, List.nil_append] using hwaits₄

/-- **A word with a collection under it** leads to the first line of the collection. -/
theorem lexes_word {word : String} (hword : isShortKey word = true) (hds : Starts ds)
    (hstart : Lexer.Plainly i (writeText (i + 2) word)) :
    Lexes ⟨i :: I, i, writeText (i + 2) word ++ ':' :: '\n' :: (spaces j ++ ds)⟩
      [.key, textLexeme word, .value] ⟨i :: I, j, ds⟩ := by
  intro l L hwaits
  have hstart' : Lexer.Plainly i (writeText (i + 2) word ++ ':' :: '\n' :: (spaces j ++ ds)) := by
    intro hzero x hx
    refine hstart hzero x ?_
    obtain ⟨y, r, hwritten, -⟩ := exists_writeText (i + 2) word
    rw [hwritten] at hx ⊢
    exact hx
  obtain ⟨l₁, hruns, hholds, hrest, -⟩ := hwaits.key_colon .same hword (by decide)
    (Lexer.noComment_cons (by decide) (by decide) _) hstart'
  rw [List.append_nil] at hholds
  exact ⟨l₁, hruns, hholds.feed hds hrest⟩

/-- **The mark of an item** leads to the item. -/
theorem lexes_dash {I' : List Nat} (hi : 0 < i) (ho : Opened i .blockSequenceStart I marks I')
    (hds : Starts ds) :
    Lexes ⟨I, i, '-' :: ' ' :: ds⟩ (marks ++ [.blockEntry]) ⟨I', i + 2, ds⟩ := by
  intro l L hwaits
  obtain ⟨l₁, hruns, hwaits₁⟩ := hwaits.dash hi ho hds
  exact ⟨l₁, hruns, by rwa [List.append_assoc] at hwaits₁⟩

end

/-! ### Parts of a collection -/

/-- The rest of a collection at column `k`, on the page and as tokens, up to a station. -/
def Continues (k : Nat) (I : List Nat) (text : List Char) (M : List Lexeme) (b : Station) : Prop :=
  ∃ column cs, text = spaces column ++ cs ∧ column ≤ k ∧ Starts cs ∧
    Lexes ⟨k :: I, column, cs⟩ M b

namespace Continues

variable {k : Nat} {I : List Nat} {text : List Char} {M : List Lexeme} {b : Station}

/-- Nothing is left. -/
theorem nil {j : Nat} {r : List Char} (hj : j ≤ k) (hr : Starts r) :
    Continues k I (spaces j ++ r) [] ⟨k :: I, j, r⟩ :=
  ⟨j, r, rfl, hj, hr, .refl _⟩

theorem entry (h : Continues k I text M b) {name value : String} (hname : losesStart name = false)
    (hvalue : losesStart value = false) (hstart : Lexer.Plainly k (entryBody k name value)) :
    Continues k I (writeEntry k name value ++ text) (entryLexemes name value ++ M) b := by
  obtain ⟨column, cs, rfl, hcolumn, hcs, hlexes⟩ := h
  refine ⟨k, entryBody k name value ++ (spaces column ++ cs), ?_, Nat.le_refl k,
    starts_entryBody k name value _, ?_⟩
  · rw [writeEntry_eq, List.append_assoc]
  · exact (lexes_entry _ _ .same hcolumn hcs hname hvalue hstart).trans hlexes

/-- Entries one after the other. -/
theorem entries (h : Continues k I text M b) (hk : 0 < k) (entries : List (String × String))
    (hsurvive : ∀ e ∈ entries, losesStart e.1 = false ∧ losesStart e.2 = false) :
    Continues k I ((entries.flatMap fun (n, v) => writeEntry k n v) ++ text)
      ((entries.flatMap fun (n, v) => entryLexemes n v) ++ M) b := by
  induction entries with
  | nil => exact h
  | cons e entries ih =>
    obtain ⟨hname, hvalue⟩ := hsurvive e List.mem_cons_self
    have hrest := ih fun e' he' => hsurvive e' (List.mem_cons_of_mem e he')
    rw [List.flatMap_cons, List.flatMap_cons, List.append_assoc, List.append_assoc]
    exact hrest.entry hname hvalue (Lexer.plainly_of_pos hk _)

/-- A part that is left out if there is nothing to say. -/
theorem optional (h : Continues k I text M b) (nothing : Bool) {part : List Char} {N : List Lexeme}
    (hpart : nothing = false → Continues k I (part ++ text) (N ++ M) b) :
    Continues k I ((if nothing then [] else part) ++ text) ((if nothing then [] else N) ++ M)
      b := by
  cases nothing with
  | true => exact h
  | false => exact hpart rfl

/-- A collection further in, under a word. -/
theorem collection (h : Continues k I text M b) {word : String} (hword : isShortKey word = true)
    (hstart : Lexer.Plainly k (writeText (k + 2) word)) {inner : List Char} {N : List Lexeme}
    (hinner : ∀ column cs, column ≤ k → Starts cs → ∃ cs',
      inner ++ (spaces column ++ cs) = spaces (k + 2) ++ cs' ∧ Starts cs' ∧
        Lexes ⟨k :: I, k + 2, cs'⟩ N ⟨k :: I, column, cs⟩) :
    Continues k I (spaces k ++ (writeText (k + 2) word ++ ':' :: '\n' :: (inner ++ text)))
      ([.key, textLexeme word, .value] ++ N ++ M) b := by
  obtain ⟨column, cs, rfl, hcolumn, hcs, hlexes⟩ := h
  obtain ⟨cs', htext, hcs', hread⟩ := hinner column cs hcolumn hcs
  refine ⟨k, _, rfl, Nat.le_refl k, ?_, ?_⟩
  · obtain ⟨x, r, hwritten, hx⟩ := exists_writeText (k + 2) word
    rw [hwritten]
    exact hx _
  · rw [htext]
    exact ((lexes_word hword hcs' hstart).trans hread).trans hlexes

end Continues

/-! ### Trees -/

end Blockwork.Yaml

namespace Blockwork.Node

mutual

/-- How many elements are nested in one another. -/
def height : Node → Nat
  | .absent => 0
  | .element _ _ _ children => heightOfAll children + 1

/-- The greatest height of some nodes. -/
def heightOfAll : List Node → Nat
  | [] => 0
  | n :: rest => max n.height (heightOfAll rest)

end

theorem height_le_heightOfAll {n : Node} {nodes : List Node} (h : n ∈ nodes) :
    n.height ≤ heightOfAll nodes := by
  induction nodes with
  | nil => exact absurd h List.not_mem_nil
  | cons m nodes ih =>
    rw [heightOfAll]
    rcases List.mem_cons.1 h with rfl | h
    · exact Nat.le_max_left _ _
    · exact Nat.le_trans (ih h) (Nat.le_max_right _ _)

/-- A tree of elements that survives being written: no text loses its beginning, and no two
attributes of an element have one name, nor has any the name of a merge key. -/
inductive Survives : Node → Prop
  | element {tag : String} {attributes : List (String × String)} {body : String}
      {children : List Node} (tag_kept : Yaml.losesStart tag = false)
      (attributes_kept : ∀ a ∈ attributes,
        Yaml.losesStart a.1 = false ∧ Yaml.losesStart a.2 = false)
      (names_differ : (attributes.map (·.1)).Nodup) (no_merge : ∀ a ∈ attributes, a.1 ≠ "<<")
      (body_kept : Yaml.losesStart body = false)
      (children_survive : ∀ n ∈ children, Survives n) :
      Survives (.element tag attributes body children)

end Blockwork.Node

namespace Blockwork.Yaml

open Lexer (Opened)

mutual

/-- The tokens of an element, up to the end of its mapping. -/
def fieldLexemes : Node → List Lexeme
  | .absent => []
  | .element tag attributes body children =>
    .blockMappingStart :: (entryLexemes "tag" tag ++
      ((if attributes.isEmpty then []
        else [.key, textLexeme "attrs", .value] ++ (.blockMappingStart ::
          (inNaturalOrder attributes).flatMap (fun (n, v) => entryLexemes n v) ++ [.blockEnd])) ++
      ((if body.isEmpty then [] else entryLexemes "text" body) ++
        if children.isEmpty then []
        else [.key, textLexeme "children", .value] ++
          (.blockSequenceStart :: itemLexemes children ++ [.blockEnd]))))

/-- The tokens of the items of a sequence. -/
def itemLexemes : List Node → List Lexeme
  | [] => []
  | n :: rest => .blockEntry :: (fieldLexemes n ++ [.blockEnd]) ++ itemLexemes rest

end

/-! ### Attributes -/

section

variable {k : Nat} {I : List Nat}

/-- **The attributes of an element** make a mapping of their own. -/
theorem lexes_attributes {attributes : List (String × String)} (hne : attributes ≠ [])
    (hsurvive : ∀ a ∈ attributes, losesStart a.1 = false ∧ losesStart a.2 = false)
    (hdepth : I.length + 1 < Lexer.maxDepth) {column : Nat} {cs : List Char} (hcolumn : column ≤ k)
    (hcs : Starts cs) :
    ∃ cs', (attributes.flatMap fun (n, v) => writeEntry (k + 2) n v) ++ (spaces column ++ cs)
        = spaces (k + 2) ++ cs' ∧ Starts cs' ∧
      Lexes ⟨k :: I, k + 2, cs'⟩ (.blockMappingStart ::
          (attributes.flatMap fun (n, v) => entryLexemes n v) ++ [.blockEnd])
        ⟨k :: I, column, cs⟩ := by
  obtain ⟨⟨name, value⟩, rest, rfl⟩ := List.exists_cons_of_ne_nil hne
  obtain ⟨hname, hvalue⟩ := hsurvive _ List.mem_cons_self
  -- the entries after the first go on at the same column
  obtain ⟨column', cs', htext, hcolumn', hcs', hrest⟩ := (Continues.nil (I := k :: I)
    (Nat.le_trans hcolumn (Nat.le_add_right k 2)) hcs).entries (Nat.succ_pos _) rest
      fun e he => hsurvive e (List.mem_cons_of_mem _ he)
  have hfirst := lexes_entry name value (.new (I := k :: I)
    (fun i hi => Option.some.inj hi ▸ Nat.lt_succ_of_lt (Nat.lt_succ_self k)) hdepth)
    hcolumn' hcs' hname hvalue (Lexer.plainly_of_pos (Nat.succ_pos _) _)
  -- the line after them is less indented, which ends the mapping
  have hclose := Lexes.close (show column < k + 2 by omega) (k :: I) cs
  refine ⟨_, ?_, starts_entryBody (k + 2) name value (spaces column' ++ cs'), ?_⟩
  · rw [List.flatMap_cons]
    dsimp only
    rw [writeEntry_eq, ← htext]
    simp only [List.append_assoc]
  · have hall := (hfirst.trans hrest).trans hclose
    simpa only [List.flatMap_cons, List.append_assoc, List.cons_append, List.nil_append,
      List.append_nil] using hall

/-! ### Children -/

/-- An element at a column leads to the line after it, wherever it stands. -/
def Reads (n : Node) : Prop :=
  ∀ {k : Nat} {I : List Nat} {j : Nat} {r : List Char}, (∀ i, I.head? = some i → i < k) →
    I.length + 2 * n.height ≤ Lexer.maxDepth → j ≤ k → Starts r →
    Lexes ⟨I, k, writeNode k n ++ (spaces j ++ r)⟩ (fieldLexemes n) ⟨k :: I, j, r⟩

theorem starts_writeNode (k : Nat) (n : Node) (r : List Char) : Starts (writeNode k n ++ r) := by
  cases n with
  | absent => exact starts_cons (by decide) (by decide) (by decide) _
  | element tag attributes body children =>
    exact starts_cons (x := 't') (by decide) (by decide) (by decide) _

/-- **An item** leads to the line after it. -/
theorem lexes_item {i : Nat} {I I₀ : List Nat} {marks : List Lexeme} {n : Node} (h : Reads n)
    (hi : 0 < i) (ho : Opened i .blockSequenceStart I marks (i :: I₀))
    (hdepth : I₀.length + 1 + 2 * n.height ≤ Lexer.maxDepth) {column : Nat} {cs : List Char}
    (hcolumn : column ≤ i) (hcs : Starts cs) :
    Lexes ⟨I, i, '-' :: ' ' :: (writeNode (i + 2) n ++ (spaces column ++ cs))⟩
      (marks ++ .blockEntry :: (fieldLexemes n ++ [.blockEnd])) ⟨i :: I₀, column, cs⟩ := by
  have hless : column < i + 2 := by omega
  have hdash := lexes_dash hi ho (starts_writeNode (i + 2) n (spaces column ++ cs))
  have hfields := h (k := i + 2) (I := i :: I₀)
    (fun d hd => Option.some.inj hd ▸ Nat.lt_succ_of_lt (Nat.lt_succ_self i)) hdepth
    (Nat.le_of_lt hless) hcs
  have hall := (hdash.trans hfields).trans (.close hless (i :: I₀) cs)
  simpa only [List.append_assoc, List.cons_append, List.nil_append] using hall

theorem Continues.items {text : List Char} {M : List Lexeme} {b : Station}
    (h : Continues k I text M b) (hk : 0 < k) (children : List Node)
    (hreads : ∀ n ∈ children, Reads n)
    (hdepth : I.length + 1 + 2 * Node.heightOfAll children ≤ Lexer.maxDepth) :
    Continues k I (writeItems k children ++ text) (itemLexemes children ++ M) b := by
  induction children with
  | nil => exact h
  | cons n rest ih =>
    rw [Node.heightOfAll] at hdepth
    obtain ⟨column, cs, htext, hcolumn, hcs, hlexes⟩ := ih
      (fun m hm => hreads m (List.mem_cons_of_mem n hm)) (by omega)
    have hitem := lexes_item (hreads n List.mem_cons_self) hk (.same (I := I)) (by omega) hcolumn
      hcs
    refine ⟨k, '-' :: ' ' :: (writeNode (k + 2) n ++ (spaces column ++ cs)), ?_, Nat.le_refl k,
      starts_cons (by decide) (by decide) (by decide) _, ?_⟩
    · rw [writeItems, ← htext]
      simp only [List.append_assoc, List.cons_append]
    · rw [itemLexemes]
      simpa only [List.append_assoc, List.cons_append, List.nil_append] using hitem.trans hlexes

/-- **The children of an element** make a sequence. -/
theorem lexes_children {children : List Node} (hne : children ≠ [])
    (hreads : ∀ n ∈ children, Reads n)
    (hdepth : I.length + 2 + 2 * Node.heightOfAll children ≤ Lexer.maxDepth) {column : Nat}
    {cs : List Char} (hcolumn : column ≤ k) (hcs : Starts cs) :
    ∃ cs', writeItems (k + 2) children ++ (spaces column ++ cs) = spaces (k + 2) ++ cs' ∧
      Starts cs' ∧ Lexes ⟨k :: I, k + 2, cs'⟩
        (.blockSequenceStart :: itemLexemes children ++ [.blockEnd]) ⟨k :: I, column, cs⟩ := by
  obtain ⟨n, rest, rfl⟩ := List.exists_cons_of_ne_nil hne
  rw [Node.heightOfAll] at hdepth
  -- the items after the first go on at the same column
  obtain ⟨column', cs', htext, hcolumn', hcs', hrest⟩ := (Continues.nil (I := k :: I)
    (Nat.le_trans hcolumn (Nat.le_add_right k 2)) hcs).items (Nat.succ_pos _) rest
      (fun m hm => hreads m (List.mem_cons_of_mem n hm))
      (show I.length + 1 + 1 + 2 * Node.heightOfAll rest ≤ _ by omega)
  have hfirst := lexes_item (hreads n List.mem_cons_self) (Nat.succ_pos (k + 1)) (.new (I := k :: I)
    (fun i hi => Option.some.inj hi ▸ Nat.lt_succ_of_lt (Nat.lt_succ_self k))
    (show I.length + 1 < Lexer.maxDepth by omega))
    (show I.length + 1 + 1 + 2 * n.height ≤ _ by omega) hcolumn' hcs'
  -- the line after them is less indented, which ends the sequence
  have hclose := Lexes.close (show column < k + 2 by omega) (k :: I) cs
  refine ⟨'-' :: ' ' :: (writeNode (k + 2 + 2) n ++ (spaces column' ++ cs')), ?_,
    starts_cons (by decide) (by decide) (by decide) _, ?_⟩
  · rw [writeItems, ← htext]
    simp only [List.append_assoc, List.cons_append]
  · have hall := (hfirst.trans hrest).trans hclose
    rw [itemLexemes]
    simpa only [List.append_assoc, List.cons_append, List.nil_append, List.append_nil] using hall

/-! ### Elements -/

/-- The keys of an element. -/
def fieldNames : List String := ["tag", "attrs", "text", "children"]

/-- The keys of an element are written as they are. -/
theorem plain_words : ∀ word ∈ fieldNames,
    styleOf word = .plain ∧ isShortKey word = true ∧ losesStart word = false ∧
      ∀ x, word.toList.head? = some x → x ≠ '%' ∧ x ≠ '-' ∧ x ≠ '.' := by
  -- a test of the first character, instead of one of all characters
  have htests : ∀ word ∈ fieldNames,
      styleOf word = .plain ∧ isShortKey word = true ∧ losesStart word = false ∧
        (word.toList.head?.all fun x => x != '%' && (x != '-' && x != '.')) = true := by
    decide
  intro word hword
  obtain ⟨hplain, hshort, hstart, hfirst⟩ := htests word hword
  refine ⟨hplain, hshort, hstart, fun x hx => ?_⟩
  rw [hx] at hfirst
  simpa using hfirst

theorem writeText_word {word : String} (h : word ∈ fieldNames)
    (indent : Nat) : writeText indent word = word.toList := by
  rw [writeText, (plain_words word h).1]

theorem entryBody_word {word : String} (h : word ∈ fieldNames)
    (indent : Nat) (value : String) :
    entryBody indent word value = word.toList ++ ':' :: ' ' :: writeLine (indent + 2) value := by
  rw [entryBody, if_pos (plain_words word h).2.1, writeText_word h]

theorem plainly_word {word : String} (h : word ∈ fieldNames)
    (indent column : Nat) : Lexer.Plainly column (writeText indent word) := by
  intro _ x hx
  rw [writeText_word h] at hx
  exact (plain_words word h).2.2.2 x hx

theorem plainly_entryBody {word : String} (h : word ∈ fieldNames)
    (indent column : Nat) (value : String) :
    Lexer.Plainly column (entryBody indent word value) := by
  intro _ x hx
  rw [entryBody_word h, List.head?_append] at hx
  refine (plain_words word h).2.2.2 x ?_
  cases hhead : word.toList.head? with
  | none =>
    have hempty : word.toList = [] := List.head?_eq_none_iff.1 hhead
    obtain rfl : word = "" := String.toList_inj.1 hempty
    exact absurd h (by decide)
  | some y =>
    rw [hhead] at hx
    exact hx

/-- A line with a word and a text. -/
theorem Continues.line {text : List Char} {M : List Lexeme} {b : Station}
    (h : Continues k I text M b) {word : String} (hword : word ∈ fieldNames)
    {value : String} (hvalue : losesStart value = false) :
    Continues k I (spaces k ++ (word ++ ": ").toList ++ writeLine (k + 2) value ++ text)
      (entryLexemes word value ++ M) b := by
  have hall := h.entry (plain_words word hword).2.2.1 hvalue (plainly_entryBody hword k k value)
  rw [writeEntry_eq, entryBody_word hword] at hall
  have hcolon : ": ".toList = [':', ' '] := rfl
  rw [String.toList_append, hcolon]
  simpa only [List.append_assoc, List.cons_append, List.nil_append] using hall

/-- A line with a word, and the collection under it. -/
theorem Continues.under {text : List Char} {M : List Lexeme} {b : Station}
    (h : Continues k I text M b) {word : String} (hword : word ∈ fieldNames)
    {inner : List Char} {N : List Lexeme}
    (hinner : ∀ column cs, column ≤ k → Starts cs → ∃ cs',
      inner ++ (spaces column ++ cs) = spaces (k + 2) ++ cs' ∧ Starts cs' ∧
        Lexes ⟨k :: I, k + 2, cs'⟩ N ⟨k :: I, column, cs⟩) :
    Continues k I (spaces k ++ (word ++ ":\n").toList ++ inner ++ text)
      ([.key, textLexeme word, .value] ++ N ++ M) b := by
  have hall := h.collection (plain_words word hword).2.1 (plainly_word hword (k + 2) k) hinner
  rw [writeText_word hword] at hall
  have hcolon : ":\n".toList = [':', '\n'] := rfl
  rw [String.toList_append, hcolon]
  simpa only [List.append_assoc, List.cons_append, List.nil_append] using hall

theorem mem_inNaturalOrder {attributes : List (String × String)} {a : String × String} :
    a ∈ inNaturalOrder attributes ↔ a ∈ attributes := List.mem_mergeSort

theorem inNaturalOrder_ne_nil {attributes : List (String × String)} (h : attributes ≠ []) :
    inNaturalOrder attributes ≠ [] := by
  obtain ⟨a, rest, rfl⟩ := List.exists_cons_of_ne_nil h
  exact List.ne_nil_of_mem (mem_inNaturalOrder.2 List.mem_cons_self)

theorem writeNode_element (indent : Nat) (tag : String) (attributes : List (String × String))
    (body : String) (children : List Node) :
    writeNode indent (.element tag attributes body children)
      = "tag: ".toList ++ writeLine (indent + 2) tag ++
      (if attributes.isEmpty then []
        else spaces indent ++ "attrs:\n".toList ++
          (inNaturalOrder attributes).flatMap fun (n, v) => writeEntry (indent + 2) n v) ++
      (if body.isEmpty then []
        else spaces indent ++ "text: ".toList ++ writeLine (indent + 2) body) ++
      (if children.isEmpty then []
        else spaces indent ++ "children:\n".toList ++ writeItems (indent + 2) children) := rfl

/-- **An element is read as the tokens of its fields**, wherever it stands. -/
theorem reads_of_survives {n : Node} (h : n.Survives) : Reads n := by
  induction h with
  | @element tag attributes body children htag hattributes _ _ hbody _ ih =>
    intro k I j r hI hdepth hj hr
    rw [Node.height] at hdepth
    -- from the last field to the first, each on top of what follows it
    have hnil : Continues k I (spaces j ++ r) [] ⟨k :: I, j, r⟩ := .nil hj hr
    have hchildren := hnil.optional children.isEmpty fun hempty =>
      hnil.under (show "children" ∈ fieldNames by decide) fun column cs hcolumn hcs =>
        lexes_children (by simpa using hempty) ih (by omega) hcolumn hcs
    have htext := hchildren.optional body.isEmpty fun _ =>
      hchildren.line (show "text" ∈ fieldNames by decide) hbody
    have hattrs := htext.optional attributes.isEmpty fun hempty =>
      htext.under (show "attrs" ∈ fieldNames by decide) fun column cs hcolumn hcs =>
        lexes_attributes (inNaturalOrder_ne_nil (by simpa using hempty))
          (fun a ha => hattributes a (mem_inNaturalOrder.1 ha)) (by omega) hcolumn hcs
    obtain ⟨column, cs, hrest, hcolumn, hcs, hlexes⟩ := hattrs
    have hword : "tag" ∈ fieldNames := by decide
    have hfirst := lexes_entry "tag" tag (.new hI (by omega)) hcolumn hcs
      (plain_words _ hword).2.2.1 htag (plainly_entryBody hword k k tag)
    have hall := hfirst.trans hlexes
    have htag : "tag: ".toList = "tag".toList ++ [':', ' '] := rfl
    rw [← hrest, entryBody_word hword] at hall
    rw [writeNode_element, fieldLexemes, htag]
    simpa only [List.append_assoc, List.cons_append, List.nil_append, List.append_nil,
      String.reduceAppend] using hall

end

end Blockwork.Yaml
