import Blockwork.Markup.Yaml.Scalar
import Blockwork.Markup.Yaml.Style

/-!
# Moving through the lines of a document

How a reader gets on is said in two ways. Within a line a cursor **passes** some characters: the
rest, the index and the column change accordingly, the line stays (`Cursor.Passes`). Over line
breaks only the rest and the column matter.

Blanks are spaces and breaks are those that stand for themselves in a text: the line feed and the
two separators. A gap of spaces stays as it is, and a gap of breaks swallows the indentation after
it.
-/

namespace Blockwork.Yaml

/-! ### Classes of characters -/

/-- A break that a text keeps: every other one is read as a line feed. -/
def isKept (x : Char) : Bool := x == '\n' || x == '\u2028' || x == '\u2029'

theorem isBreak_of_isKept {x : Char} (h : isKept x = true) : isBreak x = true := by
  unfold isKept at h
  unfold isBreak
  grind

/-- The other breaks are not shown as they are. -/
theorem isKept_of_isShown {x : Char} (hbreak : isBreak x = true) (hshown : isShown x = true) :
    isKept x = true := by
  unfold isBreak at hbreak
  simp only [Bool.or_eq_true, beq_iff_eq] at hbreak
  rcases hbreak with (((rfl | rfl) | rfl) | rfl) | rfl
  · decide
  · exact absurd hshown (by decide)
  · exact absurd hshown (by decide)
  · decide
  · decide

theorem not_isBlank_of_isBreak {x : Char} (h : isBreak x = true) : isBlank x = false := by
  unfold isBreak at h
  unfold isBlank
  grind

theorem isGap_of_isBreak {x : Char} (h : isBreak x = true) : isGap x = true := by
  unfold isGap
  rw [h, Bool.or_true]

theorem isGap_eq_false_iff {x : Char} :
    isGap x = false ↔ x ≠ ' ' ∧ x ≠ '\t' ∧ isBreak x = false := by
  unfold isGap isBlank
  simp [and_assoc]

theorem length_spaces (n : Nat) : (spaces n).length = n := List.length_replicate

theorem spaces_add (m n : Nat) : spaces (m + n) = spaces m ++ spaces n :=
  List.replicate_append_replicate.symm

theorem eq_space_of_mem_spaces {n : Nat} {x : Char} (h : x ∈ spaces n) : x = ' ' :=
  List.eq_of_mem_replicate h

/-- The longest run of a class, and what begins outside of it. -/
theorem exists_span (p : Char → Bool) (cs : List Char) : ∃ w r, cs = w ++ r ∧
    (∀ x ∈ w, p x = true) ∧ ∀ x, r.head? = some x → p x = false := by
  induction cs with
  | nil => exact ⟨[], [], rfl, nofun, nofun⟩
  | cons x cs ih =>
    cases hx : p x with
    | false =>
      exact ⟨[], x :: cs, rfl, nofun, fun y hy => Option.some.inj hy ▸ hx⟩
    | true =>
      obtain ⟨w, r, hcs, hw, hr⟩ := ih
      exact ⟨x :: w, r, by rw [hcs]; rfl, List.forall_mem_cons.2 ⟨hx, hw⟩, hr⟩

/-- The first line of a text, and the breaks after it up to the next line that is not empty. -/
theorem exists_line (cs : List Char) : ∃ line r, cs = line ++ r ∧ (∀ x ∈ line, isBreak x = false) ∧
    (r = [] ∨ ∃ b bs es, r = b :: (bs ++ es) ∧ (∀ x ∈ b :: bs, isBreak x = true) ∧
      ∀ x, es.head? = some x → isBreak x = false) := by
  obtain ⟨line, r, rfl, hline, hr⟩ := exists_span (fun x => !isBreak x) cs
  refine ⟨line, r, rfl, fun x hx => by simpa using hline x hx, ?_⟩
  cases r with
  | nil => exact .inl rfl
  | cons b r =>
    obtain ⟨bs, es, rfl, hbs, hes⟩ := exists_span isBreak r
    have hb : isBreak b = true := by simpa using hr b rfl
    exact .inr ⟨b, bs, es, rfl, List.forall_mem_cons.2 ⟨hb, hbs⟩, hes⟩

theorem eq_spaces {cs : List Char} (h : ∀ x ∈ cs, (x == ' ') = true) : cs = spaces cs.length :=
  List.eq_replicate_of_mem fun x hx => eq_of_beq (h x hx)

/-- Neighbours in a part are neighbours in the whole. -/
theorem hasPair_of_append {p q : Char → Bool} {ds es : List Char}
    (h : hasPair p q (ds ++ es) = false) : hasPair p q es = false := by
  induction ds with
  | nil => exact h
  | cons a ds ih =>
    refine ih ?_
    cases hrest : ds ++ es with
    | nil => rfl
    | cons b rest =>
      rw [List.cons_append, hrest, hasPair, Bool.or_eq_false_iff] at h
      exact h.2

theorem hasPair_middle {p q : Char → Bool} {ds es : List Char} {a b : Char}
    (h : hasPair p q (ds ++ a :: b :: es) = false) (ha : p a = true) : q b = false := by
  have hpair := hasPair_of_append h
  rw [hasPair, Bool.or_eq_false_iff, ha, Bool.true_and] at hpair
  exact hpair.1

/-- What follows begins with something else than a blank or a break. -/
def Begun (rest : List Char) : Prop := ∀ x, rest.head? = some x → isGap x = false

theorem begun_cons {x : Char} {rest : List Char} : Begun (x :: rest) ↔ isGap x = false :=
  ⟨fun h => h x rfl, fun h _ heq => Option.some.inj heq ▸ h⟩

namespace Cursor

/-! ### Within a line -/

/-- From one cursor to another the given characters are passed, none of them a break. -/
structure Passes (c : Cursor) (cs : List Char) (c' : Cursor) : Prop where
  rest : c.rest = cs ++ c'.rest
  index : c'.index = c.index + cs.length
  line : c'.line = c.line
  column : c'.column = c.column + cs.length

namespace Passes

variable {c c' c'' : Cursor} {cs ds : List Char}

theorem refl (c : Cursor) : c.Passes [] c := ⟨rfl, rfl, rfl, rfl⟩

theorem trans (h : c.Passes cs c') (h' : c'.Passes ds c'') : c.Passes (cs ++ ds) c'' where
  rest := by rw [h.rest, h'.rest, List.append_assoc]
  index := by rw [h'.index, h.index, List.length_append, Nat.add_assoc]
  line := h'.line.trans h.line
  column := by rw [h'.column, h.column, List.length_append, Nat.add_assoc]

theorem of_rest (h : c.Passes cs c') {r : List Char} (hr : c.rest = cs ++ r) : c'.rest = r :=
  (List.append_cancel_left (hr.symm.trans h.rest)).symm

theorem length_rest (h : c.Passes cs c') : c.rest.length = cs.length + c'.rest.length := by
  rw [h.rest, List.length_append]

end Passes

theorem passes_advance {c : Cursor} {x : Char} {r : List Char} (h : c.rest = x :: r) :
    c.Passes [x] c.advance := by
  unfold advance
  rw [h]
  exact ⟨h, rfl, rfl, rfl⟩

theorem passes_advanceBy {c : Cursor} {cs r : List Char} (h : c.rest = cs ++ r) :
    c.Passes cs (c.advanceBy cs.length) := by
  induction cs generalizing c with
  | nil => exact .refl c
  | cons x cs ih =>
    have hstep := passes_advance h
    exact hstep.trans (ih (hstep.of_rest h))

/-- A run of characters of a class, up to one that is not of the class. -/
theorem passes_takeWhile {c : Cursor} {p : Char → Bool} {cs r : List Char} (h : c.rest = cs ++ r)
    (hcs : ∀ x ∈ cs, p x = true) (hr : ∀ x, r.head? = some x → p x = false) :
    (c.takeWhile p).1 = cs ∧ c.Passes cs (c.takeWhile p).2 := by
  have hrun : c.rest.takeWhile p = cs := by
    rw [h, List.takeWhile_append_of_pos hcs]
    cases r with
    | nil => rw [List.takeWhile_nil, List.append_nil]
    | cons x r => rw [List.takeWhile_cons_of_neg (by simp [hr x rfl]), List.append_nil]
  unfold takeWhile
  rw [hrun]
  refine ⟨rfl, ⟨?_, rfl, rfl, rfl⟩⟩
  dsimp only
  rw [h, List.drop_left]

theorem peek?_cons {c : Cursor} {x : Char} {r : List Char} (h : c.rest = x :: r) :
    c.peek? = some x := by
  rw [peek?, h, List.head?_cons]

theorem peek?_nil {c : Cursor} (h : c.rest = []) : c.peek? = none := by
  rw [peek?, h, List.head?_nil]

theorem isAt_cons {c : Cursor} {x : Char} {r : List Char} (h : c.rest = x :: r) (y : Char) :
    c.isAt y = (x == y) := by
  rw [isAt, peek?_cons h]
  exact Option.some_beq_some

theorem endsAt_one {c : Cursor} {x y : Char} {r : List Char} (h : c.rest = x :: y :: r)
    (p : Char → Bool) : c.endsAt 1 p = p y := by
  rw [endsAt, peekAt?, h]
  rfl

/-! ### Marks of documents -/

/-- Away from the beginning of a line there is no mark. -/
theorem atIndicator_of_column {c : Cursor} (h : 0 < c.column) (x : Char) :
    c.atIndicator x = false := by
  have hne : (c.column == 0) = false := by simpa using Nat.ne_of_gt h
  rw [atIndicator, hne, Bool.false_and, Bool.false_and]

theorem atIndicator_of_head {c : Cursor} {x y : Char} {r : List Char} (h : c.rest = y :: r)
    (hne : y ≠ x) : c.atIndicator x = false := by
  have hhead : (c.rest.take 3 == [x, x, x]) = false := by
    rw [h, List.take_succ_cons]
    simp [hne]
  rw [atIndicator, hhead, Bool.and_false, Bool.false_and]

/-! ### Line breaks -/

theorem takeBreak_kept {c : Cursor} {x : Char} {r : List Char} (h : c.rest = x :: r)
    (hx : isKept x = true) :
    c.takeBreak = ([x], ⟨r, c.index + 1, c.line + 1, 0, true⟩) := by
  have hbreak := isBreak_of_isKept hx
  have hreturn : x ≠ '\r' := by
    rintro rfl
    exact absurd hx (by decide)
  -- the breaks that are kept are given back as they are
  have hsame : (if x == '\u2028' || x == '\u2029' then x else '\n') = x := by
    unfold isKept at hx
    grind
  unfold takeBreak
  rw [h]
  split
  · rename_i heq
    exact absurd (List.cons.inj heq).1 hreturn
  · rename_i heq
    obtain ⟨rfl, rfl⟩ := List.cons.inj heq
    rw [if_pos hbreak, hsame]
  · rename_i heq
    exact absurd heq (by simp)

end Cursor

/-! ### Gaps -/

namespace Gap

variable (origin : Cursor) (indent : Nat) {c : Cursor}

theorem take_begun (h : Begun c.rest) (fuel : Nat) (g : Gap) :
    take origin indent fuel g c = .ok (g, c) := by
  cases fuel with
  | zero => rfl
  | succ fuel =>
    cases hrest : c.rest with
    | nil =>
      unfold take
      rw [Cursor.peek?_nil hrest]
    | cons x r =>
      rw [hrest, begun_cons] at h
      obtain ⟨hblank, hbreak⟩ : isBlank x = false ∧ isBreak x = false := by
        rwa [isGap, Bool.or_eq_false_iff] at h
      unfold take
      rw [Cursor.peek?_cons hrest]
      simp only [hblank, hbreak, Bool.false_eq_true, if_false]

/-- Spaces within a line are kept. -/
theorem take_blanks {m : Nat} {r : List Char} (h : c.rest = spaces m ++ r) (hr : Begun r)
    {fuel : Nat} (hfuel : m ≤ fuel) (before : List Char) :
    ∃ c', take origin indent fuel (.blanks before) c = .ok (.blanks (before ++ spaces m), c') ∧
      c.Passes (spaces m) c' := by
  induction m generalizing c before fuel with
  | zero =>
    refine ⟨c, ?_, .refl c⟩
    rw [take_begun origin indent (by rw [h]; exact hr)]
    simp [spaces]
  | succ m ih =>
    obtain ⟨fuel, rfl⟩ : ∃ n, fuel = n + 1 := ⟨fuel - 1, by omega⟩
    have hrest : c.rest = ' ' :: (spaces m ++ r) := h
    have hstep := Cursor.passes_advance hrest
    obtain ⟨c', htake, hpasses⟩ := ih (hstep.of_rest hrest) (Nat.le_of_succ_le_succ hfuel)
      (before ++ [' '])
    refine ⟨c', ?_, hstep.trans hpasses⟩
    -- one space is one round
    unfold take
    rw [Cursor.peek?_cons hrest]
    change take origin indent fuel (.blanks (before ++ [' '])) c.advance = _
    rw [htake, List.append_assoc]
    rfl

/-- The indentation of a line is dropped. -/
theorem take_indentation {m : Nat} {r : List Char} (h : c.rest = spaces m ++ r) (hr : Begun r)
    {fuel : Nat} (hfuel : m ≤ fuel) (first others : List Char) :
    ∃ c', take origin indent fuel (.breaks first others) c = .ok (.breaks first others, c') ∧
      c.Passes (spaces m) c' := by
  induction m generalizing c fuel with
  | zero =>
    refine ⟨c, take_begun origin indent ?_ fuel _, .refl c⟩
    rw [h]
    exact hr
  | succ m ih =>
    obtain ⟨fuel, rfl⟩ : ∃ n, fuel = n + 1 := ⟨fuel - 1, by omega⟩
    have hrest : c.rest = ' ' :: (spaces m ++ r) := h
    have hstep := Cursor.passes_advance hrest
    obtain ⟨c', htake, hpasses⟩ := ih (hstep.of_rest hrest) (Nat.le_of_succ_le_succ hfuel)
    refine ⟨c', ?_, hstep.trans hpasses⟩
    unfold take
    rw [Cursor.peek?_cons hrest]
    exact htake

/-- Breaks after the first one are collected, and the indentation after them is dropped. -/
theorem take_breaks {bs : List Char} (hbs : ∀ x ∈ bs, isKept x = true) {m : Nat} {r : List Char}
    (h : c.rest = bs ++ (spaces m ++ r)) (hr : Begun r) (hcolumn : c.column = 0) {fuel : Nat}
    (hfuel : bs.length + m ≤ fuel) (first others : List Char) :
    ∃ c', take origin indent fuel (.breaks first others) c
        = .ok (.breaks first (others ++ bs), c') ∧
      c'.rest = r ∧ c'.column = m ∧ c.line ≤ c'.line := by
  induction bs generalizing c fuel others with
  | nil =>
    -- after the last break there is only the indentation of the next line
    obtain ⟨c', htake, hpasses⟩ := take_indentation origin indent h hr
      (show m ≤ fuel by simpa using hfuel) first others
    refine ⟨c', ?_, hpasses.of_rest h, ?_, Nat.le_of_eq hpasses.line.symm⟩
    · rw [htake, List.append_nil]
    · rw [hpasses.column, hcolumn, length_spaces, Nat.zero_add]
  | cons x bs ih =>
    obtain ⟨fuel, rfl⟩ : ∃ n, fuel = n + 1 := ⟨fuel - 1, by simp at hfuel; omega⟩
    have hx := hbs x List.mem_cons_self
    have hbreak := isBreak_of_isKept hx
    obtain ⟨c', htake, hrest, hcolumn', hline⟩ := ih
      (c := ⟨bs ++ (spaces m ++ r), c.index + 1, c.line + 1, 0, true⟩)
      (fun y hy => hbs y (List.mem_cons_of_mem x hy)) rfl rfl
      (show bs.length + m ≤ fuel by simp at hfuel; omega) (others ++ [x])
    refine ⟨c', ?_, hrest, hcolumn', Nat.le_of_succ_le hline⟩
    -- a break is one round, and the line begins again
    unfold take
    rw [Cursor.peek?_cons h, Cursor.takeBreak_kept h hx]
    simp only [not_isBlank_of_isBreak hbreak, hbreak, Bool.false_eq_true, if_false, if_true]
    refine htake.trans ?_
    rw [List.append_assoc, List.singleton_append]

/-- A gap that begins with a break. -/
theorem take_break {b : Char} (hb : isKept b = true) (bs : List Char)
    (hbs : ∀ x ∈ bs, isKept x = true) {m : Nat} {r : List Char}
    (h : c.rest = b :: (bs ++ (spaces m ++ r))) (hr : Begun r) {fuel : Nat}
    (hfuel : bs.length + m < fuel) :
    ∃ c', take origin indent fuel (.blanks []) c = .ok (.breaks [b] bs, c') ∧
      c'.rest = r ∧ c'.column = m ∧ c.line < c'.line := by
  obtain ⟨fuel, rfl⟩ : ∃ n, fuel = n + 1 := ⟨fuel - 1, by omega⟩
  have hbreak := isBreak_of_isKept hb
  obtain ⟨c', htake, hresult⟩ := take_breaks origin indent hbs
    (c := ⟨bs ++ (spaces m ++ r), c.index + 1, c.line + 1, 0, true⟩) rfl hr rfl
    (Nat.le_of_lt_succ hfuel) [b] []
  refine ⟨c', ?_, hresult⟩
  unfold take
  rw [Cursor.peek?_cons h, Cursor.takeBreak_kept h hb]
  simp only [not_isBlank_of_isBreak hbreak, hbreak, Bool.false_eq_true, if_false, if_true]
  exact htake

end Gap

end Blockwork.Yaml
