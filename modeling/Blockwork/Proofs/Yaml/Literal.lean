import Blockwork.Proofs.Yaml.Cursor

/-!
# Literal blocks are read as they are written

A text is written line by line at one indentation, after a header that closes with a line feed. The
reader knows the indentation from the first line, or from the header when the text begins with a
space. The text is taken apart into a **core** that ends with no break and the breaks after it: the
core is read line by line (`takeLines_core`), and what becomes of the breaks is in the header.

This needs a text that begins neither with a break, whose line the closing of the header takes away,
nor with a tab, which the reader refuses before the text (`takeBlock_literal`).
-/

namespace Blockwork.Yaml

/-! ### The header -/

/-- The mark in a header. -/
def Chomping.mark : Chomping → List Char
  | strip => ['-']
  | clip => []
  | keep => ['+']

/-- **A header is read as it is written.** -/
theorem takeHeader_eq (origin : Cursor) (indented : Bool) (ch : Chomping) {c : Cursor}
    {r : List Char} (hc : c.rest = (if indented then ['2'] else []) ++ ch.mark ++ '\n' :: r) :
    ∃ c', takeHeader origin c = .ok (ch, if indented then 2 else 0, c') ∧ c'.rest = r ∧
      c'.column = 0 := by
  obtain ⟨rest, index, line, column, fresh⟩ := c
  dsimp only at hc
  subst hc
  cases indented <;> cases ch <;> exact ⟨_, rfl, rfl, rfl⟩

/-! ### Empty lines -/

section

variable (origin : Cursor) {indent : Nat} {c : Cursor} {r : List Char}

theorem length_takeWhile_spaces (m : Nat) (r : List Char) :
    ((spaces m ++ r).takeWhile (· == ' ')).length = m + (r.takeWhile (· == ' ')).length := by
  rw [List.takeWhile_append_of_pos fun x hx => by rw [eq_space_of_mem_spaces hx]; rfl,
    List.length_append, length_spaces]

/-- At a line with something on it, so much of its indentation is dropped as the reader takes. -/
theorem takeEmptyLines_at {m : Nat} (hc : c.rest = spaces m ++ r) (hcolumn : c.column = 0)
    (hm : m = if indent = 0 then (c.rest.takeWhile (· == ' ')).length
      else min (c.rest.takeWhile (· == ' ')).length indent)
    (htab : indent = 0 ∨ m < indent → r.head? ≠ some '\t')
    (hbreak : ∀ x, r.head? = some x → isBreak x = false) (fuel deepest : Nat) :
    ∃ c', takeEmptyLines origin indent (fuel + 1) deepest c = .ok ([], max deepest m, c') ∧
      c'.rest = r ∧ c'.column = m := by
  have hpasses := Cursor.passes_advanceBy hc
  rw [length_spaces] at hpasses
  have hrest := hpasses.of_rest hc
  have hcolumn' : (c.advanceBy m).column = m := by
    rw [hpasses.column, hcolumn, length_spaces, Nat.zero_add]
  refine ⟨c.advanceBy m, ?_, hrest, hcolumn'⟩
  -- what follows the indentation is neither a break nor a tab that stands in its place
  have hpeek : (c.advanceBy m).peek? = r.head? := by rw [Cursor.peek?, hrest]
  have hlines : (r.head?.any isBreak) = false := by
    cases hhead : r.head? with
    | none => rfl
    | some x => exact hbreak x hhead
  have htabs : ((decide (indent = 0) || decide (m < indent)) && r.head? == some '\t') = false := by
    rw [Bool.and_eq_false_iff, beq_eq_false_iff_ne]
    by_cases hshort : indent = 0 ∨ m < indent
    · exact .inr (htab hshort)
    · exact .inl (by simpa using hshort)
  rw [takeEmptyLines, hcolumn, Nat.sub_zero, ← hm, Cursor.isAt, hpeek, hcolumn', htabs, hlines]
  rfl

variable {y : Char} (hy : isBreak y = false)

include hy in
/-- A line at the indentation of the block. -/
theorem takeEmptyLines_line (hindent : 0 < indent) (hc : c.rest = spaces indent ++ y :: r)
    (hcolumn : c.column = 0) (fuel deepest : Nat) :
    ∃ c', takeEmptyLines origin indent (fuel + 1) deepest c = .ok ([], max deepest indent, c') ∧
      c'.rest = y :: r ∧ c'.column = indent := by
  refine takeEmptyLines_at origin hc hcolumn ?_ (by omega) (fun x hx => ?_) fuel deepest
  · rw [if_neg (by omega), hc, length_takeWhile_spaces]
    omega
  · rwa [← Option.some.inj hx]

/-- The line after the block. -/
theorem takeEmptyLines_end {j : Nat} (hj : j < indent) (hr : Begun r) (hc : c.rest = spaces j ++ r)
    (hcolumn : c.column = 0) (fuel deepest : Nat) :
    ∃ c', takeEmptyLines origin indent (fuel + 1) deepest c = .ok ([], max deepest j, c') ∧
      c'.rest = r ∧ c'.column = j := by
  have hhead : ∀ x, r.head? = some x → x ≠ ' ' ∧ x ≠ '\t' ∧ isBreak x = false := fun x hx =>
    isGap_eq_false_iff.1 (hr x hx)
  refine takeEmptyLines_at origin hc hcolumn ?_ (fun _ hx => (hhead _ hx).2.1 rfl)
    (fun x hx => (hhead x hx).2.2) fuel deepest
  have hcount : (r.takeWhile (· == ' ')).length = 0 := by
    cases r with
    | nil => rfl
    | cons x r => rw [List.takeWhile_cons_of_neg (by simpa using (hhead x rfl).1)]; rfl
  rw [if_neg (by omega), hc, length_takeWhile_spaces, hcount]
  omega

/-- The first line of a block whose indentation is not given. -/
theorem takeEmptyLines_first {m : Nat} (hy : isGap y = false) (hc : c.rest = spaces m ++ y :: r)
    (hcolumn : c.column = 0) (fuel deepest : Nat) :
    ∃ c', takeEmptyLines origin 0 (fuel + 1) deepest c = .ok ([], max deepest m, c') ∧
      c'.rest = y :: r ∧ c'.column = m := by
  obtain ⟨hspace, htab, hbreak⟩ := isGap_eq_false_iff.1 hy
  refine takeEmptyLines_at origin hc hcolumn ?_ (fun _ hx => htab (Option.some.inj hx))
    (fun x hx => Option.some.inj hx ▸ hbreak) fuel deepest
  rw [if_pos rfl, hc, length_takeWhile_spaces, List.takeWhile_cons_of_neg (by simpa using hspace)]
  rfl

/-- Empty lines before. -/
theorem takeEmptyLines_breaks (indent : Nat) {bs : List Char} (hbs : ∀ x ∈ bs, isKept x = true)
    (hc : c.rest = bs ++ r) (hcolumn : c.column = 0) (fuel deepest : Nat) :
    ∃ c', c'.rest = r ∧ c'.column = 0 ∧
      takeEmptyLines origin indent (fuel + bs.length) deepest c
        = (takeEmptyLines origin indent fuel deepest c').map fun (empty, d, c) =>
            (bs ++ empty, d, c) := by
  induction bs generalizing c with
  | nil =>
    refine ⟨c, hc, hcolumn, ?_⟩
    cases takeEmptyLines origin indent fuel deepest c <;> rfl
  | cons b bs ih =>
    have hb := hbs b List.mem_cons_self
    -- a break begins a line without indentation
    have hspace : (b == ' ') = false := by
      rw [beq_eq_false_iff_ne]
      rintro rfl
      exact absurd hb (by decide)
    obtain ⟨c', hrest, hcolumn', hread⟩ := ih (c := ⟨bs ++ r, c.index + 1, c.line + 1, 0, true⟩)
      (fun x hx => hbs x (List.mem_cons_of_mem b hx)) rfl rfl
    refine ⟨c', hrest, hcolumn', ?_⟩
    replace hc : c.rest = b :: (bs ++ r) := hc
    have hcount : (c.rest.takeWhile (· == ' ')).length = 0 := by
      rw [hc, List.takeWhile_cons_of_neg (by simp [hspace]), List.length_nil]
    have hstay : c.advanceBy (if indent = 0 then 0 else min 0 (indent - c.column)) = c := by
      simp only [Nat.zero_min, ite_self]
      rfl
    have htab : c.isAt '\t' = false := by
      rw [Cursor.isAt_cons hc, beq_eq_false_iff_ne]
      rintro rfl
      exact absurd hb (by decide)
    rw [List.length_cons, ← Nat.add_assoc, takeEmptyLines, hcount, hstay, htab,
      Cursor.peek?_cons hc, Cursor.takeBreak_kept hc hb, hcolumn, Nat.max_zero]
    simp only [Bool.and_false, Bool.false_eq_true, if_false, Option.any_some,
      isBreak_of_isKept hb, if_true, hread]
    cases takeEmptyLines origin indent fuel deepest c' <;> rfl

/-- What comes after the breaks at the end of a line: the next line of the block that is not empty,
or something that is less indented. -/
def GoesAfter (indent m : Nat) (r : List Char) : Prop :=
  (m = indent ∧ ∃ y r', r = y :: r' ∧ isBreak y = false) ∨ (m < indent ∧ Begun r)

theorem takeEmptyLines_next {bs : List Char} (hbs : ∀ x ∈ bs, isKept x = true) {m : Nat}
    (hindent : 0 < indent) (hnext : GoesAfter indent m r) (hc : c.rest = bs ++ (spaces m ++ r))
    (hcolumn : c.column = 0) {fuel : Nat} (hfuel : bs.length < fuel) (deepest : Nat) :
    ∃ d c', takeEmptyLines origin indent fuel deepest c = .ok (bs, d, c') ∧ c'.rest = r ∧
      c'.column = m := by
  obtain ⟨fuel, rfl⟩ : ∃ k, fuel = k + 1 + bs.length := ⟨fuel - 1 - bs.length, by omega⟩
  obtain ⟨c₁, hrest, hcolumn₁, hread⟩ := takeEmptyLines_breaks origin indent hbs hc
    hcolumn (fuel + 1) deepest
  obtain ⟨d, c', hlast, hresult⟩ : ∃ d c', takeEmptyLines origin indent (fuel + 1) deepest c₁
      = .ok ([], d, c') ∧ c'.rest = r ∧ c'.column = m := by
    rcases hnext with ⟨rfl, y, r, rfl, hy⟩ | ⟨hm, hr⟩
    · exact ⟨_, takeEmptyLines_line origin hy hindent hrest hcolumn₁ fuel deepest⟩
    · exact ⟨_, takeEmptyLines_end origin hm hr hrest hcolumn₁ fuel deepest⟩
  refine ⟨d, c', ?_, hresult⟩
  rw [hread, hlast]
  change Except.ok (bs ++ [], d, c') = _
  rw [List.append_nil]

/-! ### Lines -/

/-- One line of the block and the breaks after it. -/
theorem takeLines_line {line bs : List Char} {b : Char} (hline : ∀ x ∈ line, isBreak x = false)
    (hb : isKept b = true) (hbs : ∀ x ∈ bs, isKept x = true) {m : Nat} (hindent : 0 < indent)
    (hnext : GoesAfter indent m r) (hc : c.rest = line ++ b :: (bs ++ (spaces m ++ r)))
    (hcolumn : c.column = indent) (fuel : Nat) (text ended empty : List Char) (blank : Bool) :
    ∃ c' blank', c'.rest = r ∧ c'.column = m ∧
      takeLines true origin indent (fuel + 1) text ended empty blank c
        = takeLines true origin indent fuel (text ++ ended ++ empty ++ line) [b] bs blank' c' := by
  -- there is a line, which goes up to its break
  have hmore : c.rest.isEmpty = false := by
    rw [hc, List.isEmpty_eq_false_iff]
    simp
  obtain ⟨hrun, hpasses⟩ := Cursor.passes_takeWhile (p := fun x => !isBreak x) hc
    (fun x hx => by rw [hline x hx]; rfl)
    (fun x hx => by rw [← Option.some.inj hx, isBreak_of_isKept hb]; rfl)
  have hbreak := Cursor.takeBreak_kept (hpasses.of_rest hc) hb
  have hfuel : bs.length < (bs ++ (spaces m ++ r)).length + 1 := by
    rw [List.length_append]
    omega
  -- the empty lines after it end where the indentation of the next line ends
  have hempty := takeEmptyLines_next origin hbs hindent hnext
    (c := ((c.takeWhile fun x => !isBreak x).2.takeBreak).2) (by rw [hbreak]) (by rw [hbreak])
    hfuel 0
  rw [hbreak] at hempty
  obtain ⟨d, c', hempty, hrest, hcolumn'⟩ := hempty
  refine ⟨c', c.peek?.any isBlank, hrest, hcolumn', ?_⟩
  rw [takeLines, hcolumn, hmore]
  simp only [ne_eq, not_true_eq_false, Bool.false_eq_true, if_false, Bool.not_true,
    Bool.false_and, hrun, hbreak, hempty, decide_false, Bool.or_self]

end

section

variable {indent : Nat}

theorem literalBody_break {x : Char} (hx : isBreak x = true) (afterBreak : Bool) (r : List Char) :
    literalBody indent false afterBreak (x :: r) = x :: literalBody indent false true r := by
  rw [literalBody, if_pos hx]

theorem literalBody_line {w : List Char} (hw : ∀ x ∈ w, isBreak x = false) (r : List Char) :
    literalBody indent false false (w ++ r) = w ++ literalBody indent false false r := by
  induction w with
  | nil => rfl
  | cons x w ih =>
    rw [List.cons_append, literalBody, hw x List.mem_cons_self,
      ih fun y hy => hw y (List.mem_cons_of_mem x hy)]
    rfl

theorem literalBody_breaks {bs : List Char} (hbs : ∀ x ∈ bs, isBreak x = true) (r : List Char) :
    literalBody indent false true (bs ++ r) = bs ++ literalBody indent false true r := by
  induction bs with
  | nil => rfl
  | cons x bs ih =>
    rw [List.cons_append, literalBody_break (hbs x List.mem_cons_self),
      ih fun y hy => hbs y (List.mem_cons_of_mem x hy)]
    rfl

/-- The breaks at the end stay as they are. -/
theorem literalBody_append {ending : List Char} (hending : ∀ x ∈ ending, isBreak x = true)
    (afterBreak : Bool) (cs : List Char) :
    literalBody indent false afterBreak (cs ++ ending)
      = literalBody indent false afterBreak cs ++ ending := by
  induction cs generalizing afterBreak with
  | nil =>
    cases ending with
    | nil => rfl
    -- the first break at the end closes a line, and the others are lines of their own
    | cons x ending =>
      have hrest : literalBody indent false true (ending ++ [])
          = ending ++ literalBody indent false true [] :=
        literalBody_breaks (fun y hy => hending y (List.mem_cons_of_mem x hy)) []
      rw [List.append_nil] at hrest
      rw [List.nil_append, literalBody_break (hending x List.mem_cons_self), hrest]
      simp [literalBody]
  | cons x cs ih =>
    rw [List.cons_append, literalBody, literalBody, ih, ih]
    split
    · rfl
    · simp only [List.append_assoc, List.cons_append]

theorem length_le_literalBody (afterBreak : Bool) (cs : List Char) :
    cs.length ≤ (literalBody indent false afterBreak cs).length := by
  induction cs generalizing afterBreak with
  | nil => exact Nat.le_refl 0
  | cons x cs ih =>
    have hthen := ih true
    have helse := ih false
    rw [literalBody]
    split
    · rw [List.length_cons, List.length_cons]
      omega
    · rw [List.length_append, List.length_append, List.length_cons, List.length_cons]
      omega

theorem literalBody_cons {y : Char} (hy : isBreak y = false) (r : List Char) :
    literalBody indent false false (y :: r) = y :: literalBody indent false false r := by
  rw [literalBody, hy]
  rfl

theorem literalBody_indented {y : Char} (hy : isBreak y = false) (r : List Char) :
    literalBody indent false true (y :: r)
      = spaces indent ++ literalBody indent false false (y :: r) := by
  rw [literalBody, literalBody, hy]
  rfl

end

/-- The part of a text before the breaks at its end. -/
structure Core (cs : List Char) : Prop where
  ne_nil : cs ≠ []
  head : ∀ x, cs.head? = some x → isBreak x = false
  last : ∀ x, cs.getLast? = some x → isBreak x = false
  kept : ∀ x ∈ cs, isBreak x = true → isKept x = true

/-- A core does not end with a break, so breaks in it are followed by another line. -/
theorem Core.next {line bs es : List Char} {b : Char} (h : Core (line ++ b :: (bs ++ es)))
    (hbreaks : ∀ x ∈ b :: bs, isBreak x = true)
    (hes : ∀ x, es.head? = some x → isBreak x = false) : Core es where
  ne_nil := by
    rintro rfl
    obtain ⟨before, a, ha⟩ := (List.eq_nil_or_concat (b :: bs)).resolve_left
      (List.cons_ne_nil b bs)
    have hlast := h.last a (by
      rw [List.append_nil, ha, List.concat_eq_append, ← List.append_assoc]
      exact List.getLast?_concat)
    rw [hbreaks a (by rw [ha]; simp)] at hlast
    exact absurd hlast (by decide)
  head := hes
  last x hx := by
    refine h.last x ?_
    rw [← List.cons_append, List.getLast?_append, List.getLast?_append, hx]
    rfl
  kept x hx := h.kept x (List.mem_append_right line (List.mem_append_right (b :: bs) hx))

theorem Core.exists_cons {cs : List Char} (h : Core cs) :
    ∃ y ds, cs = y :: ds ∧ isBreak y = false := by
  obtain ⟨y, ds, rfl⟩ := List.exists_cons_of_ne_nil h.ne_nil
  exact ⟨y, ds, rfl, h.head y rfl⟩

/-- **The core of a block is read line by line**, and the breaks after it are kept apart. -/
theorem takeLines_core (origin : Cursor) {indent j : Nat} (hj : j < indent) {b : Char}
    {bs s : List Char} (hb : isKept b = true) (hbs : ∀ x ∈ bs, isKept x = true) (hs : Begun s)
    (n : Nat) :
    ∀ (core : List Char) (c : Cursor) (fuel : Nat) (text ended empty : List Char) (blank : Bool),
      core.length = n → Core core →
      c.rest = literalBody indent false false core ++ b :: (bs ++ (spaces j ++ s)) →
      c.column = indent → core.length < fuel →
      ∃ c', takeLines true origin indent fuel text ended empty blank c
          = .ok (text ++ ended ++ empty ++ core, [b], bs, c') ∧ c'.rest = s ∧ c'.column = j := by
  induction n using Nat.strongRecOn with
  | _ n ih =>
    intro core c fuel text ended empty blank hlength hcore hc hcolumn hfuel
    have hindent : 0 < indent := by omega
    obtain ⟨fuel, rfl⟩ : ∃ k, fuel = k + 1 := ⟨fuel - 1, by omega⟩
    obtain ⟨line, r, rfl, hline, rfl | ⟨b', bs', es, rfl, hbreaks, hes⟩⟩ := exists_line core
    · -- after the last line the cursor stands left of the block, and reading ends
      rw [literalBody_line hline, literalBody, List.append_nil] at hc
      rw [List.append_nil]
      obtain ⟨c', blank', hrest, hcolumn', hread⟩ := takeLines_line origin hline hb hbs
        hindent (.inr ⟨hj, hs⟩) hc hcolumn fuel text ended empty blank
      refine ⟨c', ?_, hrest, hcolumn'⟩
      rw [hread]
      cases fuel with
      | zero => rfl
      | succ fuel =>
        rw [takeLines, if_pos]
        simp [hcolumn', Nat.ne_of_lt hj]
    · -- the line after the breaks begins a shorter core
      have hkept : ∀ x ∈ b' :: bs', isKept x = true := fun x hx =>
        hcore.kept x (List.mem_append_right line (List.mem_append_left es hx)) (hbreaks x hx)
      have hnext := hcore.next hbreaks hes
      obtain ⟨y, ds, rfl, hy⟩ := hnext.exists_cons
      have hrest : c.rest = line ++ b' :: (bs' ++ (spaces indent ++
          (literalBody indent false false (y :: ds) ++ b :: (bs ++ (spaces j ++ s))))) := by
        rw [hc, literalBody_line hline, literalBody_break (hbreaks b' List.mem_cons_self),
          literalBody_breaks fun x hx => hbreaks x (List.mem_cons_of_mem b' hx),
          literalBody_indented hy]
        simp only [List.append_assoc, List.cons_append]
      -- the next line is indented as much as the block, so it belongs to it
      have hafter : GoesAfter indent indent
          (literalBody indent false false (y :: ds) ++ b :: (bs ++ (spaces j ++ s))) := by
        rw [literalBody_cons hy]
        exact .inl ⟨rfl, y, _, rfl, hy⟩
      obtain ⟨c₁, blank', hrest₁, hcolumn₁, hread⟩ := takeLines_line origin hline
        (hkept b' List.mem_cons_self) (fun x hx => hkept x (List.mem_cons_of_mem b' hx)) hindent
        hafter hrest hcolumn fuel text ended empty blank
      rw [List.length_append, List.length_cons, List.length_append] at hlength hfuel
      -- the breaks behind this line are handed on; they come before the text of the next line
      obtain ⟨c', hend, hresult⟩ := ih (y :: ds).length (by omega) (y :: ds) c₁ fuel
        (text ++ ended ++ empty ++ line) [b'] bs' blank' rfl hnext hrest₁ hcolumn₁ (by omega)
      refine ⟨c', ?_, hresult⟩
      rw [hread, hend]
      simp only [List.append_assoc, List.cons_append, List.nil_append]

/-! ### Blocks -/

/-- The breaks at the end of a text are what its header is about. -/
theorem exists_core {cs : List Char} (hne : cs ≠ [])
    (hhead : ∀ x, cs.head? = some x → isBreak x = false)
    (hkept : ∀ x ∈ cs, isBreak x = true → isKept x = true) :
    ∃ core ending, cs = core ++ ending ∧ Core core ∧ ∀ x ∈ ending, isBreak x = true := by
  -- the breaks are taken off from behind
  obtain ⟨ending, core, hcs, hending, hcore⟩ := exists_span isBreak cs.reverse
  have hsplit : cs = core.reverse ++ ending.reverse := by
    rw [← List.reverse_append, ← hcs, List.reverse_reverse]
  -- the text begins with something else, so a core is left
  have hcore_ne : core.reverse ≠ [] := by
    intro hnil
    obtain ⟨y, ds, rfl⟩ := List.exists_cons_of_ne_nil hne
    rw [hnil, List.nil_append] at hsplit
    have hy : isBreak y = true := hending y (by rw [← List.mem_reverse, ← hsplit]; simp)
    exact absurd (hhead y rfl) (by simp [hy])
  refine ⟨core.reverse, ending.reverse, hsplit, ⟨hcore_ne, fun x hx => ?_, fun x hx => ?_,
    fun x hx => ?_⟩, fun x hx => hending x (List.mem_reverse.1 hx)⟩
  · refine hhead x ?_
    rw [hsplit, List.head?_append, hx]
    rfl
  · rw [List.getLast?_reverse] at hx
    exact hcore x hx
  · refine hkept x ?_
    rw [hsplit]
    exact List.mem_append_left _ hx

/-- What the header says about the breaks at the end of a text. -/
def Chomping.ofEnd : List Char → Chomping
  | [] => strip
  | [_] => clip
  | _ => keep

theorem literalMarks_append {core ending : List Char} (hcore : Core core)
    (hending : ∀ x ∈ ending, isBreak x = true) :
    literalMarks (core ++ ending)
      = (if core.head? == some ' ' then ['2'] else []) ++ (Chomping.ofEnd ending).mark := by
  obtain ⟨y, ds, rfl, hy⟩ := hcore.exists_cons
  have hfirst : ((y :: ds ++ ending).head?.any isSpaceOrBreak) = ((y :: ds).head? == some ' ') := by
    simp [isSpaceOrBreak, hy]
  obtain ⟨before, z, hz⟩ := (List.eq_nil_or_concat (y :: ds)).resolve_left hcore.ne_nil
  have hlast : isBreak z = false := by
    refine hcore.last z ?_
    rw [hz, List.concat_eq_append]
    exact List.getLast?_concat
  have hreverse : (y :: ds ++ ending).reverse = ending.reverse ++ z :: before.reverse := by
    rw [List.reverse_append, hz, List.concat_eq_append, List.reverse_append]
    rfl
  rw [literalMarks, hfirst, hreverse]
  congr 1
  -- the last two characters tell no break, one break and more breaks apart
  rcases List.eq_nil_or_concat ending with rfl | ⟨bs, b, rfl⟩
  · cases hbefore : before.reverse <;> simp [hlast, Chomping.ofEnd, Chomping.mark]
  · rw [List.concat_eq_append] at hending ⊢
    have hb : isBreak b = true := hending b (by simp)
    rcases List.eq_nil_or_concat bs with rfl | ⟨ds', d, rfl⟩
    · simp [hb, hlast, Chomping.ofEnd, Chomping.mark]
    · have hd : isBreak d = true := hending d (by simp)
      have hkeep : Chomping.ofEnd (ds'.concat d ++ [b]) = .keep := by
        cases ds' with
        | nil => rfl
        | cons x xs => cases xs <;> rfl
      rw [hkeep, List.concat_eq_append, List.reverse_append, List.reverse_append]
      simp [hb, hd, Chomping.mark]

/-- The characters that begin the lines of a block, after its header. -/
theorem writeLiteral_append {core ending : List Char} (hcore : Core core)
    (hending : ∀ x ∈ ending, isBreak x = true) (indent : Nat) :
    writeLiteral indent (core ++ ending)
      = '|' :: ((if core.head? == some ' ' then ['2'] else []) ++ (Chomping.ofEnd ending).mark ++
          '\n' :: (spaces indent ++ (literalBody indent false false core ++ ending))) := by
  have hbody : literalBody indent true true (core ++ ending)
      = '\n' :: (spaces indent ++ (literalBody indent false false core ++ ending)) := by
    obtain ⟨y, ds, rfl, hy⟩ := hcore.exists_cons
    rw [← literalBody_append hending false (y :: ds), List.cons_append, literalBody_cons hy,
      literalBody, hy]
    simp only [Bool.false_eq_true, if_false, if_true, List.cons_append, List.nil_append]
  rw [writeLiteral, literalMarks_append hcore hending, hbody]
  rfl

/-- The breaks after the core on the page, and what the header makes of them. -/
theorem exists_ending {core ending : List Char} (hcore : Core core)
    (hending : ∀ x ∈ ending, isKept x = true) :
    ∃ b bs, ending ++ (if (core ++ ending).getLast?.any isBreak then [] else ['\n']) = b :: bs ∧
      (∀ x ∈ b :: bs, isKept x = true) ∧
      (match Chomping.ofEnd ending with
        | .strip => core
        | .clip => core ++ [b]
        | .keep => core ++ [b] ++ bs) = core ++ ending := by
  rcases List.eq_nil_or_concat ending with rfl | ⟨before, z, hz⟩
  · -- without breaks at the end the line feed is one that the page needs
    have hlast : (core ++ []).getLast?.any isBreak = false := by
      rw [List.append_nil]
      cases hx : core.getLast? with
      | none => rfl
      | some x => exact hcore.last x hx
    rw [hlast]
    exact ⟨'\n', [], rfl, List.forall_mem_singleton.2 (by decide), (List.append_nil core).symm⟩
  · -- otherwise the first break ends the core, and the header says what becomes of the others
    have hlast : (core ++ ending).getLast?.any isBreak = true := by
      have hbreak : isBreak z = true := isBreak_of_isKept (hending z (by rw [hz]; simp))
      rw [hz, List.concat_eq_append, ← List.append_assoc, List.getLast?_concat]
      exact hbreak
    obtain ⟨b, bs, rfl⟩ := List.exists_cons_of_ne_nil (l := ending) (by rw [hz]; simp)
    rw [hlast]
    refine ⟨b, bs, List.append_nil _, hending, ?_⟩
    cases bs with
    | nil => rfl
    | cons b' bs => exact List.append_assoc core [b] (b' :: bs)

/-- The indentation of a block: from its header, or from its first line. -/
theorem takeEmptyLines_opening (origin : Cursor) {c : Cursor} {k : Nat} {y : Char}
    {r : List Char} (hbreak : isBreak y = false) (htab : y ≠ '\t')
    (hc : c.rest = spaces (k + 2) ++ y :: r) (hcolumn : c.column = 0) (fuel : Nat) :
    ∃ c', takeEmptyLines origin (if y == ' ' then k + 2 else 0) (fuel + 1) 0 c
        = .ok ([], k + 2, c') ∧ c'.rest = y :: r ∧ c'.column = k + 2 := by
  have hdeepest : max 0 (k + 2) = k + 2 := Nat.zero_max _
  by_cases hspace : y = ' '
  · have hline := takeEmptyLines_line origin hbreak (Nat.succ_pos (k + 1)) hc hcolumn fuel 0
    rw [hdeepest] at hline
    rwa [if_pos (beq_iff_eq.2 hspace)]
  · have hfirst := takeEmptyLines_first origin (isGap_eq_false_iff.2 ⟨hspace, htab, hbreak⟩) hc
      hcolumn fuel 0
    rw [hdeepest] at hfirst
    rwa [if_neg (by rwa [beq_iff_eq])]

/-- **A literal block is read as it is written**, if the text begins with neither a break nor a
tab. -/
theorem takeBlock_literal (origin : Cursor) {k j : Nat} (hj : j < k + 2) {cs s : List Char}
    (hne : cs ≠ []) (hkept : ∀ x ∈ cs, isBreak x = true → isKept x = true)
    (hstart : ∀ x, cs.head? = some x → isBreak x = false ∧ x ≠ '\t') (hs : Begun s)
    (hc : origin.rest = writeLiteral (k + 2) cs ++
      ((if cs.getLast?.any isBreak then [] else ['\n']) ++ (spaces j ++ s))) :
    ∃ c', takeBlock true (some k) origin = .ok (cs, c') ∧ c'.rest = s ∧ c'.column = j := by
  obtain ⟨core, ending, rfl, hcore, hending⟩ := exists_core hne (fun x hx => (hstart x hx).1) hkept
  obtain ⟨b, bs, hbs, hall, hwhole⟩ := exists_ending hcore fun x hx =>
    hkept x (List.mem_append_right core hx) (hending x hx)
  obtain ⟨y, ds, rfl, hbreak⟩ := hcore.exists_cons
  obtain ⟨-, htab⟩ := hstart y rfl
  -- the mark, the header and the lines, the first of which begins the core
  have hlines : origin.advance.rest = (if y == ' ' then ['2'] else []) ++
      (Chomping.ofEnd ending).mark ++ '\n' :: (spaces (k + 2) ++
        (literalBody (k + 2) false false (y :: ds) ++ b :: (bs ++ (spaces j ++ s)))) := by
    rw [writeLiteral_append hcore hending] at hc
    rw [(Cursor.passes_advance hc).of_rest hc]
    have hend := congrArg (· ++ (spaces j ++ s)) hbs
    simp only [List.append_assoc, List.cons_append] at hend
    simp only [List.append_assoc, List.cons_append, List.append_eq, List.head?_cons,
      Option.some_beq_some, hend]
    rfl
  -- the header is read
  obtain ⟨c₁, hheader, hrest₁, hcolumn₁⟩ := takeHeader_eq origin _ _ hlines
  rw [literalBody_cons hbreak] at hrest₁
  -- then the indentation of the first line, which the header says or the line shows
  obtain ⟨c₂, hempty, hrest₂, hcolumn₂⟩ := takeEmptyLines_opening origin hbreak htab hrest₁
    hcolumn₁ c₁.rest.length
  replace hrest₂ : c₂.rest
      = literalBody (k + 2) false false (y :: ds) ++ b :: (bs ++ (spaces j ++ s)) := by
    rw [hrest₂, literalBody_cons hbreak]
    rfl
  have hfuel : (y :: ds).length < c₂.rest.length + 1 := by
    have hlength : (y :: ds).length ≤ (literalBody (k + 2) false false (y :: ds)).length :=
      length_le_literalBody false (y :: ds)
    rw [hrest₂, List.length_append]
    omega
  -- then the lines, to the breaks at the end
  obtain ⟨c₃, hread, hresult⟩ := takeLines_core origin hj (hall b List.mem_cons_self)
    (fun x hx => hall x (List.mem_cons_of_mem b hx)) hs (y :: ds).length (y :: ds) c₂
    (c₂.rest.length + 1) [] [] [] false rfl hcore hrest₂ hcolumn₂ hfuel
  refine ⟨c₃, ?_, hresult⟩
  -- the indentation that the header says counts from that of the block around
  have hfixed : (if (if (y == ' ') = true then 2 else 0) = 0 then 0
      else k + (if (y == ' ') = true then 2 else 0)) = if (y == ' ') = true then k + 2 else 0 := by
    cases y == ' ' <;> rfl
  have hindent : (if (if (y == ' ') = true then k + 2 else 0) = 0 then max (k + 2) (max 1 (k + 1))
      else if (y == ' ') = true then k + 2 else 0) = k + 2 := by
    cases y == ' '
    · exact Nat.max_eq_left (by omega)
    · rfl
  rw [takeBlock, hheader]
  simp only [bind, Except.bind, Option.getD_some, hfixed, hempty, hindent, hread]
  rw [← hwhole]
  cases Chomping.ofEnd ending <;> rfl

end Blockwork.Yaml
