import Blockwork.Proofs.Yaml.Input
import Blockwork.Proofs.Yaml.Layout

/-!
# From bytes to tokens

A written tree holds only characters that a document may hold as they are, so its bytes are read as
its characters; these are gone through to their end, and the end closes the mapping of the root.
-/

namespace Blockwork.Yaml

/-! ### Characters on the page -/

/-- A document may hold the characters as they are. -/
def Allowed (cs : List Char) : Prop := ∀ x ∈ cs, isAllowed x.toNat = true

theorem allowed_append {cs ds : List Char} : Allowed (cs ++ ds) ↔ Allowed cs ∧ Allowed ds :=
  List.forall_mem_append

theorem allowed_cons {x : Char} {cs : List Char} :
    Allowed (x :: cs) ↔ isAllowed x.toNat = true ∧ Allowed cs :=
  List.forall_mem_cons

theorem allowed_nil : Allowed [] := nofun

theorem isAllowed_of_isShown {x : Char} (h : isShown x = true) : isAllowed x.toNat = true := by
  have hsurrogate := Text.not_surrogate x
  unfold isShown at h
  unfold isAllowed
  simp only [Bool.or_eq_true, Bool.and_eq_true, beq_iff_eq, decide_eq_true_eq, bne_iff_ne] at h ⊢
  omega

theorem allowed_spaces (m : Nat) : Allowed (spaces m) := by
  intro x hx
  rw [eq_space_of_mem_spaces hx]
  rfl

theorem allowed_upperHex (width n : Nat) : Allowed (upperHex width n) := by
  unfold upperHex
  induction width generalizing n with
  | zero => exact allowed_nil
  | succ width ih =>
    have hdigit : ∀ d < 16, isAllowed (Text.hexDigit d).toUpper.toNat = true := by decide
    rw [Text.hexDigits, List.map_append, allowed_append]
    refine ⟨ih _, fun x hx => ?_⟩
    obtain rfl := List.mem_singleton.1 hx
    exact hdigit _ (Nat.mod_lt _ (by decide))

theorem isAllowed_of_escaped {l x : Char} (h : escaped? l = some x) : isAllowed l.toNat = true := by
  unfold escaped? at h
  split at h
  all_goals first
    | rfl
    | exact absurd h (by simp)

theorem isAllowed_of_codeWidth {l : Char} {width : Nat} (h : codeWidth? l = some width) :
    isAllowed l.toNat = true := by
  unfold codeWidth? at h
  split at h
  all_goals first
    | rfl
    | exact absurd h (by simp)

theorem allowed_escapeChar (x : Char) : Allowed (escapeChar x) := by
  cases hescaped : isEscaped x with
  | false =>
    have hshown : isShown x = true := by
      unfold isEscaped at hescaped
      simp only [Bool.or_eq_false_iff, Bool.not_eq_false'] at hescaped
      exact hescaped.1.1.1
    have hwritten : escapeChar x = [x] := by simp [escapeChar, hescaped]
    rw [hwritten]
    exact allowed_cons.2 ⟨isAllowed_of_isShown hshown, allowed_nil⟩
  | true =>
    rcases escapeChar_cases hescaped with ⟨l, hl, -, hletter⟩ | ⟨l, width, hl, -, -, hwidth, -⟩
    · rw [hl]
      exact allowed_cons.2 ⟨rfl, allowed_cons.2 ⟨isAllowed_of_escaped hletter, allowed_nil⟩⟩
    · rw [hl]
      exact allowed_cons.2 ⟨rfl, allowed_cons.2
        ⟨isAllowed_of_codeWidth hwidth, allowed_upperHex width _⟩⟩

theorem allowed_singleBody (indent : Nat) {cs : List Char} (h : ∀ x ∈ cs, isShown x = true)
    (afterBreak : Bool) : Allowed (singleBody indent afterBreak cs) := by
  induction cs generalizing afterBreak with
  | nil => exact allowed_nil
  | cons x cs ih =>
    have hx := isAllowed_of_isShown (h x List.mem_cons_self)
    have hrest := ih fun y hy => h y (List.mem_cons_of_mem x hy)
    rw [singleBody]
    split
    · exact allowed_cons.2 ⟨hx, hrest true⟩
    · refine allowed_append.2 ⟨allowed_append.2 ⟨?_, ?_⟩, hrest false⟩
      · split
        · exact allowed_spaces indent
        · exact allowed_nil
      · split
        · exact allowed_cons.2 ⟨hx, allowed_cons.2 ⟨hx, allowed_nil⟩⟩
        · exact allowed_cons.2 ⟨hx, allowed_nil⟩

theorem allowed_literalBody (indent : Nat) {cs : List Char} (h : Allowed cs)
    (headed afterBreak : Bool) : Allowed (literalBody indent headed afterBreak cs) := by
  induction cs generalizing headed afterBreak with
  | nil =>
    rw [literalBody]
    exact allowed_nil
  | cons x cs ih =>
    obtain ⟨hx, hcs⟩ := allowed_cons.1 h
    rw [literalBody]
    split
    · exact allowed_cons.2 ⟨hx, ih hcs false true⟩
    · refine allowed_append.2 ⟨allowed_append.2 ⟨?_, ?_⟩, allowed_cons.2 ⟨hx, ih hcs false false⟩⟩
      · split
        · exact allowed_cons.2 ⟨rfl, allowed_nil⟩
        · exact allowed_nil
      · split
        · exact allowed_spaces indent
        · exact allowed_nil

theorem allowed_literalMarks (cs : List Char) : Allowed (literalMarks cs) := by
  unfold literalMarks
  refine allowed_append.2 ⟨?_, ?_⟩
  · split
    · exact allowed_cons.2 ⟨rfl, allowed_nil⟩
    · exact allowed_nil
  · split
    · exact allowed_cons.2 ⟨rfl, allowed_nil⟩
    · split <;> exact allowed_cons.2 ⟨rfl, allowed_nil⟩
    · split
      · exact allowed_cons.2 ⟨rfl, allowed_nil⟩
      · split
        · exact allowed_cons.2 ⟨rfl, allowed_nil⟩
        · exact allowed_nil

/-- **A text is written in characters that a document may hold.** -/
theorem allowed_writeText (indent : Nat) (s : String) : Allowed (writeText indent s) := by
  unfold writeText
  dsimp only
  split
  · rename_i hstyle
    exact fun x hx => isAllowed_of_isShown ((plain_of_style hstyle).1.shown x hx).2.1
  · rename_i hstyle
    refine allowed_append.2 ⟨allowed_cons.2 ⟨rfl, ?_⟩, allowed_cons.2 ⟨rfl, allowed_nil⟩⟩
    exact allowed_singleBody indent (fun x hx => ((single_of_style hstyle).chars x hx).2.2) false
  · refine allowed_append.2 ⟨allowed_cons.2 ⟨rfl, ?_⟩, allowed_cons.2 ⟨rfl, allowed_nil⟩⟩
    intro x hx
    obtain ⟨y, -, hy⟩ := List.mem_flatMap.1 hx
    exact allowed_escapeChar y x hy
  · rename_i hstyle
    refine allowed_append.2 ⟨allowed_cons.2 ⟨rfl, allowed_literalMarks _⟩, ?_⟩
    refine allowed_literalBody indent (fun x hx => ?_) true true
    rcases (literal_of_style hstyle).2.2 x hx with rfl | hshown
    · rfl
    · exact isAllowed_of_isShown hshown

theorem allowed_writeLine (indent : Nat) (s : String) : Allowed (writeLine indent s) := by
  refine allowed_append.2 ⟨allowed_writeText indent s, ?_⟩
  split
  · exact allowed_nil
  · exact allowed_cons.2 ⟨rfl, allowed_nil⟩

theorem allowed_writeEntry (indent : Nat) (name value : String) :
    Allowed (writeEntry indent name value) := by
  have hvalue : Allowed (':' :: ' ' :: writeLine (indent + 2) value) :=
    allowed_cons.2 ⟨rfl, allowed_cons.2 ⟨rfl, allowed_writeLine _ _⟩⟩
  rw [writeEntry_eq, entryBody]
  refine allowed_append.2 ⟨allowed_spaces indent, ?_⟩
  split
  · exact allowed_append.2 ⟨allowed_writeText _ _, hvalue⟩
  · refine allowed_cons.2 ⟨rfl, allowed_cons.2 ⟨rfl, ?_⟩⟩
    exact allowed_append.2 ⟨allowed_writeLine _ _, allowed_append.2 ⟨allowed_spaces indent, hvalue⟩⟩

theorem allowed_writeItems (indent : Nat) {nodes : List Node}
    (h : ∀ n ∈ nodes, ∀ indent, Allowed (writeNode indent n)) :
    Allowed (writeItems indent nodes) := by
  induction nodes with
  | nil => exact allowed_nil
  | cons n nodes ih =>
    rw [writeItems]
    refine allowed_append.2 ⟨allowed_append.2 ⟨allowed_spaces indent, ?_⟩, ?_⟩
    · exact allowed_cons.2 ⟨rfl, allowed_cons.2 ⟨rfl, h n List.mem_cons_self _⟩⟩
    · exact ih fun m hm => h m (List.mem_cons_of_mem n hm)

/-- **A tree is written in characters that a document may hold.** -/
theorem allowed_writeNode (indent : Nat) (n : Node) : Allowed (writeNode indent n) := by
  induction n using Node.induction generalizing indent with
  | absent =>
    have hnull : ("null\n".toList.all fun x => isAllowed x.toNat) = true := by decide
    exact List.all_eq_true.1 hnull
  | element tag attributes body children ih =>
    -- the words of the page are checked character by character
    have hword : ∀ word ∈ ["tag: ", "attrs:\n", "text: ", "children:\n"], Allowed word.toList := by
      have hall : ∀ word ∈ ["tag: ", "attrs:\n", "text: ", "children:\n"],
          (word.toList.all fun x => isAllowed x.toNat) = true := by decide
      exact fun word hmem => List.all_eq_true.1 (hall word hmem)
    have htext : ∀ s, Allowed (writeLine (indent + 2) s) := allowed_writeLine (indent + 2)
    have hattrs : Allowed
        ((inNaturalOrder attributes).flatMap fun a => writeEntry (indent + 2) a.1 a.2) := by
      intro x hx
      obtain ⟨a, -, hx⟩ := List.mem_flatMap.1 hx
      exact allowed_writeEntry _ a.1 a.2 x hx
    -- a field is left out or stands behind its word
    have hpart : ∀ word ∈ ["tag: ", "attrs:\n", "text: ", "children:\n"], ∀ (nothing : Bool) cs,
        Allowed cs → Allowed (if nothing then [] else spaces indent ++ word.toList ++ cs) := by
      intro word hmem nothing cs hcs
      split
      · exact allowed_nil
      · exact allowed_append.2 ⟨allowed_append.2 ⟨allowed_spaces indent, hword word hmem⟩, hcs⟩
    rw [writeNode_element]
    refine allowed_append.2 ⟨allowed_append.2 ⟨allowed_append.2 ⟨?_, ?_⟩, ?_⟩, ?_⟩
    · exact allowed_append.2 ⟨hword "tag: " (by decide), htext tag⟩
    · exact hpart "attrs:\n" (by decide) attributes.isEmpty _ hattrs
    · exact hpart "text: " (by decide) body.isEmpty _ (htext body)
    · exact hpart "children:\n" (by decide) children.isEmpty _ (allowed_writeItems _ ih)

/-! ### Runs -/

namespace Tokens

theorem readFrom_next {l l' : Lexer} (h : l.next = .ok l') (fuel : Nat) :
    readFrom none (fuel + 1) l
      = if l'.isDone then ⟨l'.tokens.reverse, none⟩ else readFrom none fuel l' := by
  conv => lhs; unfold readFrom
  rw [h]

theorem readFrom_of_runs {l l' : Lexer} (h : Runs l l') {fuel : Nat}
    (hfuel : l.cursor.rest.length < fuel) :
    ∃ fuel', l'.cursor.rest.length < fuel' ∧ readFrom none fuel l = readFrom none fuel' l' := by
  induction h using Relation.ReflTransGen.head_induction_on generalizing fuel with
  | refl => exact ⟨fuel, hfuel, rfl⟩
  | head hstep _ ih =>
    cases fuel with
    | zero => exact absurd hfuel (Nat.not_lt_zero _)
    | succ fuel =>
      obtain ⟨fuel', hfuel', hread⟩ := ih
        (Nat.lt_of_lt_of_le hstep.shorter (Nat.le_of_lt_succ hfuel))
      refine ⟨fuel', hfuel', ?_⟩
      rw [readFrom_next hstep.next, hstep.done]
      exact hread

end Tokens

namespace Lexer

/-- The lexer waits at the beginning of a document. -/
theorem waits_start {cs : List Char} (h : Starts cs) : Waits (start cs) 0 cs [] [] := by
  have hholds : Holds (start cs) [] [] none := ⟨rfl, rfl, rfl, rfl⟩
  obtain ⟨c, hleads, hstill⟩ := leads_spaces (l := start cs) (m := 0) rfl h
  have hrest : c.rest = cs := hstill.of_rest rfl
  have hcolumn : c.column = 0 := hstill.column
  have hwaits := waits_of_leads hholds hleads (stale_none c)
  rwa [hrest, hcolumn] at hwaits

/-- **The end of a document** closes what is open. -/
theorem Waits.next_end {l : Lexer} {L : List Lexeme} (h : Waits l 0 [] L [0]) :
    ∃ l', l.next = .ok l' ∧ l'.isDone = true ∧ l'.lexemes = L ++ [.blockEnd, .streamEnd] := by
  obtain ⟨L₀, K, k, c, hholds, rfl, hK, hleads, hrest, hcolumn, hk⟩ := h
  obtain ⟨hholds₁, hcursor₁, -⟩ := (hholds.moved c true).unroll (some c.column)
    (fun i hi => decide_eq_true (by rw [hcolumn]; exact hK i hi))
    (fun i hi => decide_eq_false (by rw [← Option.some.inj hi]; exact Nat.not_lt_zero _)) l.cursor
  obtain ⟨hholds₂, -, -⟩ := Holds.unroll (K := [0]) (I := [])
    (hholds₁.moved c _) none (fun _ _ => rfl) nofun c
  obtain ⟨l₃, hdrop, hholds₃, -, -⟩ := hholds₂.dropCandidate hk.spare
  have hend := (hholds₃.moved l₃.cursor false).emit .streamEnd c
  refine ⟨({ l₃ with keyAllowed := false } : Lexer).emit .streamEnd c, ?_, rfl, ?_⟩
  · rw [next, hleads.step]
    dsimp only at hcursor₁ ⊢
    rw [hcursor₁, Cursor.peek?, hrest]
    dsimp only [List.head?_nil]
    rw [fetchEnd, hcursor₁, if_pos hcolumn, hdrop]
    rfl
  · rw [hend.lexemes, List.append_assoc]
    rfl

end Lexer

/-! ### Pages -/

/-- **A written tree is cut into the tokens of its fields.** -/
theorem tokens_toYaml {n : Node} (h : n.Survives) (hheight : 2 * n.height ≤ Lexer.maxDepth) :
    ∃ list, Tokens.ofInput (Input.ofBytes (Text.encode n.toYaml)) = ⟨list, none⟩ ∧
      list.map (·.lexeme) = fieldLexemes n ++ [.blockEnd, .streamEnd] := by
  obtain ⟨cs, hhead⟩ : ∃ cs, writeNode 0 n = 't' :: cs := by
    cases h with
    | element => exact ⟨_, rfl⟩
  have hpage : n.toYaml.toList = writeNode 0 n := String.toList_ofList
  have hinput := Input.ofBytes_encode (hpage.trans hhead) (by decide)
    (by rw [hpage]; exact allowed_writeNode 0 n)
  -- from the first character to the last
  have hreads := reads_of_survives h (k := 0) (I := []) (j := 0) (r := []) nofun
    (by rwa [List.length_nil, Nat.zero_add]) (Nat.le_refl 0) starts_nil
  have hstart : Starts (writeNode 0 n) := by
    have hany := starts_writeNode 0 n []
    rwa [List.append_nil] at hany
  obtain ⟨l, hruns, hwaits⟩ := hreads (.start (writeNode 0 n)) []
    (by simpa [spaces] using Lexer.waits_start hstart)
  obtain ⟨l', hnext, hdone, hlexemes⟩ := Lexer.Waits.next_end hwaits
  obtain ⟨fuel, hfuel, hread⟩ := Tokens.readFrom_of_runs hruns (Nat.lt_succ_self _)
  obtain ⟨fuel, rfl⟩ := Nat.exists_eq_succ_of_ne_zero (Nat.ne_of_gt (Nat.zero_lt_of_lt hfuel))
  refine ⟨l'.tokens.reverse, ?_, hlexemes⟩
  rw [hinput, Tokens.ofInput, hpage]
  exact hread.trans ((Tokens.readFrom_next hnext fuel).trans (if_pos hdone))

end Blockwork.Yaml
