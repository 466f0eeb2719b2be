import Blockwork.Markup.Yaml.Element
import Blockwork.Proofs.Yaml.Pages

/-!
# From tokens to nodes

The tokens of a tree are composed into a mapping of its fields. A step of composing **eats** the
tokens that stand for its result and leaves all else as it was (`Eats`); what eats a list of tokens
after another eats the two together. The fuel that a node needs is bounded by the number of its
tokens.
-/

namespace Blockwork.Yaml

namespace Compose

/-- Composing takes these tokens away and gives a result, whatever comes after them. -/
def Eats {α : Type} (m : Compose α) (M : List Lexeme) (a : α) : Prop :=
  ∀ ts rest s, ts.map (·.lexeme) = M → s.tokens = ts ++ rest → s.fault = none →
    m.run s = .ok (a, { s with tokens := rest })

namespace Eats

variable {α β : Type} {a : α} {b : β} {M N : List Lexeme}

theorem pure (a : α) : Eats (Pure.pure a) [] a := by
  intro ts rest s hts hs hfault
  obtain rfl := List.map_eq_nil_iff.1 hts
  rw [List.nil_append] at hs
  subst hs
  rfl

theorem bind {m : Compose α} {f : α → Compose β} (hm : Eats m M a) (hf : Eats (f a) N b) :
    Eats (m >>= f) (M ++ N) b := by
  intro ts rest s hts hs hfault
  obtain ⟨ts₁, ts₂, rfl, hts₁, hts₂⟩ := List.map_eq_append_iff.1 hts
  rw [List.append_assoc] at hs
  have hfirst := hm ts₁ (ts₂ ++ rest) s hts₁ hs hfault
  have hsecond := hf ts₂ rest { s with tokens := ts₂ ++ rest } hts₂ rfl hfault
  rw [StateT.run_bind, hfirst]
  exact hsecond

/-- A step that goes on as another one does when its first token is gone. -/
theorem first {x : Lexeme} {m : Compose α} (m' : Nat → Compose α)
    (hm : ∀ (line : Nat) (ts : List Token) (s : Composer),
      m.run { s with tokens := ⟨x, line⟩ :: ts, fault := none }
      = (m' line).run { s with tokens := ts, fault := none })
    (h : ∀ line, Eats (m' line) M a) : Eats m (x :: M) a := by
  intro ts rest s hts hs hfault
  obtain ⟨⟨y, line⟩, ts, rfl, rfl, hrest⟩ := List.map_eq_cons_iff.1 hts
  obtain ⟨tokens, fault, handles, anchors, slots, slotCount, referenceCount⟩ := s
  dsimp only at hs hfault
  subst hs hfault
  exact (hm line (ts ++ rest) ⟨[], none, handles, anchors, slots, slotCount, referenceCount⟩).trans
    (h line ts rest _ hrest rfl rfl)

/-- The next token is looked at. -/
theorem peek {x : Lexeme} {f : Token → Compose α}
    (h : ∀ line, Eats (f ⟨x, line⟩) (x :: M) a) : Eats (Compose.peek >>= f) (x :: M) a := by
  intro ts rest s hts hs hfault
  obtain ⟨⟨y, line⟩, ts, rfl, rfl, -⟩ := List.map_eq_cons_iff.1 hts
  have hpeek : Compose.peek.run s = .ok (⟨y, line⟩, s) := by
    obtain ⟨tokens, fault, handles, anchors, slots, slotCount, referenceCount⟩ := s
    dsimp only at hs hfault
    subst hs hfault
    rfl
  rw [StateT.run_bind, hpeek]
  exact h line _ rest s hts hs hfault

/-- The next token is taken away. -/
theorem next {x : Lexeme} {m : Compose α} (h : Eats m M a) :
    Eats (Compose.skip >>= fun _ => m) (x :: M) a :=
  first (fun _ => m) (fun _ _ _ => rfl) fun _ => h

/-- The result is put to use. -/
theorem map {m : Compose α} (h : Eats m M a) (f : α → β) :
    Eats (m >>= fun x => Pure.pure (f x)) M (f a) := by
  have hall := h.bind (f := fun x => Pure.pure (f x)) (.pure (f a))
  rwa [List.append_nil] at hall

end Eats

/-! ### Nodes and their parts -/

/-- The tokens of a node, in a place where every node may stand. -/
structure Stands (M : List Lexeme) (t : Tree) : Prop where
  eats : ∀ indentless fuel, M.length ≤ fuel → Eats (node true indentless fuel) M t
  begins : ∃ x M', M = x :: M' ∧ ∀ y ∈ [.key, .value, .blockEnd, .blockEntry], x ≠ y

/-- The tokens of the entries of a block mapping, with the mark of its end. -/
def AreEntries (M : List Lexeme) (entries : List (Tree × Tree)) : Prop :=
  ∀ origin fuel, M.length ≤ fuel → Eats (blockEntries origin fuel) M entries

/-- The tokens of the items of a block sequence, with the mark of its end. -/
def AreItems (M : List Lexeme) (items : List Tree) : Prop :=
  ∀ origin fuel, M.length ≤ fuel → Eats (blockItems origin fuel) M items

section

variable {K V M : List Lexeme} {key value item : Tree} {entries : List (Tree × Tree)}
  {items : List Tree}

theorem stands_scalar (plain : Bool) (text : String) :
    Stands [.scalar plain text] (.ofScalar none plain text) where
  eats indentless fuel hfuel := by
    obtain ⟨fuel, rfl⟩ := Nat.exists_eq_add_of_le' hfuel
    exact .first (fun _ => pure (.ofScalar none plain text)) (fun _ _ _ => rfl) fun _ => .pure _
  begins := ⟨_, [], rfl, by simp⟩

theorem stands_mapping (h : AreEntries M entries) :
    Stands (.blockMappingStart :: M) (.mapping "!!map" entries) where
  eats indentless fuel hfuel := by
    cases fuel with
    | zero => exact absurd hfuel (Nat.not_succ_le_zero _)
    | succ fuel =>
      exact .first (fun line => blockEntries line fuel >>= fun es => pure (.mapping "!!map" es))
        (fun _ _ _ => rfl)
        fun line => (h line fuel (Nat.le_of_succ_le_succ hfuel)).map (Tree.mapping "!!map")
  begins := ⟨_, M, rfl, by decide⟩

theorem stands_sequence (h : AreItems M items) :
    Stands (.blockSequenceStart :: M) (.sequence "!!seq" items) where
  eats indentless fuel hfuel := by
    cases fuel with
    | zero => exact absurd hfuel (Nat.not_succ_le_zero _)
    | succ fuel =>
      exact .first (fun line => blockItems line fuel >>= fun ts => pure (.sequence "!!seq" ts))
        (fun _ _ _ => rfl)
        fun line => (h line fuel (Nat.le_of_succ_le_succ hfuel)).map (Tree.sequence "!!seq")
  begins := ⟨_, M, rfl, by decide⟩

/-- A key or a value. -/
theorem Stands.side (h : Stands M value) {fuel : Nat} (hfuel : M.length < fuel) :
    Eats (blockSide fuel) M value := by
  cases fuel with
  | zero => exact absurd hfuel (Nat.not_lt_zero _)
  | succ fuel =>
    have hnode := h.eats true fuel (Nat.le_of_lt_succ hfuel)
    obtain ⟨x, M', rfl, hx⟩ := h.begins
    refine .peek fun line => ?_
    dsimp only
    split
    · exact absurd rfl (hx .key (by decide))
    · exact absurd rfl (hx .value (by decide))
    · exact absurd rfl (hx .blockEnd (by decide))
    · exact hnode

theorem areEntries_nil : AreEntries [.blockEnd] [] := by
  intro origin fuel hfuel
  obtain ⟨fuel, rfl⟩ := Nat.exists_eq_add_of_le' hfuel
  exact .peek fun _ => .next (.pure [])

theorem areEntries_cons (hkey : Stands K key) (hvalue : Stands V value)
    (h : AreEntries M entries) :
    AreEntries (.key :: (K ++ .value :: (V ++ M))) ((key, value) :: entries) := by
  intro origin fuel hfuel
  simp only [List.length_cons, List.length_append] at hfuel
  cases fuel with
  | zero => exact absurd hfuel (Nat.not_succ_le_zero _)
  | succ fuel =>
    have hrest := h origin fuel (by omega)
    exact .peek fun _ => .next ((hkey.side (by omega)).bind (.peek fun _ => .next
      ((hvalue.side (by omega)).bind (hrest.map ((key, value) :: ·)))))

theorem areItems_nil : AreItems [.blockEnd] [] := by
  intro origin fuel hfuel
  obtain ⟨fuel, rfl⟩ := Nat.exists_eq_add_of_le' hfuel
  exact .peek fun _ => .next (.pure [])

theorem areItems_cons (hitem : Stands V item) (h : AreItems M items) :
    AreItems (.blockEntry :: (V ++ M)) (item :: items) := by
  intro origin fuel hfuel
  simp only [List.length_cons, List.length_append] at hfuel
  cases fuel with
  | zero => exact absurd hfuel (Nat.not_succ_le_zero _)
  | succ fuel =>
    have hrest := h origin fuel (by omega)
    have hnode := hitem.eats false fuel (by omega)
    obtain ⟨x, V', rfl, hx⟩ := hitem.begins
    refine .peek fun line => .next (.peek fun _ => ?_)
    dsimp only
    split
    · exact absurd rfl (hx .blockEntry (by decide))
    · exact absurd rfl (hx .blockEnd (by decide))
    · exact hnode.bind (hrest.map (item :: ·))

end

end Compose

/-! ### Trees -/

/-- The node of a text. -/
def textTree (s : String) : Tree := .ofScalar none (styleOf s = .plain) s

/-- The entry of a name and a text. -/
def entryTree (name value : String) : Tree × Tree := (textTree name, textTree value)

mutual

/-- The entries of an element. -/
def fieldTrees : Node → List (Tree × Tree)
  | .absent => []
  | .element tag attributes body children =>
    entryTree "tag" tag ::
      ((if attributes.isEmpty then []
        else [(textTree "attrs", .mapping "!!map"
          ((inNaturalOrder attributes).map fun (n, v) => entryTree n v))]) ++
      ((if body.isEmpty then [] else [entryTree "text" body]) ++
        if children.isEmpty then []
        else [(textTree "children", .sequence "!!seq" (itemTrees children))]))

/-- The nodes of some elements. -/
def itemTrees : List Node → List Tree
  | [] => []
  | n :: rest => .mapping "!!map" (fieldTrees n) :: itemTrees rest

end

namespace Compose

theorem stands_text (s : String) : Stands [textLexeme s] (textTree s) := stands_scalar _ s

namespace AreEntries

variable {N V M : List Lexeme} {value : Tree} {entries : List (Tree × Tree)}

theorem under (h : AreEntries M entries) (name : String) (hvalue : Stands V value) :
    AreEntries ([.key, textLexeme name, .value] ++ V ++ M) ((textTree name, value) :: entries) :=
  areEntries_cons (stands_text name) hvalue h

theorem text (h : AreEntries M entries) (name value : String) :
    AreEntries (entryLexemes name value ++ M) (entryTree name value :: entries) :=
  h.under name (stands_text value)

theorem texts (h : AreEntries M entries) (attributes : List (String × String)) :
    AreEntries (attributes.flatMap (fun (n, v) => entryLexemes n v) ++ M)
      (attributes.map (fun (n, v) => entryTree n v) ++ entries) := by
  induction attributes with
  | nil => exact h
  | cons a attributes ih =>
    rw [List.flatMap_cons, List.append_assoc]
    exact ih.text a.1 a.2

theorem optional (h : AreEntries M entries) (es : List (Tree × Tree)) (nothing : Bool)
    (hsome : AreEntries (N ++ M) (es ++ entries)) :
    AreEntries ((if nothing then [] else N) ++ M) ((if nothing then [] else es) ++ entries) := by
  cases nothing with
  | true => exact h
  | false => exact hsome

end AreEntries

theorem AreItems.elements {nodes : List Node}
    (h : ∀ n ∈ nodes, Stands (fieldLexemes n ++ [.blockEnd]) (.mapping "!!map" (fieldTrees n))) :
    AreItems (itemLexemes nodes ++ [.blockEnd]) (itemTrees nodes) := by
  induction nodes with
  | nil => exact areItems_nil
  | cons n nodes ih =>
    have hall := areItems_cons (h n List.mem_cons_self)
      (ih fun m hm => h m (List.mem_cons_of_mem n hm))
    rw [itemLexemes, itemTrees]
    simpa only [List.cons_append, List.append_assoc] using hall

/-- **The tokens of an element stand for the mapping of its fields.** -/
theorem stands_of_survives {n : Node} (h : n.Survives) :
    Stands (fieldLexemes n ++ [.blockEnd]) (.mapping "!!map" (fieldTrees n)) := by
  induction h with
  | @element tag attributes body children _ _ _ _ _ _ ih =>
    have hchildren := areEntries_nil.optional [_] children.isEmpty
      (areEntries_nil.under "children" (stands_sequence (AreItems.elements ih)))
    have htext := hchildren.optional [_] body.isEmpty (hchildren.text "text" body)
    have hattrs := htext.optional [_] attributes.isEmpty
      (htext.under "attrs" (stands_mapping (areEntries_nil.texts (inNaturalOrder attributes))))
    have hall := stands_mapping (hattrs.text "tag" tag)
    rw [fieldLexemes, fieldTrees]
    simpa only [List.cons_append, List.append_assoc, List.append_nil] using hall

end Compose

/-- The root of a document of one mapping, without directives. -/
theorem Compose.firstRoot_of_eats {M : List Lexeme} {root : Tree} {fuel : Nat}
    (h : Eats (node true false (fuel + 1)) (.blockMappingStart :: M) root) {list : List Token}
    (hlist : list.map (·.lexeme) = .blockMappingStart :: M ++ [.streamEnd]) :
    ∃ s, (firstRoot (fuel + 1)).run ⟨list, none, [], [], [], 0, 0⟩ = .ok (some root, s) ∧
      s.slotCount = 0 := by
  -- the end of the stream is the last token
  obtain ⟨ts, last, rfl, hts, hlast⟩ := List.map_eq_append_iff.1 hlist
  obtain ⟨⟨y, line⟩, nothing, rfl, rfl, hnothing⟩ := List.map_eq_cons_iff.1 hlast
  obtain rfl := List.map_eq_nil_iff.1 hnothing
  let last : Token := ⟨.streamEnd, line⟩
  let begun : Composer := ⟨ts ++ [last], none, standardHandles, [], [], 0, 0⟩
  have hroot := h ts [last] begun hts rfl rfl
  -- no directive comes first, so the document is its root node
  have hfirst : (firstRoot (fuel + 1)).run ⟨ts ++ [last], none, [], [], [], 0, 0⟩
      = (do
          let root ← node true false (fuel + 1)
          let _ ← peek
          return some root : Compose (Option Tree)).run begun := by
    obtain ⟨⟨y, line'⟩, ts, rfl, rfl, -⟩ := List.map_eq_cons_iff.1 hts
    rfl
  refine ⟨{ begun with tokens := [last] }, ?_, rfl⟩
  rw [hfirst, StateT.run_bind, hroot]
  rfl

/-- **The tokens of a written tree are composed into the mapping of its fields.** -/
theorem document_of_lexemes {n : Node} (h : n.Survives) {list : List Token}
    (hlist : list.map (·.lexeme) = fieldLexemes n ++ [.blockEnd, .streamEnd]) :
    Document.ofTokens ⟨list, none⟩ = .ok ⟨.mapping "!!map" (fieldTrees n), []⟩ := by
  obtain ⟨M, hfields⟩ :
      ∃ M, fieldLexemes n ++ [Lexeme.blockEnd] = Lexeme.blockMappingStart :: M := by
    cases h with
    | element => exact ⟨_, rfl⟩
  rw [List.append_cons] at hlist
  -- the reading has fuel for more than all tokens
  have hfuel : (fieldLexemes n ++ [Lexeme.blockEnd]).length ≤ 4 * list.length + 7 + 1 := by
    have hlength := congrArg List.length hlist
    rw [List.length_map, List.length_append, List.length_singleton] at hlength
    omega
  have hroot := (Compose.stands_of_survives h).eats false _ hfuel
  rw [hfields] at hroot hlist
  obtain ⟨s, hfirst, hslots⟩ := Compose.firstRoot_of_eats hroot hlist
  rw [Document.ofTokens]
  dsimp only
  rw [hfirst]
  dsimp only [bind, Except.bind, pure, Except.pure]
  rw [hslots]
  rfl

end Blockwork.Yaml
