import Blockwork.Proofs.Yaml.Composing

/-!
# From nodes to elements

A mapping of fields is read as the element that it was written for, with its attributes in the order
of the page. Without references and without parts of a wrong shape, all that reading does to its
tally is to count visits (`Gives`).

The entries of a mapping are assigned one after the other. What they do is put together from single
entries (`Assigns`); the names that they may use are all different, so that no name is met twice.
-/

namespace Blockwork.Yaml

namespace Reading

/-- Reading gives a result. It follows no reference, and every part has the right shape. -/
def Gives {α : Type} (m : Reading α) (x : α) : Prop :=
  ∀ visited, ∃ visited', m.run ⟨visited, 0, false⟩ = .ok (x, ⟨visited', 0, false⟩)

namespace Gives

variable {α β : Type} {x : α} {y : β}

theorem pure (x : α) : Gives (Pure.pure x) x := fun visited => ⟨visited, rfl⟩

theorem bind {m : Reading α} {f : α → Reading β} (hm : Gives m x) (hf : Gives (f x) y) :
    Gives (m >>= f) y := by
  intro visited
  obtain ⟨visited₁, hfirst⟩ := hm visited
  obtain ⟨visited₂, hsecond⟩ := hf visited₁
  refine ⟨visited₂, ?_⟩
  rw [StateT.run_bind, hfirst]
  exact hsecond

theorem map {m : Reading α} (h : Gives m x) (f : α → β) :
    Gives (m >>= fun a => Pure.pure (f a)) (f x) :=
  h.bind (f := fun a => Pure.pure (f a)) (.pure (f x))

end Gives

/-! ### Texts -/

section

theorem gives_settle {t : Tree} (ht : ∀ name slot id, t ≠ .reference name slot id) :
    Gives (settle ⟨#[], []⟩ t) (⟨#[], []⟩, t) := by
  intro visited
  cases t with
  | reference name slot id => exact absurd rfl (ht name slot id)
  | _ => exact ⟨visited + 1, rfl⟩

theorem textTree_eq (s : String) :
    ∃ tag, textTree s = .scalar tag s ∧ (tag = "!!str" ∨ tag = "!!merge" ∧ s = "<<") := by
  by_cases hstyle : styleOf s = .plain
  · by_cases hmerge : s = "<<"
    · subst hmerge
      exact ⟨"!!merge", by simp [textTree, Tree.ofScalar, hstyle], .inr ⟨rfl, rfl⟩⟩
    · refine ⟨"!!str", ?_, .inl rfl⟩
      simp [textTree, Tree.ofScalar, hstyle, hmerge, (plain_of_style hstyle).2.1, Kind.tag]
  · exact ⟨"!!str", by simp [textTree, Tree.ofScalar, hstyle], .inl rfl⟩

/-- **A text is read as it was written.** -/
theorem gives_text (s : String) : Gives (textOf ⟨#[], []⟩ (textTree s)) (some s) := by
  obtain ⟨tag, htree, htag⟩ := textTree_eq s
  have hscalar : Gives (scalarText tag s) (some s, true) := by
    rcases htag with rfl | ⟨rfl, -⟩
    · exact .pure _
    · exact .pure _
  rw [htree]
  exact (gives_settle (by simp)).bind (hscalar.map (·.1))

theorem isMerge_textTree {s : String} (h : s ≠ "<<") : isMerge (textTree s) = false := by
  obtain ⟨tag, htree, rfl | ⟨-, hmerge⟩⟩ := textTree_eq s
  · rw [htree]
    rfl
  · exact absurd hmerge h

theorem clash_textTree (a b : String) : clash (textTree a) (textTree b) = (a == b) := by
  obtain ⟨_, ha, -⟩ := textTree_eq a
  obtain ⟨_, hb, -⟩ := textTree_eq b
  rw [ha, hb]
  rfl

/-! ### Mappings -/

theorem hasClash_of_nodup {entries : List (Tree × Tree)} {names : List String}
    (h : entries.map (·.1) = names.map textTree) (hnames : names.Nodup) :
    hasClash entries = false := by
  induction entries generalizing names with
  | nil => rfl
  | cons e entries ih =>
    obtain ⟨name, names, rfl, hname, hrest⟩ := List.map_eq_cons_iff.1 h.symm
    obtain ⟨hfresh, hnames⟩ := List.nodup_cons.1 hnames
    rw [hasClash, ih hrest.symm hnames, Bool.or_false]
    refine List.any_eq_false.2 fun e' he' => ?_
    obtain ⟨name', hname', hkey⟩ : ∃ name' ∈ names, textTree name' = e'.1 := by
      rw [← List.mem_map, hrest]
      exact List.mem_map_of_mem he'
    have hkey' : e.1 = textTree name := hname.symm
    rw [hkey', ← hkey, clash_textTree]
    intro heq
    exact hfresh (eq_of_beq heq ▸ hname')

/-- What the entries of a mapping assign. Their keys are some of the names, and none of these has
been met before. -/
structure Assigns {α : Type} (assign : Assign α) (once : String → Bool) (p : Place)
    (entries : List (Tree × Tree)) (names : List String) (a a' : α) : Prop where
  keys : ∃ ns : List String, ns.Sublist names ∧ entries.map (·.1) = ns.map textTree
  gives : ∀ rest done b, (∀ name ∈ names, name ∉ done) →
    (∀ done', (∀ name ∈ done', name ∈ done ∨ name ∈ names) →
      Gives (assignAll assign once p rest done' none a') b) →
    Gives (assignAll assign once p (entries ++ rest) done none a) b

namespace Assigns

variable {α : Type} {assign : Assign α} {once : String → Bool} {p : Place} {a a' a'' : α}
  {entries entries' : List (Tree × Tree)} {names names' : List String} {name : String} {v : Tree}

theorem nil (names : List String) (a : α) : Assigns assign once p [] names a a where
  keys := ⟨[], List.nil_sublist names, rfl⟩
  gives _ done _ _ hrest := hrest done fun _ h => .inl h

/-- One entry. -/
theorem single (hmerge : name ≠ "<<") (h : Gives (assign ⟨#[], []⟩ true name v a) a') :
    Assigns assign once ⟨#[], []⟩ [(textTree name, v)] [name] a a' where
  keys := ⟨[name], List.Sublist.refl _, rfl⟩
  gives rest done b hdone hrest := by
    have hnew : (once name && done.contains name) = false := by
      have hfresh := hdone name List.mem_cons_self
      simp [hfresh]
    have hgo := hrest (name :: done) fun name' hname' => by
      rcases List.mem_cons.1 hname' with rfl | hname'
      · exact .inr List.mem_cons_self
      · exact .inl hname'
    rw [List.singleton_append, assignAll, isMerge_textTree hmerge]
    refine (gives_text name).bind ?_
    dsimp only [Option.any_none, Option.isNone_none, Option.map_none]
    rw [hnew]
    exact h.bind hgo

/-- Some entries and then others. -/
theorem trans (h : Assigns assign once p entries names a a')
    (h' : Assigns assign once p entries' names' a' a'') (hnames : (names ++ names').Nodup) :
    Assigns assign once p (entries ++ entries') (names ++ names') a a'' where
  keys := by
    obtain ⟨ns, hsub, hkeys⟩ := h.keys
    obtain ⟨ns', hsub', hkeys'⟩ := h'.keys
    exact ⟨ns ++ ns', hsub.append hsub', by rw [List.map_append, List.map_append, hkeys, hkeys']⟩
  gives rest done b hdone hrest := by
    obtain ⟨-, -, hdisjoint⟩ := List.nodup_append.1 hnames
    rw [List.append_assoc]
    refine h.gives _ done b (fun name hname => hdone name (List.mem_append_left _ hname)) ?_
    intro done₁ hdone₁
    -- what the first entries made done is disjoint from the names of the second
    refine h'.gives rest done₁ b (fun name hname hmem => ?_) fun done₂ hdone₂ =>
      hrest done₂ fun name hname => ?_
    · rcases hdone₁ name hmem with hold | hfirst
      · exact hdone name (List.mem_append_right _ hname) hold
      · exact hdisjoint name hfirst name hname rfl
    · rcases hdone₂ name hname with hearlier | hsecond
      · exact (hdone₁ name hearlier).imp_right (List.mem_append_left _)
      · exact .inr (List.mem_append_right _ hsecond)

/-- Entries that may be left out. -/
theorem optional (nothing : Bool) (h : Assigns assign once p entries names a a')
    (hnothing : nothing = true → a' = a) :
    Assigns assign once p (if nothing then [] else entries) names a a' := by
  cases nothing with
  | true =>
    rw [hnothing rfl]
    exact nil names a
  | false => exact h

theorem hasClash (h : Assigns assign once p entries names a a') (hnames : names.Nodup) :
    Reading.hasClash entries = false := by
  obtain ⟨ns, hsub, hkeys⟩ := h.keys
  exact hasClash_of_nodup hkeys (hnames.sublist hsub)

/-- **A mapping of different names is read as its entries say.** -/
theorem fill (h : Assigns assign once p entries names a a') (hnames : names.Nodup)
    (hmerge : "<<" ∉ names) {fuel : Nat} (hfuel : 0 < fuel) :
    Gives (Reading.fill assign once fuel p none entries a) (a', none) := by
  obtain ⟨fuel, rfl⟩ := Nat.exists_eq_succ_of_ne_zero (Nat.ne_of_gt hfuel)
  obtain ⟨ns, hsub, hkeys⟩ := h.keys
  have hfind : entries.find? (isMerge ·.1) = none := by
    refine List.find?_eq_none.2 fun e he => ?_
    obtain ⟨name, hname, hkey⟩ : ∃ name ∈ ns, textTree name = e.1 := by
      rw [← List.mem_map, ← hkeys]
      exact List.mem_map_of_mem he
    rw [← hkey, isMerge_textTree fun heq => hmerge (hsub.subset (heq ▸ hname))]
    exact Bool.false_ne_true
  have hall := h.gives [] [] (a', none) (fun _ _ => List.not_mem_nil) fun _ _ => .pure _
  rw [List.append_nil] at hall
  rw [Reading.fill, h.hasClash hnames]
  refine hall.bind ?_
  rw [hfind]
  exact .pure _

end Assigns

/-! ### Attributes -/

theorem setAttribute_new {attributes : List (String × String)} {name : String}
    (h : name ∉ attributes.map (·.1)) (value : String) :
    Node.setAttribute attributes name value = attributes ++ [(name, value)] := by
  have hnew : attributes.any (·.1 == name) = false :=
    List.any_eq_false.2 fun a ha heq => h (eq_of_beq heq ▸ List.mem_map_of_mem ha)
  rw [Node.setAttribute, hnew]
  rfl

theorem assigns_attribute {attributes : List (String × String)} {name : String}
    (h : name ∉ attributes.map (·.1)) (hmerge : name ≠ "<<") (value : String)
    (once : String → Bool) :
    Assigns assignAttribute once ⟨#[], []⟩ [entryTree name value] [name] attributes
      (attributes ++ [(name, value)]) := by
  refine .single hmerge ?_
  rw [← setAttribute_new h value]
  exact (gives_text value).bind (.pure _)

theorem assigns_attributes (before : List (String × String)) {attributes : List (String × String)}
    (h : ((before ++ attributes).map (·.1)).Nodup) (hmerge : ∀ a ∈ attributes, a.1 ≠ "<<")
    (once : String → Bool) :
    Assigns assignAttribute once ⟨#[], []⟩ (attributes.map fun (n, v) => entryTree n v)
      (attributes.map (·.1)) before (before ++ attributes) := by
  induction attributes generalizing before with
  | nil =>
    rw [List.append_nil]
    exact .nil [] before
  | cons a attributes ih =>
    have hnames := h
    rw [List.append_cons] at h
    rw [List.map_append, List.map_cons, List.nodup_append] at hnames
    obtain ⟨-, hrest, hdisjoint⟩ := hnames
    have hnew : a.1 ∉ before.map (·.1) := fun hmem =>
      hdisjoint a.1 hmem a.1 List.mem_cons_self rfl
    have hfirst := assigns_attribute hnew (hmerge a List.mem_cons_self) a.2 once
    have hall := hfirst.trans (ih _ h fun b hb => hmerge b (List.mem_cons_of_mem a hb)) hrest
    rwa [← List.append_cons] at hall

theorem inNaturalOrder_nil : inNaturalOrder [] = [] := List.mergeSort_nil

/-- **The attributes of an element are read as they were written**, in the order of the page. -/
theorem gives_attributes {attributes : List (String × String)}
    (h : (attributes.map (·.1)).Nodup) (hmerge : ∀ a ∈ attributes, a.1 ≠ "<<") {fuel : Nat}
    (hfuel : 0 < fuel) :
    Gives (attributesOf fuel ⟨#[], []⟩
      (.mapping "!!map" ((inNaturalOrder attributes).map fun (n, v) => entryTree n v)) [])
      (inNaturalOrder attributes) := by
  have hperm : (inNaturalOrder attributes).Perm attributes := List.mergeSort_perm _ _
  have hnames : ((inNaturalOrder attributes).map (·.1)).Nodup := (hperm.map _).nodup_iff.2 h
  have hall := assigns_attributes [] hnames
    (fun a ha => hmerge a (hperm.subset ha)) fun _ => false
  have hfill := hall.fill hnames (fun hmem => by
    obtain ⟨a, ha, hname⟩ := List.mem_map.1 hmem
    exact hmerge a (hperm.subset ha) hname) hfuel
  exact (gives_settle (by simp)).bind (hfill.map (·.1))

end

end Reading

end Blockwork.Yaml

namespace Blockwork.Node

mutual

/-- A tree with the attributes of every element in natural order. -/
def ordered : Node → Node
  | .absent => .absent
  | .element tag attributes body children =>
    .element tag (Yaml.inNaturalOrder attributes) body (orderedAll children)

/-- Some trees with their attributes in natural order. -/
def orderedAll : List Node → List Node
  | [] => []
  | n :: rest => n.ordered :: orderedAll rest

end

theorem tag?_ordered (n : Node) : n.ordered.tag? = n.tag? := by
  cases n with
  | absent => rfl
  | element => rfl

end Blockwork.Node

namespace Blockwork.Yaml

namespace Reading

/-! ### Elements -/

section

theorem gives_children {child : Tree → Reading (Option Node)} {nodes : List Node}
    (h : ∀ n ∈ nodes, Gives (child (.mapping "!!map" (fieldTrees n))) (some n.ordered)) :
    Gives (childrenOf child (itemTrees nodes)) (Node.orderedAll nodes) := by
  induction nodes with
  | nil => exact .pure []
  | cons n nodes ih =>
    have hrest := ih fun m hm => h m (List.mem_cons_of_mem n hm)
    rw [itemTrees, childrenOf, Node.orderedAll]
    exact (h n List.mem_cons_self).bind (hrest.map (n.ordered :: ·))

/-- The mapping of its fields is read as the element, with its attributes in order. -/
structure Fills (n : Node) : Prop where
  clash : hasClash (fieldTrees n) = false
  fill : ∃ d : Draft, d.node = n.ordered ∧ ∀ {fuel : Nat}, n.height < fuel →
    Gives (fill (assignField fuel) isField fuel ⟨#[], []⟩ none (fieldTrees n) .empty) (d, none)

theorem assigns_tag (fuel : Nat) (tag : String) (d : Draft) :
    Assigns (assignField (fuel + 1)) isField ⟨#[], []⟩ [entryTree "tag" tag] ["tag"] d
      { d with tag := tag } := by
  refine .single (by decide) ?_
  exact (gives_text tag).bind (.pure _)

theorem assigns_body (fuel : Nat) (body : String) (d : Draft) :
    Assigns (assignField (fuel + 1)) isField ⟨#[], []⟩ [entryTree "text" body] ["text"] d
      { d with body := body } := by
  refine .single (by decide) ?_
  exact (gives_text body).bind (.pure _)

theorem assigns_attrs {fuel : Nat} (hfuel : 0 < fuel) {attributes : List (String × String)}
    (h : (attributes.map (·.1)).Nodup) (hmerge : ∀ a ∈ attributes, a.1 ≠ "<<") {d : Draft}
    (hd : d.attributes = []) :
    Assigns (assignField (fuel + 1)) isField ⟨#[], []⟩ [(textTree "attrs", .mapping "!!map"
        ((inNaturalOrder attributes).map fun (n, v) => entryTree n v))] ["attrs"] d
      { d with attributes := inNaturalOrder attributes } := by
  refine .single (by decide) ?_
  have hread := gives_attributes h hmerge hfuel
  rw [← hd] at hread
  exact hread.bind (.pure _)

theorem assigns_children {fuel : Nat} {children : List Node} (h : ∀ n ∈ children, Fills n)
    (hfuel : Node.heightOfAll children < fuel) (d : Draft) :
    Assigns (assignField (fuel + 1)) isField ⟨#[], []⟩
      [(textTree "children", .sequence "!!seq" (itemTrees children))] ["children"] d
      { d with children := Node.orderedAll children } := by
  refine .single (by decide) ?_
  refine (gives_settle (by simp)).bind ((gives_children fun n hn => ?_).bind (.pure _))
  obtain ⟨d, hd, hfill⟩ := (h n hn).fill
  refine (gives_settle (by simp)).bind ?_
  dsimp only
  rw [(h n hn).clash, ← hd]
  exact (hfill (Nat.lt_of_le_of_lt (Node.height_le_heightOfAll hn) hfuel)).bind (.pure _)

/-- The fields of an element, one after the other. -/
theorem assigns_fields {fuel : Nat} (tag body : String) {attributes : List (String × String)}
    {children : List Node} (hnames : (attributes.map (·.1)).Nodup)
    (hmerge : ∀ a ∈ attributes, a.1 ≠ "<<") (h : ∀ n ∈ children, Fills n)
    (hfuel : Node.heightOfAll children < fuel) :
    Assigns (assignField (fuel + 1)) isField ⟨#[], []⟩
      (fieldTrees (.element tag attributes body children)) fieldNames
      .empty ⟨tag, inNaturalOrder attributes, body, Node.orderedAll children⟩ := by
  have htag := assigns_tag fuel tag .empty
  have hattrs := (assigns_attrs (d := ⟨tag, [], "", []⟩) (Nat.zero_lt_of_lt hfuel)
    hnames hmerge rfl).optional attributes.isEmpty fun hempty => by
      rw [List.isEmpty_iff.1 hempty, inNaturalOrder_nil]
  have hbody := (assigns_body fuel body
    ⟨tag, inNaturalOrder attributes, "", []⟩).optional body.isEmpty fun hempty => by
      rw [String.isEmpty_iff.1 hempty]
  have hchildren := (assigns_children h hfuel
    ⟨tag, inNaturalOrder attributes, body, []⟩).optional children.isEmpty fun hempty => by
      rw [List.isEmpty_iff.1 hempty]
      rfl
  rw [fieldTrees]
  -- the four keys are different, so the fields follow each other
  exact htag.trans (hattrs.trans (hbody.trans hchildren (by decide)) (by decide)) (by decide)

/-- **The fields of a written element are read as the element.** -/
theorem fills_of_survives {n : Node} (h : n.Survives) : Fills n := by
  induction h with
  | @element tag attributes body children _ _ hnames hmerge _ _ ih =>
    have hfields : fieldNames.Nodup := by decide
    have hassigns {fuel : Nat} (hfuel : Node.heightOfAll children < fuel) :=
      assigns_fields tag body hnames hmerge ih hfuel
    refine ⟨(hassigns (Nat.lt_succ_self _)).hasClash hfields, ?_⟩
    refine ⟨⟨tag, inNaturalOrder attributes, body, Node.orderedAll children⟩, rfl, ?_⟩
    intro fuel hfuel
    rw [Node.height] at hfuel
    cases fuel with
    | zero => exact absurd hfuel (Nat.not_lt_zero _)
    | succ fuel =>
      exact (hassigns (Nat.lt_of_succ_lt_succ hfuel)).fill hfields (by decide) (Nat.succ_pos fuel)

end

end Reading

/-- **A document of a written tree holds the tree**, with its attributes in natural order. -/
theorem element_of_survives {n : Node} (h : n.Survives) (htag : n.tag? ≠ some "") {fuel : Nat}
    (hfuel : n.height < fuel) :
    Document.element fuel ⟨.mapping "!!map" (fieldTrees n), []⟩ = .ok n.ordered := by
  obtain ⟨d, hd, hfill⟩ := (Reading.fills_of_survives h).fill
  have hroot : Reading.Gives (Reading.rootOf fuel ⟨#[], []⟩ (.mapping "!!map" (fieldTrees n))) d :=
    (Reading.gives_settle (by simp)).bind ((hfill hfuel).map (·.1))
  obtain ⟨visited, hrun⟩ := hroot 1
  have htag' : (d.tag == "") = false := by
    refine beq_false_of_ne fun hempty => htag ?_
    rw [← n.tag?_ordered, ← hd, ← hempty]
    rfl
  rw [Document.element, hrun]
  dsimp only [bind, Except.bind]
  rw [htag', hd]
  rfl

/-- The fuel of the reading is enough. -/
theorem height_le_length_fieldLexemes (n : Node) : n.height ≤ (fieldLexemes n).length := by
  induction n using Node.induction with
  | absent => exact Nat.le_refl 0
  | element tag attributes body children ih =>
    -- every item is at least one lexeme more than the fields of its element
    have hitems : Node.heightOfAll children ≤ (itemLexemes children).length := by
      induction children with
      | nil => exact Nat.le_refl 0
      | cons n rest ih' =>
        have hn := ih n List.mem_cons_self
        have hrest := ih' fun m hm => ih m (List.mem_cons_of_mem n hm)
        rw [Node.heightOfAll, itemLexemes]
        simp only [List.cons_append, List.length_cons, List.length_append]
        omega
    rw [Node.height, fieldLexemes]
    cases children with
    | nil => simp [Node.heightOfAll]
    | cons n rest =>
      simp only [List.isEmpty_cons, Bool.false_eq_true, if_false, List.length_cons,
        List.length_append]
      omega

/-- **A written tree is read again**: the same tree, with the attributes of every element in natural
order. -/
theorem read_toYaml {n : Node} (h : n.Survives) (htag : n.tag? ≠ some "")
    (hheight : 2 * n.height ≤ Lexer.maxDepth) :
    Yaml.read (Text.encode n.toYaml) = .ok n.ordered := by
  obtain ⟨list, htokens, hlist⟩ := tokens_toYaml h hheight
  have hfuel : n.height < (list.length + 2) * (list.length + 2) := by
    have hlength := congrArg List.length hlist
    have hbound := height_le_length_fieldLexemes n
    rw [List.length_map, List.length_append] at hlength
    have hsquare := Nat.le_mul_self (list.length + 2)
    omega
  rw [read, htokens]
  dsimp only
  rw [document_of_lexemes h hlist]
  exact element_of_survives h htag hfuel

end Blockwork.Yaml
