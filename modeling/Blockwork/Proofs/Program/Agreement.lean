import Blockwork.Proofs.Program.Reading
import Mathlib.Data.List.Forall2

/-!
# What parsing looks at

Parsing looks at little of a tree. Of the attributes of an element it reads six, and of each no more
than the value under its name. It reads the character data of fields and of variables. And it passes
over the children that only concern an editor, wherever they stand. Two trees **agree** if they are
the same in the rest (`Agree`): they are parsed to the same program, with the same warnings, or
refused with the same fault (`Agree.parse`).

What is passed over is taken out first. The children that are left are `essential`, and each reading
of a list of children comes to the same with these alone (`eq_of_passesOver`). Between them the
children of two trees that agree correspond one to one, and each parser takes the same turn on both
sides.

Trees are **alike** if they differ in the order of attributes only (`Alike`). Trees that are alike
agree, so they are parsed to the same program too.
-/

namespace Blockwork.Node

/-! ### What is passed over -/

/-- The attributes that parsing reads. -/
def readAttributes : List String := ["name", "type", "id", "variabletype", "islocal", "iscloud"]

/-- The tags of elements whose character data parsing reads. -/
def hasReadText (tag : String) : Bool := tag == "field" || tag == "variable"

/-- An element that only concerns an editor. -/
def isEditorial (n : Node) : Bool := n.tag?.any isDecoration

/-- The nodes that do not only concern an editor. -/
def essential (nodes : List Node) : List Node := nodes.filter (!·.isEditorial)

theorem essential_cons_of_pos {n : Node} (h : n.isEditorial = true) (nodes : List Node) :
    essential (n :: nodes) = essential nodes :=
  List.filter_cons_of_neg (by simp [h])

theorem essential_cons_of_neg {n : Node} (h : n.isEditorial = false) (nodes : List Node) :
    essential (n :: nodes) = n :: essential nodes :=
  List.filter_cons_of_pos (by simp [h])

theorem mem_of_mem_essential {n : Node} {nodes : List Node} (h : n ∈ essential nodes) :
    n ∈ nodes :=
  (List.mem_filter.1 h).1

/-- An editorial node is an element with the tag of a decoration. -/
theorem exists_of_isEditorial {n : Node} (h : n.isEditorial = true) :
    ∃ tag, n.tag? = some tag ∧ isDecoration tag = true :=
  (Option.any_eq_true _ _).1 h

theorem tag?_ne_of_isEditorial {n : Node} (tag : String) (htag : isDecoration tag = false)
    (h : n.isEditorial = true) : n.tag? ≠ some tag := by
  obtain ⟨t, ht, hdecoration⟩ := exists_of_isEditorial h
  intro hn
  rw [Option.some.inj (ht.symm.trans hn), htag] at hdecoration
  exact absurd hdecoration (by simp)

theorem absent_ne_of_isEditorial {n : Node} (h : n.isEditorial = true) : n ≠ .absent := by
  rintro rfl
  exact absurd h (by simp [isEditorial, tag?])

/-- **A reading that passes over decorations.** If a reading of nodes goes on behind an editorial
node as if it were not there, and of any other node and the rest depends on the rest only through
the reading of the rest, then it comes to the same for the essential nodes alone. -/
theorem eq_of_passesOver {β : Type} (reading : List Node → β)
    (hover : ∀ n nodes, n.isEditorial = true → reading (n :: nodes) = reading nodes)
    (hrest : ∀ n nodes nodes', reading nodes = reading nodes' →
      reading (n :: nodes) = reading (n :: nodes')) (nodes : List Node) :
    reading (essential nodes) = reading nodes := by
  induction nodes with
  | nil => rfl
  | cons n nodes ih =>
    cases hn : n.isEditorial with
    | true => rw [essential_cons_of_pos hn, ih, hover n nodes hn]
    | false =>
      rw [essential_cons_of_neg hn]
      exact hrest n _ _ ih

/-- The search for a child passes over decorations, unless it is one that is searched. -/
theorem firstChild?_essential {tag : String} (htag : isDecoration tag = false)
    (nodes : List Node) : firstChild? tag (essential nodes) = firstChild? tag nodes := by
  apply eq_of_passesOver
  · intro n nodes hn
    rw [firstChild?_cons (absent_ne_of_isEditorial hn), if_neg (tag?_ne_of_isEditorial tag htag hn)]
  · intro n nodes nodes' hrest
    cases n with
    | absent => rfl
    | element t attributes body children => rw [firstChild?, firstChild?, hrest]

theorem firstBlock_essential (nodes : List Node) :
    firstBlock (essential nodes) = firstBlock nodes := by
  rw [firstBlock_eq, firstBlock_eq, firstChild?_essential rfl]

theorem toVariables_essential (nodes : List Node) :
    toVariables (essential nodes) = toVariables nodes := by
  apply eq_of_passesOver
  · intro n nodes hn
    have hother := tag?_ne_of_isEditorial "variable" rfl hn
    cases n with
    | absent => exact absurd rfl (absent_ne_of_isEditorial hn)
    | element tag attributes body children =>
      rw [toVariables, if_neg fun h => hother (congrArg some (eq_of_beq h))]
  · intro n nodes nodes' hrest
    cases n with
    | absent => rfl
    | element tag attributes body children => rw [toVariables, toVariables, hrest]

theorem declared_essential (nodes : List Node) :
    declared (essential nodes) = declared nodes := by
  apply eq_of_passesOver
  · intro n nodes hn
    have hother := tag?_ne_of_isEditorial "variables" rfl hn
    cases n with
    | absent => exact absurd rfl (absent_ne_of_isEditorial hn)
    | element tag attributes body children =>
      rw [declared, if_neg fun h => hother (congrArg some h)]
  · intro n nodes nodes' hrest
    cases n with
    | absent => rfl
    | element tag attributes body children => rw [declared, declared, hrest]

/-- A run through the children of a block passes over decorations, whatever it has met before. -/
theorem parseInterior_essential (opcode id : String) (seen : Interior) (nodes : List Node) :
    parseInterior opcode id seen (essential nodes) = parseInterior opcode id seen nodes := by
  refine congrFun (eq_of_passesOver
    (fun nodes (seen : Interior) => parseInterior opcode id seen nodes) ?_ ?_ nodes) seen
  · intro n nodes hn
    funext seen
    obtain ⟨tag, htag, hdecoration⟩ := exists_of_isEditorial hn
    have hmember : isMemberTag tag = false := by
      have htags : tag = "mutation" ∨ tag = "comment" ∨ tag = "data" := by
        simpa [isDecoration, or_assoc] using hdecoration
      rcases htags with rfl | rfl | rfl <;> rfl
    have hnext : tag ≠ "next" := by
      rintro rfl
      exact tag?_ne_of_isEditorial "next" rfl hn htag
    rw [parseInterior_other opcode id seen nodes htag hmember hnext, if_pos hdecoration]
  · intro n nodes nodes' hrest
    funext seen
    -- whatever is met first, the run goes on with the rest
    have hafter : ∀ seen,
        parseInterior opcode id seen nodes = parseInterior opcode id seen nodes' :=
      congrFun hrest
    rw [parseInterior, parseInterior]
    simp only [hafter]

/-- No script starts at a decoration. -/
theorem filter_startsScript_essential (entryTypes : List String) (nodes : List Node) :
    (essential nodes).filter (startsScript entryTypes) =
      nodes.filter (startsScript entryTypes) := by
  unfold essential
  rw [List.filter_filter]
  refine List.filter_congr fun n _ => ?_
  cases hstarts : startsScript entryTypes n with
  | false => rfl
  | true =>
    have htag : n.tag? = some "block" := by
      simpa using (Bool.and_eq_true_iff.1 hstarts).1
    have hkept : n.isEditorial = false :=
      Bool.eq_false_iff.2 fun hn => tag?_ne_of_isEditorial "block" rfl hn htag
    rw [hkept]
    rfl

/-! ### Trees that agree -/

/-- **Two trees agree** in what parsing looks at. -/
inductive Agree : Node → Node → Prop
  | absent : Agree .absent .absent
  | element {tag body body' : String} {attributes attributes' : List (String × String)}
      {children children' : List Node}
      (same_values : ∀ name ∈ readAttributes, attr attributes name = attr attributes' name)
      (same_text : hasReadText tag = true → visibleText body = visibleText body')
      (same_children : List.Forall₂ Agree (essential children) (essential children')) :
      Agree (.element tag attributes body children) (.element tag attributes' body' children')

variable {n m : Node} {nodes nodes' : List Node} {attributes attributes' : List (String × String)}

theorem Agree.tag? (h : Agree n m) : n.tag? = m.tag? := by
  cases h with
  | absent => rfl
  | element => rfl

theorem Agree.attrOf (h : Agree n m) {name : String} (hname : name ∈ readAttributes) :
    n.attrOf name = m.attrOf name := by
  cases h with
  | absent => rfl
  | element hvalues _ _ => exact hvalues name hname

/-! ### Literals and variables -/

theorem toField_agree (h : ∀ name ∈ readAttributes, attr attributes name = attr attributes' name)
    {body body' : String} (hbody : visibleText body = visibleText body') :
    toField attributes body = toField attributes' body' := by
  unfold toField
  rw [h "name" (by decide), h "id" (by decide), h "variabletype" (by decide), hbody]

/-- The search for a child takes the same turn on both sides. -/
theorem firstChild?_agree (tag : String) (htag : isDecoration tag = false)
    (h : List.Forall₂ Agree (essential nodes) (essential nodes')) :
    (∃ e, firstChild? tag nodes = .error e ∧ firstChild? tag nodes' = .error e) ∨
      (firstChild? tag nodes = .ok none ∧ firstChild? tag nodes' = .ok none) ∨
      ∃ n m, Agree n m ∧ n.tag? = some tag ∧ firstChild? tag nodes = .ok (some n) ∧
        firstChild? tag nodes' = .ok (some m) := by
  -- the children that the search passes over can be left out on both sides
  rw [← firstChild?_essential htag nodes, ← firstChild?_essential htag nodes']
  generalize essential nodes = kept at h ⊢
  generalize essential nodes' = kept' at h ⊢
  induction h with
  | nil => exact .inr (.inl ⟨rfl, rfl⟩)
  | cons hn _ ih =>
    cases hn with
    | absent => exact .inl ⟨.absentNode, rfl, rfl⟩
    | @element t body body' attributes attributes' children children' hvalues htext hchildren =>
      rw [firstChild?, firstChild?]
      by_cases ht : (t == tag) = true
      · rw [if_pos ht, if_pos ht]
        exact .inr (.inr ⟨_, _, .element hvalues htext hchildren, congrArg some (eq_of_beq ht),
          rfl, rfl⟩)
      · rw [if_neg ht, if_neg ht]
        exact ih

theorem toShadow_agree (h : ∀ name ∈ readAttributes, attr attributes name = attr attributes' name)
    (hnodes : List.Forall₂ Agree (essential nodes) (essential nodes')) :
    toShadow attributes nodes = toShadow attributes' nodes' := by
  have hid : attr attributes "id" = attr attributes' "id" := h "id" (by decide)
  unfold toShadow
  rcases firstChild?_agree "field" rfl hnodes with
    ⟨e, hn, hm⟩ | ⟨hn, hm⟩ | ⟨n, m, hnm, htag, hn, hm⟩
  · rw [hn, hm]
  · rw [hn, hm]
    dsimp only
    rw [hid]
  · rw [hn, hm]
    cases hnm with
    | absent => exact absurd htag (by simp [Node.tag?])
    | element hvalues htext _ =>
      -- it is a field, so its text is read
      obtain rfl := Option.some.inj htag
      dsimp only
      rw [h "type" (by decide), hid, toField_agree hvalues (htext rfl)]

theorem findShadow_agree (h : List.Forall₂ Agree (essential nodes) (essential nodes')) :
    findShadow nodes = findShadow nodes' := by
  unfold findShadow
  rcases firstChild?_agree "shadow" rfl h with
    ⟨e, hn, hm⟩ | ⟨hn, hm⟩ | ⟨n, m, hnm, htag, hn, hm⟩
  · rw [hn, hm]
  · rw [hn, hm]
  · rw [hn, hm]
    cases hnm with
    | absent => rfl
    | element hvalues _ hchildren =>
      dsimp only
      rw [toShadow_agree hvalues hchildren]

theorem toVariables_agree (h : List.Forall₂ Agree (essential nodes) (essential nodes')) :
    toVariables nodes = toVariables nodes' := by
  -- only the elements that declare something matter
  rw [← toVariables_essential nodes, ← toVariables_essential nodes']
  generalize essential nodes = kept at h ⊢
  generalize essential nodes' = kept' at h ⊢
  induction h with
  | nil => rfl
  | cons hn _ ih =>
    cases hn with
    | absent => rfl
    | @element tag body body' attributes attributes' _ _ hvalues htext _ =>
      rw [toVariables, toVariables]
      by_cases htag : (tag == "variable") = true
      · obtain rfl := eq_of_beq htag
        have hname : variableName attributes body = variableName attributes' body' := by
          rw [variableName, variableName, hvalues "name" (by decide), htext rfl]
        rw [if_pos htag, if_pos htag, hname, hvalues "id" (by decide), hvalues "type" (by decide),
          hvalues "islocal" (by decide), hvalues "iscloud" (by decide), ih]
      · rw [if_neg htag, if_neg htag]
        exact ih

/-! ### Blocks and members -/

/-- Two nodes are parsed alike, in each place where a node may stand. -/
structure ParsedAlike (n m : Node) : Prop where
  agree : Agree n m
  chain : parseChain n = parseChain m
  member : parseMember n = parseMember m
  first : firstBlockOf n = firstBlockOf m

theorem firstBlock_parsedAlike
    (h : List.Forall₂ ParsedAlike (essential nodes) (essential nodes')) :
    firstBlock nodes = firstBlock nodes' := by
  rw [← firstBlock_essential nodes, ← firstBlock_essential nodes']
  generalize essential nodes = kept at h ⊢
  generalize essential nodes' = kept' at h ⊢
  induction h with
  | nil => rfl
  | cons hn _ ih => rw [firstBlock, firstBlock, hn.agree.tag?, hn.chain, ih]

theorem parseInterior_parsedAlike (opcode id : String) (seen : Interior)
    (h : List.Forall₂ ParsedAlike (essential nodes) (essential nodes')) :
    parseInterior opcode id seen nodes = parseInterior opcode id seen nodes' := by
  rw [← parseInterior_essential, ← parseInterior_essential opcode id seen nodes']
  generalize essential nodes = kept at h ⊢
  generalize essential nodes' = kept' at h ⊢
  induction h generalizing seen with
  | nil => rfl
  | cons hn _ ih =>
    rw [parseInterior, parseInterior, hn.agree.tag?, hn.member, hn.first]
    simp only [ih]

/-- **Nodes that agree are parsed alike.** -/
theorem Agree.parsed : ∀ {m : Node}, Agree n m → ParsedAlike n m := by
  induction n using Node.induction with
  | absent =>
    rintro m ⟨⟩
    exact ⟨.absent, rfl, rfl, rfl⟩
  | element tag attributes body children ih =>
    rintro m ⟨⟩
    rename_i body' attributes' children' hvalues htext hchildren
    have hinner : List.Forall₂ ParsedAlike (essential children) (essential children') :=
      ((List.forall₂_and_left _ _).2 ⟨fun c hc => @ih c (mem_of_mem_essential hc), hchildren⟩).imp
        fun _ _ h => h.1 h.2
    have htype : attr attributes "type" = attr attributes' "type" := hvalues "type" (by decide)
    have hid : attr attributes "id" = attr attributes' "id" := hvalues "id" (by decide)
    have hname : attr attributes "name" = attr attributes' "name" := hvalues "name" (by decide)
    refine ⟨.element hvalues htext hchildren, ?_, ?_, ?_⟩
    · simp only [parseChain, htype, hid, parseInterior_parsedAlike _ _ _ hinner]
    · rw [parseMember, parseMember, hname, firstBlock_parsedAlike hinner,
        findShadow_agree hchildren]
      by_cases htag : tag = "field"
      · rw [toField_agree hvalues (htext (by simp [hasReadText, htag]))]
      · -- the text of other elements is not read
        simp only [beq_iff_eq, htag, if_false]
    · rw [firstBlockOf, firstBlockOf, firstBlock_parsedAlike hinner]

/-! ### Documents -/

theorem declared_agree (h : List.Forall₂ Agree (essential nodes) (essential nodes')) :
    declared nodes = declared nodes' := by
  rw [← declared_essential nodes, ← declared_essential nodes']
  generalize essential nodes = kept at h ⊢
  generalize essential nodes' = kept' at h ⊢
  induction h with
  | nil => rfl
  | cons hn _ ih =>
    cases hn with
    | absent => rfl
    | element _ _ hchildren => rw [declared, declared, toVariables_agree hchildren, ih]

theorem Agree.startsScript (h : Agree n m) (entryTypes : List String) :
    startsScript entryTypes n = startsScript entryTypes m := by
  rw [Node.startsScript, Node.startsScript, isEntry, isEntry, h.tag?, h.attrOf (by decide)]

theorem map_attrOf_agree (h : List.Forall₂ Agree nodes nodes') {name : String}
    (hname : name ∈ readAttributes) :
    nodes.map (·.attrOf name) = nodes'.map (·.attrOf name) := by
  induction h with
  | nil => rfl
  | cons hn _ ih => rw [List.map_cons, List.map_cons, hn.attrOf hname, ih]

/-- **Trees that agree are parsed to the same program** or refused with the same fault. -/
theorem Agree.parse (h : Agree n m) (entryTypes : List String) :
    n.parse entryTypes = m.parse entryTypes := by
  cases h with
  | absent => rfl
  | @element _ _ _ _ _ children children' _ _ hchildren =>
    have hcandidates : List.Forall₂ Agree (children.filter (Node.startsScript entryTypes))
        (children'.filter (Node.startsScript entryTypes)) := by
      rw [← filter_startsScript_essential, ← filter_startsScript_essential entryTypes children']
      exact List.rel_filter (fun _ _ hn => by dsimp only; rw [hn.startsScript]) hchildren
    rw [parse_element, parse_element, declared_agree hchildren]
    refine congrArg _ (funext fun vars => ?_)
    generalize children.filter (Node.startsScript entryTypes) = found at hcandidates ⊢
    generalize children'.filter (Node.startsScript entryTypes) = found' at hcandidates ⊢
    -- none, one or more candidates
    rcases hcandidates with _ | ⟨hfirst, _ | ⟨hsecond, hrest⟩⟩
    · rfl
    · dsimp only
      rw [hfirst.parsed.chain]
    · dsimp only
      rw [map_attrOf_agree (.cons hfirst (.cons hsecond hrest)) (by decide)]

/-! ### Trees that are alike -/

/-- Two trees with the same tags, the same values of attributes, the same texts and the same
children. -/
inductive Alike : Node → Node → Prop
  | absent : Alike .absent .absent
  | element {tag body : String} {attributes attributes' : List (String × String)}
      {children children' : List Node}
      (same_values : ∀ name, lookup? attributes name = lookup? attributes' name)
      (same_children : List.Forall₂ Alike children children') :
      Alike (.element tag attributes body children) (.element tag attributes' body children')

theorem Alike.tag? (h : Alike n m) : n.tag? = m.tag? := by
  cases h with
  | absent => rfl
  | element => rfl

/-- The order of attributes is not looked at. -/
theorem Alike.agree : ∀ {m : Node}, Alike n m → Agree n m := by
  induction n using Node.induction with
  | absent =>
    rintro m ⟨⟩
    exact .absent
  | element tag attributes body children ih =>
    rintro m ⟨⟩
    rename_i attributes' children' hvalues hchildren
    refine .element (fun name _ => ?_) (fun _ => rfl) ?_
    · rw [attr, attr, hvalues]
    · have hinner : List.Forall₂ (fun c c' => Alike c c' ∧ Agree c c') children children' :=
        ((List.forall₂_and_left _ _).2 ⟨ih, hchildren⟩).imp fun _ _ h => ⟨h.2, h.1 h.2⟩
      -- alike children have the same tags, so the same of them are left out
      have hkept := List.rel_filter (p := (!·.isEditorial)) (q := (!·.isEditorial))
        (fun _ _ h => by simp only [isEditorial, h.1.tag?]) hinner
      exact hkept.imp fun _ _ h => h.2

/-- **Alike trees are parsed to the same program** or refused with the same fault. -/
theorem Alike.parse (h : Alike n m) (entryTypes : List String) :
    n.parse entryTypes = m.parse entryTypes :=
  h.agree.parse entryTypes

end Blockwork.Node
