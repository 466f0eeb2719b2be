import Blockwork.Program.Parse

/-!
# Reading trees

What the proofs about parsing share. A tree is followed by `Node.induction`. The outcome of a
parser is computed apart from its warnings: on outcomes, the parsers' own sequencing is that of
`Except`, and a place only changes the fault.

The search for a child has a meaning of its own, `IsFirst`. Over nodes of which none is absent the
search always answers, and it answers with the first node that has the tag.
-/

namespace Blockwork

namespace Node

/-- The children of a node; an absent node has none. -/
def children : Node → List Node
  | .absent => []
  | .element _ _ _ children => children

/-- The character data of a node. -/
def body : Node → String
  | .absent => ""
  | .element _ _ body _ => body

/-- The first of some nodes that has a tag. -/
def IsFirst (tag : String) (nodes : List Node) (n : Node) : Prop :=
  ∃ before after, nodes = before ++ n :: after ∧ n.tag? = some tag ∧
    ∀ m ∈ before, m.tag? ≠ some tag

/-- No element of the tree has an absent child. -/
inductive Complete : Node → Prop where
  | absent : Complete .absent
  | element {tag : String} {attributes : List (String × String)} {body : String}
      {children : List Node} : (∀ n ∈ children, n ≠ .absent) → (∀ n ∈ children, Complete n) →
      Complete (.element tag attributes body children)

/-- **Induction over trees**: a property holds of an element if it holds of its children. -/
theorem induction {P : Node → Prop} (absent : P .absent)
    (element : ∀ tag attributes body children, (∀ n ∈ children, P n) →
      P (.element tag attributes body children)) : ∀ n, P n
  | .absent => absent
  | .element tag attributes body children =>
    element tag attributes body children fun n _ => induction absent element n

theorem exists_tag {n : Node} (h : n ≠ .absent) : ∃ tag, n.tag? = some tag := by
  cases n with
  | absent => exact absurd rfl h
  | element tag attributes body inner => exact ⟨tag, rfl⟩

@[simp]
theorem complete_element_iff {tag : String} {attributes : List (String × String)} {body : String}
    {inner : List Node} : Complete (.element tag attributes body inner) ↔
      (∀ n ∈ inner, n ≠ .absent) ∧ ∀ n ∈ inner, Complete n := by
  constructor
  · rintro ⟨⟩
    exact ⟨‹_›, ‹_›⟩
  · exact fun h => .element h.1 h.2

theorem Complete.children {n : Node} (h : n.Complete) :
    (∀ c ∈ n.children, c ≠ .absent) ∧ ∀ c ∈ n.children, c.Complete := by
  cases n with
  | absent => exact ⟨fun _ hc => absurd hc List.not_mem_nil, fun _ hc => absurd hc List.not_mem_nil⟩
  | element tag attributes body inner => exact complete_element_iff.1 h

/-! ### Searching a child -/

theorem IsFirst.mem {tag : String} {nodes : List Node} {n : Node} (h : IsFirst tag nodes n) :
    n ∈ nodes := by
  obtain ⟨before, after, rfl, -, -⟩ := h
  exact List.mem_append_right _ List.mem_cons_self

/-- The first node of a list is the first with its own tag. -/
theorem isFirst_cons_self {tag : String} {n : Node} {nodes : List Node}
    (h : n.tag? = some tag) : IsFirst tag (n :: nodes) n :=
  ⟨[], nodes, rfl, h, fun _ hm => absurd hm List.not_mem_nil⟩

/-- A node with another tag does not count. -/
theorem isFirst_cons_iff {tag : String} {m n : Node} {nodes : List Node}
    (h : m.tag? ≠ some tag) : IsFirst tag (m :: nodes) n ↔ IsFirst tag nodes n := by
  constructor
  · rintro ⟨before, after, hsplit, htag, hbefore⟩
    cases before with
    | nil => exact absurd ((List.cons.inj hsplit).1 ▸ htag) h
    | cons c before =>
      exact ⟨before, after, (List.cons.inj hsplit).2, htag,
        fun k hk => hbefore k (List.mem_cons_of_mem c hk)⟩
  · rintro ⟨before, after, rfl, htag, hbefore⟩
    refine ⟨m :: before, after, rfl, htag, fun k hk => ?_⟩
    rcases List.mem_cons.1 hk with rfl | hk
    · exact h
    · exact hbefore k hk

/-- One step of the search. -/
theorem firstChild?_cons {tag : String} {n : Node} {nodes : List Node} (h : n ≠ .absent) :
    firstChild? tag (n :: nodes)
      = if n.tag? = some tag then .ok (some n) else firstChild? tag nodes := by
  cases n with
  | absent => exact absurd rfl h
  | element t attributes body children =>
    by_cases ht : t = tag
    · simp [firstChild?, tag?, ht]
    · simp [firstChild?, tag?, ht]

/-- **The search always answers**, and its answer is the first node with the tag. -/
theorem firstChild?_spec (tag : String) {nodes : List Node} (h : ∀ n ∈ nodes, n ≠ .absent) :
    ∃ found, firstChild? tag nodes = .ok found ∧ ∀ n, IsFirst tag nodes n ↔ found = some n := by
  induction nodes with
  | nil =>
    refine ⟨none, rfl, fun n => ⟨fun hn => absurd hn.mem List.not_mem_nil, fun hn => ?_⟩⟩
    exact absurd hn (by simp)
  | cons m nodes ih =>
    rw [firstChild?_cons (h m List.mem_cons_self)]
    by_cases htag : m.tag? = some tag
    · -- the search stops here, and another split would have the tag too early
      rw [if_pos htag]
      refine ⟨some m, rfl, fun n => ⟨?_, fun hn => Option.some.inj hn ▸ isFirst_cons_self htag⟩⟩
      rintro ⟨before, after, hsplit, -, hbefore⟩
      cases before with
      | nil => rw [(List.cons.inj hsplit).1]
      | cons c before =>
        exact absurd ((List.cons.inj hsplit).1 ▸ htag) (hbefore c List.mem_cons_self)
    · rw [if_neg htag]
      obtain ⟨found, hfound, hfirst⟩ := ih fun k hk => h k (List.mem_cons_of_mem m hk)
      exact ⟨found, hfound, fun n => (isFirst_cons_iff htag).trans (hfirst n)⟩

/-- There is a first node with a tag as soon as there is one. -/
theorem exists_isFirst_iff {tag : String} {nodes : List Node} :
    (∃ n, IsFirst tag nodes n) ↔ ∃ n ∈ nodes, n.tag? = some tag := by
  constructor
  · rintro ⟨n, hn⟩
    obtain ⟨before, after, rfl, htag, -⟩ := hn
    exact ⟨n, List.mem_append_right _ List.mem_cons_self, htag⟩
  · rintro ⟨n, hn, htag⟩
    induction nodes with
    | nil => exact absurd hn List.not_mem_nil
    | cons m nodes ih =>
      by_cases hm : m.tag? = some tag
      · exact ⟨m, isFirst_cons_self hm⟩
      · -- the node that is known to be there comes later
        have hrest : n ∈ nodes := by
          rcases List.mem_cons.1 hn with rfl | hn
          · exact absurd htag hm
          · exact hn
        obtain ⟨k, hk⟩ := ih hrest
        exact ⟨k, (isFirst_cons_iff hm).2 hk⟩

/-- The first block is searched like any other child, and then parsed. -/
theorem firstBlock_eq (nodes : List Node) :
    firstBlock nodes = (firstChild? "block" nodes).map (Option.map parseChain) := by
  induction nodes with
  | nil => rfl
  | cons n nodes ih =>
    cases n with
    | absent => rfl
    | element tag attributes body children =>
      by_cases htag : tag = "block"
      · simp [firstBlock, firstChild?, tag?, htag, Except.map]
      · simp [firstBlock, firstChild?, tag?, htag, ih]

theorem firstBlockOf_eq {n : Node} (h : n ≠ .absent) : firstBlockOf n = firstBlock n.children := by
  cases n with
  | absent => exact absurd rfl h
  | element tag attributes body inner => rw [firstBlockOf, Node.children]

end Node

/-! ### Outcomes -/

theorem ok_bind {ε α β : Type} (a : α) (f : α → Except ε β) : (Except.ok a >>= f) = f a := rfl

namespace Parsed

variable {α β : Type}

@[simp]
theorem outcome_ok (a : α) : (ok a).outcome = .ok a := rfl

@[simp]
theorem outcome_bind (x : Parsed α) (f : α → Parsed β) :
    (x >>= f).outcome = x.outcome >>= fun a => (f a).outcome := by
  obtain ⟨outcome, warnings⟩ := x
  cases outcome with
  | ok a => rfl
  | error e => rfl

@[simp]
theorem outcome_within (place : ParseError → ParseError) (x : Parsed α) :
    (x.within place).outcome = x.outcome.mapError place := by
  obtain ⟨outcome, warnings⟩ := x
  cases outcome with
  | ok a => rfl
  | error e => rfl

end Parsed

namespace Node

@[simp]
theorem outcome_addMember (opcode id : String) (seen : Interior) (m : Member) :
    (addMember opcode id seen m).outcome = .ok { seen with members := m :: seen.members } := by
  rw [addMember]
  cases lastKind? seen.members m.name with
  | none => rfl
  | some earlier => rfl

/-- A block element is read as its type and id, its children, and the chain in its `next`. -/
theorem outcome_parseChain_block {attributes : List (String × String)} {body : String}
    {children : List Node} (htype : attr attributes "type" ≠ "") :
    (parseChain (.element "block" attributes body children)).outcome
      = (parseInterior (attr attributes "type") (attr attributes "id") {} children).outcome >>=
        fun interior => interior.rest.outcome.map
          (.mk (attr attributes "type") (attr attributes "id") interior.members.reverse :: ·) := by
  rw [parseChain, if_neg (by simp), if_neg htype, Parsed.outcome_bind]
  refine congrArg _ (funext fun interior => ?_)
  rw [Parsed.outcome_bind]
  cases interior.rest.outcome with
  | ok rest => rfl
  | error e => rfl

/-! ### Members -/

section Member

variable {attributes : List (String × String)} (body : String) (inner : List Node)

theorem parseMember_value (hname : attr attributes "name" ≠ "") :
    parseMember (.element "value" attributes body inner)
      = chooseContent (attr attributes "name") (firstBlock inner) (findShadow inner) := by
  rw [parseMember, if_neg hname, if_pos (by simp)]

theorem parseMember_statement (hname : attr attributes "name" ≠ "") :
    parseMember (.element "statement" attributes body inner)
      = match firstBlock inner with
        | .error e => .fail e
        | .ok none => .fail (.emptyStatement (attr attributes "name"))
        | .ok (some chain) =>
          chain.within (.inStatement (attr attributes "name")) >>= fun body =>
            .ok (.statement (attr attributes "name") body) := by
  rw [parseMember, if_neg hname, if_neg (by simp)]
  exact if_pos (by simp)

theorem parseMember_field (hname : attr attributes "name" ≠ "") :
    parseMember (.element "field" attributes body inner)
      = .ok (.field (toField attributes body)) := by
  rw [parseMember, if_neg hname, if_neg (by simp), if_neg (by simp), if_pos (by simp)]

end Member

/-! ### One child of a block -/

section Child

variable {n : Node} {tag : String} (opcode id : String) (seen : Interior) (nodes : List Node)

theorem outcome_parseInterior_member (htag : n.tag? = some tag) (hmember : isMemberTag tag = true) :
    (parseInterior opcode id seen (n :: nodes)).outcome
      = (parseMember n).outcome.mapError (.inBlock id opcode) >>= fun m =>
        (parseInterior opcode id { seen with members := m :: seen.members } nodes).outcome := by
  rw [parseInterior, htag]
  dsimp only
  -- a warning about a repeated name does not show in the outcome
  rw [if_pos hmember]
  simp only [Parsed.outcome_bind, Parsed.outcome_within, outcome_addMember, ok_bind]

/-- A `next` is read without a look at the chain in it. -/
theorem parseInterior_next (htag : n.tag? = some "next") :
    parseInterior opcode id seen (n :: nodes)
      = if seen.next.isSome then .fail (.manyNext id)
        else match firstBlock n.children with
          | .error e => .fail e
          | .ok none => .fail (.emptyNext id)
          | .ok (some chain) =>
            parseInterior opcode id { seen with next := some chain } nodes := by
  have hpresent : n ≠ .absent := by
    rintro rfl
    exact absurd htag (by simp [tag?])
  rw [parseInterior, htag, firstBlockOf_eq hpresent]
  rfl

theorem parseInterior_other (htag : n.tag? = some tag) (hmember : isMemberTag tag = false)
    (hnext : tag ≠ "next") :
    parseInterior opcode id seen (n :: nodes)
      = if isDecoration tag then parseInterior opcode id seen nodes
        else .fail (.unexpectedChild tag id) := by
  rw [parseInterior, htag]
  dsimp only
  rw [if_neg (by simp [hmember]), if_neg (by simp [hnext])]

end Child

/-! ### The top level -/

/-- Whether a script may start at a node. -/
def startsScript (entryTypes : List String) (n : Node) : Bool :=
  n.tag? == some "block" && isEntry entryTypes n

/-- The variables that the `variables` elements among some nodes declare. -/
def declared : List Node → Except ParseError (List Variable)
  | [] => .ok []
  | .absent :: _ => .error .absentNode
  | .element tag _ _ children :: rest =>
    if tag = "variables" then do
      let vars ← toVariables children
      let more ← declared rest
      .ok (vars ++ more)
    else declared rest

/-- The two parts of an outline do not depend on each other. -/
theorem outline_eq (entryTypes : List String) (nodes : List Node) :
    outline entryTypes nodes
      = (declared nodes).map (⟨·, nodes.filter (startsScript entryTypes)⟩) := by
  induction nodes with
  | nil => rfl
  | cons n nodes ih =>
    cases n with
    | absent => rfl
    | element tag attributes body inner =>
      rw [outline, declared, ih]
      by_cases hvariables : tag = "variables"
      · -- no script starts at it, so the candidates are those of the rest
        rw [if_pos (by simp [hvariables]), if_pos hvariables,
          List.filter_cons_of_neg (by simp [startsScript, tag?, hvariables])]
        cases toVariables inner with
        | error e => rfl
        | ok vars =>
          cases declared nodes with
          | error e => rfl
          | ok more => rfl
      · rw [if_neg (by simp [hvariables]), if_neg hvariables]
        by_cases hstarts : startsScript entryTypes (.element tag attributes body inner) = true
        · rw [if_pos (by simpa [startsScript, tag?] using hstarts), List.filter_cons_of_pos hstarts]
          cases declared nodes with
          | error e => rfl
          | ok more => rfl
        · rw [if_neg (by simpa [startsScript, tag?] using hstarts),
            List.filter_cons_of_neg hstarts]

/-- Parsing a document: its variables, and the one block at which a script starts. -/
theorem parse_element (entryTypes : List String) (tag : String)
    (attributes : List (String × String)) (body : String) (nodes : List Node) :
    parse entryTypes (.element tag attributes body nodes)
      = declared nodes >>= fun vars =>
        match nodes.filter (startsScript entryTypes) with
        | [] => .error .noEntry
        | [b] => (parseChain b).outcome.map (⟨vars, ·, (parseChain b).warnings⟩)
        | many => .error (.manyEntries (many.map (·.attrOf "id"))) := by
  rw [parse, outline_eq]
  cases declared nodes with
  | error e => rfl
  | ok vars =>
    simp only [Except.map, ok_bind]
    -- none, one or more candidates, as in the parser
    rcases nodes.filter (startsScript entryTypes) with _ | ⟨b, _ | ⟨c, rest⟩⟩
    · rfl
    · cases hchain : (parseChain b).outcome with
      | error e => simp [hchain, bind, Except.bind]
      | ok chain => simp [hchain, bind, Except.bind]
    · rfl

/-- **What a document is read from**: the declarations and one top-level block. -/
theorem parse_eq_ok {entryTypes : List String} {root : Node} {doc : Document}
    (h : root.parse entryTypes = .ok doc) :
    declared root.children = .ok doc.declarations ∧
      ∃ b ∈ root.children, parseChain b = ⟨.ok doc.entry, doc.warnings⟩ := by
  cases root with
  | absent => exact absurd h nofun
  | element tag attributes body nodes =>
    rw [parse_element] at h
    cases hvars : declared nodes with
    | error e =>
      rw [hvars] at h
      exact absurd h nofun
    | ok vars =>
      rw [hvars, ok_bind] at h
      have hcandidates : ∀ n ∈ nodes.filter (startsScript entryTypes), n ∈ nodes :=
        fun n hn => (List.mem_filter.1 hn).1
      generalize nodes.filter (startsScript entryTypes) = candidates at h hcandidates
      -- with none or several there is no document
      rcases candidates with _ | ⟨b, _ | ⟨c, rest⟩⟩
      · exact absurd h (by simp)
      · cases hentry : (parseChain b).outcome with
        | error e => exact absurd h (by simp [hentry, Except.map])
        | ok entry =>
          simp only [hentry, Except.map, Except.ok.injEq] at h
          subst h
          exact ⟨hvars, b, hcandidates b List.mem_cons_self, by rw [← hentry]⟩
      · exact absurd h (by simp)

end Node

end Blockwork
