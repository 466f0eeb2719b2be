import Blockwork.Proofs.Program.Position
import Blockwork.Proofs.Program.Reading
import Mathlib.Data.List.Forall2

/-!
# Writing programs as trees

The evident encoding of a program as a tree, and the proof that parsing takes it back.

**Rendering.** A variable becomes a `variable` element, a block a `block` element with one child
for each member, in order. The block that follows in a chain is wrapped in a `next` element, and
where this element stands among the members is left open: `place p` is the number of members in
front of it, in the block at position `p`. So a theorem about all `place` is about every order in
which a program can be written.

**Reading back.** A chain is written as no node at all if it is empty, and otherwise as one block
element that parses to the chain (`Written`). This passes from the slots of a block and from the
rest of the chain to the chain. The step from members to a block is `parseInterior_members`: a run
through nodes that write members collects these members and nothing else, wherever it starts.

A program can only be written if nothing in it is left out or changed by the tree: opcodes and
names must not be empty, slots must not be empty, and texts must not be invisible (`Writable`).
-/

namespace Blockwork

/-! ### What can be written -/

/-- A text that is read as it is written: the parser takes blank texts for indentation. -/
def Text.Visible (text : String) : Prop := text = "" ∨ Text.isAllBlank text = false

/-- A named member with content. -/
def Member.Writable (m : Member) : Prop :=
  m.name ≠ "" ∧
    match m with
    | .expression _ chain => chain ≠ []
    | .literal _ shadow => Text.Visible shadow.field.value
    | .statement _ chain => chain ≠ []
    | .field f => Text.Visible f.value

/-- A block with an opcode, all of whose members can be written. -/
def Block.Writable (b : Block) : Prop := b.opcode ≠ "" ∧ ∀ m ∈ b.members, m.Writable

namespace Node

/-! ### Rendering -/

/-- A field element. -/
def renderField (f : Field) : Node :=
  .element "field" [("name", f.name), ("id", f.id), ("variabletype", f.variableType)] f.value []

/-- A shadow element around its field. -/
def renderShadow (s : Shadow) : Node :=
  .element "shadow" [("type", s.type), ("id", s.id)] "" [renderField s.field]

/-- A `next` element around a block. -/
def renderNext (n : Node) : Node := .element "next" [] "" [n]

mutual

/-- A chain whose first block has number `i`: no node if the chain is empty, else one. -/
def renderFrom (place : Chain.Position → Nat) (i : Nat) : List Block → List Node
  | [] => []
  | b :: rest => [renderBlock (fun p => place (i :: p))
      ((renderFrom place (i + 1) rest).map renderNext) b]

/-- A block with the node that leads to the next one, if there is one. -/
def renderBlock (place : Chain.Position → Nat) (next : List Node) : Block → Node
  | .mk opcode id members =>
    let parts := renderMembers place 0 members
    .element "block" [("type", opcode), ("id", id)] ""
      (parts.take (place []) ++ (next ++ parts.drop (place [])))

/-- Members, of which the first has number `j`. -/
def renderMembers (place : Chain.Position → Nat) (j : Nat) : List Member → List Node
  | [] => []
  | m :: members => renderMember (fun p => place (j :: p)) m :: renderMembers place (j + 1) members

/-- A member. -/
def renderMember (place : Chain.Position → Nat) : Member → Node
  | .expression name chain => .element "value" [("name", name)] "" (renderFrom place 0 chain)
  | .literal name shadow => .element "value" [("name", name)] "" [renderShadow shadow]
  | .statement name chain => .element "statement" [("name", name)] "" (renderFrom place 0 chain)
  | .field f => renderField f

end

/-- A variable element. -/
def renderVariable (v : Variable) : Node :=
  .element "variable" [("name", v.name), ("type", v.type), ("id", v.id),
    ("islocal", toString v.isLocal), ("iscloud", toString v.isCloud)] "" []

/-- A document: its variables and its script. -/
def renderDocument (place : Chain.Position → Nat) (declarations : List Variable)
    (entry : Chain) : Node :=
  .element "xml" [] "" (.element "variables" [] "" (declarations.map renderVariable) ::
    renderFrom place 0 entry)

/-! ### Attributes and texts -/

theorem attr_cons (key value name : String) (attributes : List (String × String)) :
    attr ((key, value) :: attributes) name
      = if key = name then value else attr attributes name := by
  by_cases h : key = name
  · simp [attr, lookup?, h]
  · simp [attr, lookup?, h]

theorem visibleText_eq {text : String} (h : Text.Visible text) : visibleText text = text := by
  rw [visibleText]
  rcases h with rfl | h
  · rfl
  · rw [if_neg (by simp [h])]

theorem toField_renderField {f : Field} (h : Text.Visible f.value) :
    toField [("name", f.name), ("id", f.id), ("variabletype", f.variableType)] f.value = f := by
  simp [toField, attr_cons, visibleText_eq h]

theorem findShadow_renderShadow {s : Shadow} (h : Text.Visible s.field.value) :
    findShadow [renderShadow s] = .ok (some s) := by
  simp [findShadow, renderShadow, firstChild?, toShadow, renderField, attr_cons,
    toField_renderField h, Except.map]

theorem firstBlock_renderShadow (s : Shadow) : firstBlock [renderShadow s] = .ok none := by
  simp [firstBlock, renderShadow, tag?]

/-! ### Chains and members -/

/-- Nodes that write a chain. -/
inductive Written : List Node → Chain → Prop where
  | nil : Written [] []
  | cons {n : Node} {b : Block} {rest : Chain} : n.tag? = some "block" →
      (parseChain n).outcome = .ok (b :: rest) → Written [n] (b :: rest)

/-- A node that writes a member. -/
structure WritesMember (n : Node) (m : Member) : Prop where
  tag : ∃ tag, n.tag? = some tag ∧ isMemberTag tag = true
  outcome : (parseMember n).outcome = .ok m

/-- The block search finds what is written. -/
theorem Written.firstBlock {nodes : List Node} {c : Chain} (h : Written nodes c) (hc : c ≠ []) :
    ∃ chain : Parsed Chain, Node.firstBlock nodes = .ok (some chain) ∧ chain.outcome = .ok c := by
  cases h with
  | nil => exact absurd rfl hc
  | @cons n b rest htag houtcome =>
    refine ⟨parseChain n, ?_, houtcome⟩
    rw [Node.firstBlock, htag]
    rfl

theorem writesMember_renderMember {m : Member} (hm : m.Writable) (place : Chain.Position → Nat)
    (hchain : Written (renderFrom place 0 m.chain) m.chain) :
    WritesMember (renderMember place m) m := by
  obtain ⟨hname, hcontent⟩ := hm
  cases m with
  | expression name chain =>
    have hattr : attr [("name", name)] "name" = name := by simp [attr_cons]
    obtain ⟨⟨outcome, warnings⟩, hfound, rfl⟩ := hchain.firstBlock hcontent
    refine ⟨⟨"value", rfl, rfl⟩, ?_⟩
    -- the block is good, so the shadow does not matter
    rw [renderMember, parseMember_value _ _ (by rw [hattr]; exact hname), hattr,
      show Node.firstBlock (renderFrom place 0 chain) = _ from hfound]
    rfl
  | literal name shadow =>
    have hattr : attr [("name", name)] "name" = name := by simp [attr_cons]
    refine ⟨⟨"value", rfl, rfl⟩, ?_⟩
    rw [renderMember, parseMember_value _ _ (by rw [hattr]; exact hname), hattr,
      firstBlock_renderShadow, findShadow_renderShadow hcontent]
    rfl
  | statement name chain =>
    have hattr : attr [("name", name)] "name" = name := by simp [attr_cons]
    obtain ⟨⟨outcome, warnings⟩, hfound, rfl⟩ := hchain.firstBlock hcontent
    refine ⟨⟨"statement", rfl, rfl⟩, ?_⟩
    rw [renderMember, parseMember_statement _ _ (by rw [hattr]; exact hname), hattr,
      show Node.firstBlock (renderFrom place 0 chain) = _ from hfound]
    rfl
  | field f =>
    have hattr : attr [("name", f.name), ("id", f.id), ("variabletype", f.variableType)] "name"
        = f.name := by simp [attr_cons]
    refine ⟨⟨"field", rfl, rfl⟩, ?_⟩
    rw [renderMember, renderField, parseMember_field _ _ (by rw [hattr]; exact hname),
      toField_renderField hcontent]
    rfl

/-! ### Blocks -/

/-- **A run through written members** collects them, and leaves the rest to be read. -/
theorem parseInterior_members (opcode id : String) {nodes : List Node} {members : List Member}
    (h : List.Forall₂ WritesMember nodes members) (seen : Interior) (more : List Node) :
    (parseInterior opcode id seen (nodes ++ more)).outcome
      = (parseInterior opcode id { seen with members := members.reverse ++ seen.members }
          more).outcome := by
  induction h generalizing seen with
  | nil => rfl
  | @cons n m nodes members hn _ ih =>
    obtain ⟨⟨tag, htag, hmember⟩, houtcome⟩ := hn
    rw [List.cons_append, outcome_parseInterior_member opcode id seen _ htag hmember, houtcome,
      List.reverse_cons, List.append_assoc]
    exact ih { seen with members := m :: seen.members }

/-- A run through the `next` of a block, or through nothing if there is none, takes the chain
along. -/
theorem parseInterior_renderNext (opcode id : String) {nodes : List Node} {rest : Chain}
    (h : Written nodes rest) (members : List Member) (more : List Node) :
    ∃ next, (∀ all, ({ members := all, next := next } : Interior).rest.outcome = .ok rest) ∧
      (parseInterior opcode id { members := members } (nodes.map renderNext ++ more)).outcome
        = (parseInterior opcode id { members := members, next := next } more).outcome := by
  cases h with
  | nil => exact ⟨none, fun _ => rfl, rfl⟩
  | @cons n b rest htag houtcome =>
    refine ⟨some (parseChain n), fun _ => houtcome, ?_⟩
    have hfound : firstBlock (renderNext n).children = .ok (some (parseChain n)) := by
      rw [renderNext, Node.children, firstBlock, htag]
      rfl
    rw [List.map_cons, List.map_nil, List.singleton_append,
      Node.parseInterior_next opcode id _ more rfl, hfound]
    rfl

/-- **A written block** is read with its members in order and the chain that follows. -/
theorem outcome_parseChain_block_written {opcode id : String} (hopcode : opcode ≠ "")
    {parts nodes : List Node} {members : List Member} {rest : Chain}
    (hparts : List.Forall₂ WritesMember parts members) (hnext : Written nodes rest) (k : Nat) :
    (parseChain (.element "block" [("type", opcode), ("id", id)] ""
      (parts.take k ++ (nodes.map renderNext ++ parts.drop k)))).outcome
      = .ok (.mk opcode id members :: rest) := by
  have htype : attr [("type", opcode), ("id", id)] "type" = opcode := by simp [attr_cons]
  have hid : attr [("type", opcode), ("id", id)] "id" = id := by simp [attr_cons]
  -- the members in front of `next`, then `next`, then the members behind it
  rw [outcome_parseChain_block (by rw [htype]; exact hopcode), htype, hid,
    parseInterior_members opcode id (List.forall₂_take k hparts)]
  obtain ⟨next, hrest, hthrough⟩ := parseInterior_renderNext opcode id hnext
    ((members.take k).reverse ++ []) (parts.drop k)
  rw [hthrough, ← List.append_nil (parts.drop k),
    parseInterior_members opcode id (List.forall₂_drop k hparts), parseInterior]
  -- members are collected last first, and the two runs meet at `next`
  have horder : (members.drop k).reverse ++ ((members.take k).reverse ++ []) = members.reverse := by
    rw [List.append_nil, ← List.reverse_append, List.take_append_drop]
  simp only [Parsed.outcome_ok, ok_bind, horder, List.reverse_reverse, hrest]
  rfl

theorem forall₂_renderMembers {members : List Member}
    (h : ∀ m ∈ members, ∀ place, WritesMember (renderMember place m) m)
    (place : Chain.Position → Nat) (j : Nat) :
    List.Forall₂ WritesMember (renderMembers place j members) members := by
  induction members generalizing j with
  | nil => exact .nil
  | cons m members ih =>
    rw [renderMembers]
    exact .cons (h m List.mem_cons_self _)
      (ih (fun m' hm => h m' (List.mem_cons_of_mem m hm)) (j + 1))

/-- **Every chain is written by its rendering**, wherever the `next` elements are placed. -/
theorem written_renderFrom (c : Chain) : (∀ b ∈ Chain.blocks c, b.Writable) →
    ∀ (place : Chain.Position → Nat) (i : Nat), Written (renderFrom place i c) c := by
  induction c using Chain.induction with
  | nil =>
    intro _ place i
    rw [renderFrom]
    exact .nil
  | cons b rest hslots hrest =>
    intro hwritable place i
    -- the blocks in the slots and in the rest are blocks of the chain, so they can be written
    have hb := hwritable b (Chain.mem_blocks_cons.2 (.inl rfl))
    have hmembers : ∀ m ∈ b.members, ∀ place, WritesMember (renderMember place m) m := by
      intro m hm place
      refine writesMember_renderMember (hb.2 m hm) place (hslots m hm (fun x hx => ?_) place 0)
      exact hwritable x (Chain.mem_blocks_cons.2 (.inr (.inl ⟨m, hm, hx⟩)))
    have hnext := hrest (fun x hx => hwritable x (Chain.mem_blocks_cons.2 (.inr (.inr hx))))
      place (i + 1)
    cases b with
    | mk opcode id members =>
      rw [renderFrom, renderBlock]
      exact .cons rfl (outcome_parseChain_block_written hb.1
        (forall₂_renderMembers hmembers _ 0) hnext _)

/-! ### Documents -/

theorem toVariables_renderVariable {declarations : List Variable}
    (h : ∀ v ∈ declarations, v.name ≠ "") :
    toVariables (declarations.map renderVariable) = .ok declarations := by
  induction declarations with
  | nil => rfl
  | cons v declarations ih =>
    have hname := h v List.mem_cons_self
    rw [List.map_cons, renderVariable, toVariables,
      ih fun w hw => h w (List.mem_cons_of_mem v hw)]
    obtain ⟨name, type, id, isLocal, isCloud⟩ := v
    -- a flag is written as a word and read by comparing it
    have hflag : ∀ b : Bool, (toString b == "true") = b := by decide
    simp [variableName, attr_cons, show name ≠ "" from hname, hflag, ok_bind]

/-- **Parsing takes back what rendering wrote.** A document with named variables and a non-empty
script, whose blocks can be written, is parsed from its tree with the same variables and the same
script, wherever the `next` elements stand. -/
theorem parse_renderDocument (place : Chain.Position → Nat) {declarations : List Variable}
    {entry : Chain} (hnames : ∀ v ∈ declarations, v.name ≠ "") (hentry : entry ≠ [])
    (hwritable : ∀ b ∈ Chain.blocks entry, b.Writable) :
    ∃ warnings, (renderDocument place declarations entry).parse []
      = .ok ⟨declarations, entry, warnings⟩ := by
  have hwritten := written_renderFrom entry hwritable place 0
  rw [renderDocument, parse_element, declared, if_pos rfl, toVariables_renderVariable hnames]
  generalize renderFrom place 0 entry = nodes at hwritten
  cases hwritten with
  | nil => exact absurd rfl hentry
  | @cons n b rest htag houtcome =>
    -- without entry types the one block is the one candidate
    have hstarts : startsScript [] n = true := by simp [startsScript, isEntry, htag]
    have hdeclared : declared [n] = .ok [] := by
      cases n with
      | absent => exact absurd htag (by simp [tag?])
      | element tag attributes body inner =>
        obtain rfl := Option.some.inj htag
        rfl
    refine ⟨(parseChain n).warnings, ?_⟩
    rw [hdeclared, List.filter_cons_of_neg (by simp [startsScript, tag?]),
      List.filter_cons_of_pos hstarts, List.filter_nil]
    simp only [ok_bind, houtcome, List.append_nil, Except.map]

/-- A script of two blocks: the first with a literal, a computed value and a repeated field, the
second chained to it. -/
def sampleEntry : Chain :=
  [.mk "data_set" "a" [
      .field ⟨"VAR", "", "score", ""⟩,
      .literal "VALUE" ⟨"number", "s", ⟨"NUM", "", "7", ""⟩⟩,
      .expression "VALUE" [.mk "operator_add" "b" []],
      .field ⟨"VAR", "", "", "list"⟩],
    .mk "data_show" "c" [.statement "BODY" [.mk "data_hide" "d" []]]]

/-- The sample is read back with the `next` element after the second member. -/
theorem parse_rendered_sample :
    (∀ b ∈ Chain.blocks sampleEntry, b.Writable) ∧
    ∃ warnings, (renderDocument (fun _ => 2) [⟨"score", "", "v", true, false⟩] sampleEntry).parse []
      = .ok ⟨[⟨"score", "", "v", true, false⟩], sampleEntry, warnings⟩ := by
  have hwritable : ∀ b ∈ Chain.blocks sampleEntry, b.Writable := by
    simp [sampleEntry, Chain.blocks_cons, Block.Writable, Member.Writable, Block.opcode,
      Block.members, Member.chain, Member.name, Text.Visible, Text.isAllBlank, Text.isBlank]
  exact ⟨hwritable, parse_renderDocument (fun _ => 2) (by decide) (by simp [sampleEntry]) hwritable⟩

end Node

end Blockwork
