import Blockwork.Proofs.Program.Reading
import Blockwork.Proofs.Machine.Frame
import Mathlib.Logic.Relation

/-!
# What the warnings of a document are about

One would expect a warning about a slot name that occurs again to be about a block of the document:
one for each member whose name occurred before in its block (`Block.repeats`), hence as many of them
in a block as it has members more than slot names (`length_repeats`). All of these warnings are
raised. But they are not the only ones. The block of a value slot may be faulty, so that the shadow
is taken for it (`GivenUp`); what had been tolerated in the chain up to the fault was warned about
by then, and these warnings stay, although nothing of the chain is in the document.

So the warnings of a document are those of its blocks and those of the blocks that were given up
(`warnings_accounted`). They are about the blocks of the document alone where nothing was given
up.
-/

namespace Blockwork

/-- A warning about a slot name that occurs again. -/
def Warning.isDuplicate (w : Warning) : Bool :=
  match w.oddity with
  | .duplicateSlot .. => true
  | .blockDropped .. => false

namespace Block

/-- The warning about a member of which the name occurred among those before it, the last of them
first. -/
def repetition (opcode id : String) (before : List Member) (m : Member) : List Warning :=
  match Node.lastKind? before m.name with
  | some earlier => [⟨id, opcode, .duplicateSlot m.name m.kind earlier⟩]
  | none => []

/-- The warnings about members that come after others. -/
def repetitions (opcode id : String) (before : List Member) : List Member → List Warning
  | [] => []
  | m :: ms => repetition opcode id before m ++ repetitions opcode id (m :: before) ms

/-- The warnings about a block: one for each member whose name occurred before in the block, with
the kinds of the two. -/
def repeats (b : Block) : List Warning := repetitions b.opcode b.id [] b.members

end Block

/-- The warnings about all blocks of a program. -/
def Chain.repeats (c : Chain) : List Warning := c.blocks.flatMap Block.repeats

/-- A block that was given up for the shadow of its value slot. -/
structure GivenUp where
  value : String
  shadow : Shadow
  block : Node
  cause : ParseError

namespace GivenUp

/-- What was raised in the block before the fault, and the warning that it was dropped. -/
def warnings (g : GivenUp) : List Warning :=
  (Node.parseChain g.block).warnings ++
    [⟨g.shadow.id, g.shadow.type, .blockDropped g.value g.cause⟩]

/-- The warnings about slot names that were raised in the block before the fault. -/
def duplicates (g : GivenUp) : List Warning :=
  (Node.parseChain g.block).warnings.filter Warning.isDuplicate

/-- One node is a child of another. -/
def IsChild (n parent : Node) : Prop := n ∈ parent.children

/-- The block is faulty and stands below a node. -/
structure Below (g : GivenUp) (n : Node) : Prop where
  faulty : (Node.parseChain g.block).outcome = .error g.cause
  inside : Relation.TransGen IsChild g.block n

/-- The shadow stands in the place of the block, in some block of a program. -/
def ReplacedIn (g : GivenUp) (c : Chain) : Prop :=
  ∃ b ∈ c.blocks, .literal g.value g.shadow ∈ b.members

end GivenUp

theorem GivenUp.Below.up {g : GivenUp} {n parent : Node} (h : g.Below n)
    (hn : n ∈ parent.children) : g.Below parent :=
  ⟨h.faulty, h.inside.tail hn⟩

theorem GivenUp.ReplacedIn.behind {g : GivenUp} {rest : Chain} (h : g.ReplacedIn rest) (b : Block) :
    g.ReplacedIn (b :: rest) := by
  obtain ⟨x, hx, hliteral⟩ := h
  exact ⟨x, Chain.mem_blocks_cons.2 (.inr (.inr hx)), hliteral⟩

theorem GivenUp.ReplacedIn.of_member {g : GivenUp} {b : Block} {m : Member} (hm : m ∈ b.members)
    (h : g.ReplacedIn m.chain ∨ m = .literal g.value g.shadow) (rest : Chain) :
    g.ReplacedIn (b :: rest) := by
  rcases h with ⟨x, hx, hliteral⟩ | rfl
  · exact ⟨x, Chain.mem_blocks_cons.2 (.inr (.inl ⟨m, hm, hx⟩)), hliteral⟩
  · exact ⟨b, Chain.mem_blocks_cons.2 (.inl rfl), hm⟩

/-! ### Repeated names -/

theorem lastKind?_eq_none_iff {members : List Member} {name : String} :
    Node.lastKind? members name = none ↔ name ∉ members.map Member.name := by
  rw [Node.lastKind?, Option.map_eq_none_iff, List.find?_eq_none, List.mem_map]
  constructor
  · rintro h ⟨m, hm, rfl⟩
    exact h m hm (beq_self_eq_true _)
  · intro h m hm hname
    exact h ⟨m, hm, eq_of_beq hname⟩

namespace Block

variable {opcode id : String}

theorem repetitions_append (before ms ms' : List Member) :
    repetitions opcode id before (ms ++ ms') =
      repetitions opcode id before ms ++ repetitions opcode id (ms.reverse ++ before) ms' := by
  induction ms generalizing before with
  | nil => rfl
  | cons m ms ih =>
    rw [List.cons_append, repetitions, repetitions, ih, List.append_assoc, List.reverse_cons,
      List.append_assoc, List.singleton_append]

theorem mem_repetition_iff {before : List Member} {m : Member} {w : Warning} :
    w ∈ repetition opcode id before m ↔ ∃ earlier, Node.lastKind? before m.name = some earlier ∧
      w = ⟨id, opcode, .duplicateSlot m.name m.kind earlier⟩ := by
  rw [repetition]
  cases Node.lastKind? before m.name with
  | none => simp
  | some earlier => simp

/-- **A warning about a block** is about a member and the last one of its name before it. -/
theorem mem_repeats_iff {b : Block} {w : Warning} :
    w ∈ b.repeats ↔ ∃ front m back earlier, b.members = front ++ m :: back ∧
      Node.lastKind? front.reverse m.name = some earlier ∧
      w = ⟨b.id, b.opcode, .duplicateSlot m.name m.kind earlier⟩ := by
  rw [repeats]
  constructor
  · intro h
    -- the members up to any place are followed by those that are still to be looked at
    have hplace : ∀ ms before, w ∈ repetitions b.opcode b.id before ms →
        ∃ front m back earlier, ms = front ++ m :: back ∧
          Node.lastKind? (front.reverse ++ before) m.name = some earlier ∧
          w = ⟨b.id, b.opcode, .duplicateSlot m.name m.kind earlier⟩ := by
      intro ms
      induction ms with
      | nil => exact fun _ hw => absurd hw List.not_mem_nil
      | cons m ms ih =>
        intro before hw
        rcases List.mem_append.1 hw with hw | hw
        · obtain ⟨earlier, hlast, hw⟩ := mem_repetition_iff.1 hw
          exact ⟨[], m, ms, earlier, rfl, hlast, hw⟩
        · obtain ⟨front, m', back, earlier, rfl, hlast, hw⟩ := ih _ hw
          exact ⟨m :: front, m', back, earlier, rfl, by simpa using hlast, hw⟩
    simpa using hplace b.members [] h
  · rintro ⟨front, m, back, earlier, hmembers, hlast, rfl⟩
    rw [hmembers, repetitions_append, repetitions, List.append_nil]
    exact List.mem_append_right _
      (List.mem_append_left _ (mem_repetition_iff.2 ⟨earlier, hlast, rfl⟩))

theorem length_eraseDups_concat (names : List String) (name : String) :
    (names ++ [name]).eraseDups.length =
      names.eraseDups.length + if name ∈ names then 0 else 1 := by
  rw [List.eraseDups_append, List.length_append, List.removeAll]
  by_cases h : name ∈ names
  · simp [h]
  · simp [h, List.eraseDups_cons]

theorem length_repetitions (ms : List Member) :
    (repetitions opcode id [] ms).length + (ms.map Member.name).eraseDups.length = ms.length := by
  induction ms using List.reverseRecOn with
  | nil => rfl
  | append_singleton ms m ih =>
    -- either there is one warning more or one name more
    have hone : (repetition opcode id ms.reverse m).length +
        (if m.name ∈ ms.map Member.name then 0 else 1) = 1 := by
      rw [repetition]
      cases hlast : Node.lastKind? ms.reverse m.name with
      | none =>
        rw [lastKind?_eq_none_iff, List.map_reverse, List.mem_reverse] at hlast
        rw [if_neg hlast]
        rfl
      | some earlier =>
        have hm : m.name ∈ ms.map Member.name := by
          by_contra hnew
          rw [← List.mem_reverse, ← List.map_reverse, ← lastKind?_eq_none_iff, hlast] at hnew
          exact absurd hnew (by simp)
        rw [if_pos hm]
        rfl
    rw [repetitions_append, List.map_append, List.map_singleton, length_eraseDups_concat,
      List.append_nil, repetitions, repetitions, List.append_nil, List.length_append,
      List.length_append, List.length_singleton]
    omega

/-- **A block raises as many warnings as it has members more than slot names.** -/
theorem length_repeats {σ : Type} (b : Block) (route : Route Action) :
    b.repeats.length + (Machine.scopeOf (σ := σ) b route).slotNames.length = b.members.length := by
  have hnames : (Machine.slotsOf (σ := σ) b.members).map Scope.slotName =
      b.members.map Member.name := by
    rw [Machine.slotsOf_eq_map, List.map_map]
    refine List.map_congr_left fun m _ => ?_
    cases m <;> rfl
  rw [Scope.slotNames, List.length_mergeSort, Machine.scopeOf, hnames, repeats,
    length_repetitions]

theorem isDuplicate_of_mem_repeats {b : Block} {w : Warning} (h : w ∈ b.repeats) :
    w.isDuplicate = true := by
  obtain ⟨front, m, back, earlier, -, -, rfl⟩ := mem_repeats_iff.1 h
  rfl

end Block

theorem Chain.isDuplicate_of_mem_repeats {c : Chain} {w : Warning} (h : w ∈ c.repeats) :
    w.isDuplicate = true := by
  obtain ⟨b, -, hw⟩ := List.mem_flatMap.1 h
  exact Block.isDuplicate_of_mem_repeats hw

/-- **A program raises as many warnings as its blocks have members more than slot names.** -/
theorem Chain.length_repeats {σ : Type} (c : Chain) (route : Route Action) :
    c.repeats.length = (c.blocks.map fun b =>
      b.members.length - (Machine.scopeOf (σ := σ) b route).slotNames.length).sum := by
  rw [Chain.repeats, List.length_flatMap]
  refine congrArg List.sum (List.map_congr_left fun b _ => ?_)
  have hlength := b.length_repeats (σ := σ) route
  omega

theorem Chain.repeats_cons (b : Block) (rest : Chain) :
    Chain.repeats (b :: rest) =
      b.repeats ++ (b.members.flatMap (fun m => Chain.repeats m.chain) ++ Chain.repeats rest) := by
  rw [Chain.repeats, Chain.blocks_cons, List.flatMap_cons, List.flatMap_append,
    List.flatMap_assoc]
  rfl

/-! ### Accounts -/

/-- Warnings that are raised for what is in the document, and otherwise in blocks that were given
up. -/
def Accounted (ws own : List Warning) (lost : GivenUp → Prop) : Prop :=
  ∃ gone : List GivenUp, (∀ g ∈ gone, lost g) ∧
    ws.Perm (own ++ gone.flatMap GivenUp.warnings)

namespace Accounted

variable {ws ws' own own' : List Warning} {lost lost' : GivenUp → Prop}

theorem refl (ws : List Warning) (lost : GivenUp → Prop) : Accounted ws ws lost :=
  ⟨[], fun _ hg => absurd hg List.not_mem_nil, by simp⟩

theorem single {g : GivenUp} (h : lost g) : Accounted g.warnings [] lost :=
  ⟨[g], fun _ hg => List.mem_singleton.1 hg ▸ h, by simp⟩

theorem mono (h : Accounted ws own lost) (hlost : ∀ g, lost g → lost' g) :
    Accounted ws own lost' := by
  obtain ⟨gone, hgone, hws⟩ := h
  exact ⟨gone, fun g hg => hlost g (hgone g hg), hws⟩

theorem perm (h : Accounted ws own lost) (hown : own.Perm own') : Accounted ws own' lost := by
  obtain ⟨gone, hgone, hws⟩ := h
  exact ⟨gone, hgone, hws.trans (hown.append_right _)⟩

theorem append (h : Accounted ws own lost) (h' : Accounted ws' own' lost) :
    Accounted (ws ++ ws') (own ++ own') lost := by
  obtain ⟨gone, hgone, hws⟩ := h
  obtain ⟨gone', hgone', hws'⟩ := h'
  refine ⟨gone ++ gone', fun g hg => ?_, (hws.append hws').trans ?_⟩
  · rcases List.mem_append.1 hg with hg | hg
    · exact hgone g hg
    · exact hgone' g hg
  · rw [List.flatMap_append, List.append_assoc, List.append_assoc]
    refine List.Perm.append_left own ?_
    rw [← List.append_assoc, ← List.append_assoc]
    exact List.perm_append_comm.append_right _

end Accounted

/-! ### Results with warnings, taken apart -/

namespace Parsed

variable {α β : Type} {ws : List Warning}

theorem error_ne_ok {e : ParseError} {before : List Warning} {a : α} :
    (⟨.error e, before⟩ : Parsed α) ≠ ⟨.ok a, ws⟩ := by
  intro h
  cases h

theorem bind_eq_ok {x : Parsed α} {f : α → Parsed β} {b : β} (h : x >>= f = ⟨.ok b, ws⟩) :
    ∃ a before after, x = ⟨.ok a, before⟩ ∧ f a = ⟨.ok b, after⟩ ∧ ws = before ++ after := by
  obtain ⟨outcome, before⟩ := x
  cases outcome with
  | error e => exact absurd h error_ne_ok
  | ok a =>
    refine ⟨a, before, (f a).warnings, rfl, ?_, (congrArg Parsed.warnings h).symm⟩
    have houtcome : (f a).outcome = .ok b := congrArg Parsed.outcome h
    rw [← houtcome]

theorem within_eq_ok {place : ParseError → ParseError} {x : Parsed α} {a : α}
    (h : x.within place = ⟨.ok a, ws⟩) : x = ⟨.ok a, ws⟩ := by
  obtain ⟨outcome, before⟩ := x
  cases outcome with
  | error e => exact absurd h error_ne_ok
  | ok b => exact h

end Parsed

namespace Node

theorem addMember_eq (opcode id : String) (seen : Interior) (m : Member) :
    addMember opcode id seen m =
      ⟨.ok { seen with members := m :: seen.members },
        Block.repetition opcode id seen.members m⟩ := by
  rw [addMember, Block.repetition]
  cases lastKind? seen.members m.name with
  | none => rfl
  | some earlier => rfl

theorem exists_of_firstBlock {nodes : List Node} {p : Parsed Chain}
    (h : firstBlock nodes = .ok (some p)) : ∃ n ∈ nodes, p = parseChain n := by
  induction nodes with
  | nil => cases h
  | cons n nodes ih =>
    rw [firstBlock] at h
    cases htag : n.tag? with
    | none =>
      rw [htag] at h
      cases h
    | some tag =>
      rw [htag] at h
      dsimp only at h
      by_cases hblock : (tag == "block") = true
      · rw [if_pos hblock] at h
        exact ⟨n, List.mem_cons_self, (Option.some.inj (Except.ok.inj h)).symm⟩
      · rw [if_neg hblock] at h
        obtain ⟨m, hm, hp⟩ := ih h
        exact ⟨m, List.mem_cons_of_mem n hm, hp⟩

theorem exists_of_firstBlockOf {n : Node} {p : Parsed Chain}
    (h : firstBlockOf n = .ok (some p)) : ∃ c ∈ n.children, p = parseChain c := by
  cases n with
  | absent => cases h
  | element => exact exists_of_firstBlock h

/-- What a value slot can come to: a chain, a shadow, or a shadow for a faulty chain. -/
theorem chooseContent_eq_ok {name : String} {block : Except ParseError (Option (Parsed Chain))}
    {shadow : Except ParseError (Option Shadow)} {m : Member} {ws : List Warning}
    (h : chooseContent name block shadow = ⟨.ok m, ws⟩) :
    (∃ chain, block = .ok (some ⟨.ok chain, ws⟩) ∧ m = .expression name chain) ∨
    (∃ s, m = .literal name s ∧ ws = []) ∨
    ∃ e before s, block = .ok (some ⟨.error e, before⟩) ∧ m = .literal name s ∧
      ws = before ++ [⟨s.id, s.type, .blockDropped name e⟩] := by
  rcases block with e | _ | ⟨e | chain, before⟩
  · exact absurd h Parsed.error_ne_ok
  · -- there is no block
    rcases shadow with f | _ | s
    · exact absurd h Parsed.error_ne_ok
    · exact absurd h Parsed.error_ne_ok
    · exact .inr (.inl ⟨s, (Except.ok.inj (congrArg Parsed.outcome h)).symm,
        (congrArg Parsed.warnings h).symm⟩)
  · -- the block is faulty
    unfold chooseContent at h
    dsimp only at h
    split at h
    · exact absurd h Parsed.error_ne_ok
    · rcases shadow with f | _ | s
      · exact absurd h Parsed.error_ne_ok
      · exact absurd h Parsed.error_ne_ok
      · exact .inr (.inr ⟨e, before, s, rfl, (Except.ok.inj (congrArg Parsed.outcome h)).symm,
          (congrArg Parsed.warnings h).symm⟩)
  · obtain rfl := Except.ok.inj (congrArg Parsed.outcome h)
    obtain rfl : before = ws := congrArg Parsed.warnings h
    exact .inl ⟨chain, rfl, rfl⟩

/-- **What a member is read from**: the chain of a block, nothing that warns, or a block that was
given up. -/
theorem parseMember_eq_ok {n : Node} {m : Member} {ws : List Warning}
    (h : parseMember n = ⟨.ok m, ws⟩) :
    (∃ c ∈ n.children, parseChain c = ⟨.ok m.chain, ws⟩) ∨ (m.chain = [] ∧ ws = []) ∨
      ∃ g : GivenUp, g.Below n ∧ m = .literal g.value g.shadow ∧ ws = g.warnings := by
  cases n with
  | absent => exact absurd h Parsed.error_ne_ok
  | element tag attributes body children =>
    rw [parseMember] at h
    split at h
    · exact absurd h Parsed.error_ne_ok
    · split at h
      · -- a value
        rcases chooseContent_eq_ok h with ⟨chain, hblock, rfl⟩ | ⟨s, rfl, rfl⟩ |
          ⟨e, before, s, hblock, rfl, rfl⟩
        · obtain ⟨c, hc, hchain⟩ := exists_of_firstBlock hblock
          exact .inl ⟨c, hc, hchain.symm⟩
        · exact .inr (.inl ⟨rfl, rfl⟩)
        · obtain ⟨c, hc, hchain⟩ := exists_of_firstBlock hblock
          refine .inr (.inr ⟨⟨attr attributes "name", s, c, e⟩, ⟨?_, .single hc⟩, rfl, ?_⟩)
          · rw [← hchain]
          · rw [GivenUp.warnings, ← hchain]
      · split at h
        · -- a statement
          split at h
          · exact absurd h Parsed.error_ne_ok
          · exact absurd h Parsed.error_ne_ok
          · rename_i chain hblock
            obtain ⟨inner, before, after, hchain, hm, rfl⟩ := Parsed.bind_eq_ok h
            obtain ⟨c, hc, rfl⟩ := exists_of_firstBlock hblock
            obtain rfl := Except.ok.inj (congrArg Parsed.outcome hm)
            obtain rfl : [] = after := congrArg Parsed.warnings hm
            rw [List.append_nil]
            exact .inl ⟨c, hc, Parsed.within_eq_ok hchain⟩
        · split at h
          · obtain rfl := Except.ok.inj (congrArg Parsed.outcome h)
            exact .inr (.inl ⟨rfl, (congrArg Parsed.warnings h).symm⟩)
          · exact absurd h Parsed.error_ne_ok

/-- **What a child of a block is**: a member, with a warning of its own if its name occurred before;
a chain that is kept for later; or a decoration. -/
theorem parseInterior_cons_eq_ok {opcode id : String} {seen after : Interior} {n : Node}
    {nodes : List Node} {ws : List Warning}
    (h : parseInterior opcode id seen (n :: nodes) = ⟨.ok after, ws⟩) :
    (∃ m before later, parseMember n = ⟨.ok m, before⟩ ∧
      parseInterior opcode id { seen with members := m :: seen.members } nodes =
        ⟨.ok after, later⟩ ∧
      ws = before ++ (Block.repetition opcode id seen.members m ++ later)) ∨
    (∃ c ∈ n.children,
      parseInterior opcode id { seen with next := some (parseChain c) } nodes =
        ⟨.ok after, ws⟩) ∨
    parseInterior opcode id seen nodes = ⟨.ok after, ws⟩ := by
  rw [parseInterior] at h
  cases htag : n.tag? with
  | none =>
    rw [htag] at h
    exact absurd h Parsed.error_ne_ok
  | some tag =>
    rw [htag] at h
    dsimp only at h
    split at h
    · -- a member: its own warnings, then the one about its name, then those of the rest
      obtain ⟨m, before, _, hm, hadded, rfl⟩ := Parsed.bind_eq_ok h
      obtain ⟨seen', own, later, hadd, hgoesOn, rfl⟩ := Parsed.bind_eq_ok hadded
      rw [addMember_eq] at hadd
      obtain rfl := Except.ok.inj (congrArg Parsed.outcome hadd)
      obtain rfl : Block.repetition opcode id seen.members m = own :=
        congrArg Parsed.warnings hadd
      exact .inl ⟨m, before, later, Parsed.within_eq_ok hm, hgoesOn, rfl⟩
    · split at h
      · -- there is one `next`, with a block in it
        split at h
        · exact absurd h Parsed.error_ne_ok
        · split at h
          · exact absurd h Parsed.error_ne_ok
          · exact absurd h Parsed.error_ne_ok
          · rename_i chain hchain
            obtain ⟨c, hc, rfl⟩ := exists_of_firstBlockOf hchain
            exact .inr (.inl ⟨c, hc, h⟩)
      · split at h
        · -- a decoration is passed over
          exact .inr (.inr h)
        · exact absurd h Parsed.error_ne_ok

/-- A chain is its first block, with what its children are read as, and the rest. -/
theorem parseChain_eq_ok {n : Node} {chain : Chain} {ws : List Warning}
    (h : parseChain n = ⟨.ok chain, ws⟩) :
    ∃ opcode id interior inside rest behind,
      parseInterior opcode id {} n.children = ⟨.ok interior, inside⟩ ∧
      interior.rest = ⟨.ok rest, behind⟩ ∧
      chain = .mk opcode id interior.members.reverse :: rest ∧ ws = inside ++ behind := by
  cases n with
  | absent => exact absurd h Parsed.error_ne_ok
  | element tag attributes body children =>
    rw [parseChain] at h
    split at h
    · exact absurd h Parsed.error_ne_ok
    · split at h
      · exact absurd h Parsed.error_ne_ok
      · -- the block was accepted, so its children were read, and then the rest of the chain
        obtain ⟨interior, inside, _, hinterior, hchain, rfl⟩ := Parsed.bind_eq_ok h
        obtain ⟨rest, behind, own, hrest, hmade, rfl⟩ := Parsed.bind_eq_ok hchain
        obtain rfl := Except.ok.inj (congrArg Parsed.outcome hmade)
        obtain rfl : [] = own := congrArg Parsed.warnings hmade
        exact ⟨_, _, interior, inside, rest, behind, hinterior, hrest, rfl,
          by rw [List.append_nil]⟩

/-! ### The warnings of a program -/

/-- The warnings raised in reading a chain are accounted for. -/
def ChainAccounted (n : Node) : Prop :=
  ∀ c ws, parseChain n = ⟨.ok c, ws⟩ → Accounted ws c.repeats fun g => g.Below n ∧ g.ReplacedIn c

/-- What was given up for a member. -/
def LostFor (n : Node) (m : Member) (g : GivenUp) : Prop :=
  g.Below n ∧ (g.ReplacedIn m.chain ∨ m = .literal g.value g.shadow)

theorem accounted_parseMember {n : Node} (hn : ∀ c ∈ n.children, ChainAccounted c) {m : Member}
    {ws : List Warning} (h : parseMember n = ⟨.ok m, ws⟩) :
    Accounted ws m.chain.repeats (LostFor n m) := by
  rcases parseMember_eq_ok h with ⟨c, hc, hchain⟩ | ⟨hchain, rfl⟩ | ⟨g, hg, rfl, rfl⟩
  · exact (hn c hc _ _ hchain).mono fun g hg => ⟨hg.1.up hc, .inl hg.2⟩
  · rw [hchain]
    exact .refl [] _
  · exact .single ⟨hg, .inr rfl⟩

/-- What was given up for some members, below some nodes. -/
def LostAmong (nodes : List Node) (ms : List Member) (g : GivenUp) : Prop :=
  ∃ n ∈ nodes, ∃ m ∈ ms, LostFor n m g

theorem LostAmong.mono {nodes nodes' : List Node} {ms ms' : List Member} (hnodes : nodes ⊆ nodes')
    (hms : ms ⊆ ms') (g : GivenUp) (h : LostAmong nodes ms g) : LostAmong nodes' ms' g := by
  obtain ⟨n, hn, m, hm, hg⟩ := h
  exact ⟨n, hnodes hn, m, hms hm, hg⟩

/-- The warnings raised in reading the children of a block: those about the block itself, and those
of its members. -/
theorem accounted_parseInterior {opcode id : String} {seen after : Interior} {nodes : List Node}
    (hnodes : ∀ n ∈ nodes, ∀ c ∈ n.children, ChainAccounted c) {ws : List Warning}
    (h : parseInterior opcode id seen nodes = ⟨.ok after, ws⟩) :
    ∃ ms, after.members = ms.reverse ++ seen.members ∧
      Accounted ws (Block.repetitions opcode id seen.members ms ++
          ms.flatMap fun m => Chain.repeats m.chain) (LostAmong nodes ms) ∧
      (after.next = seen.next ∨
        ∃ n ∈ nodes, ∃ c ∈ n.children, after.next = some (parseChain c)) := by
  induction nodes generalizing seen ws with
  | nil =>
    obtain rfl := Except.ok.inj (congrArg Parsed.outcome h)
    obtain rfl : [] = ws := congrArg Parsed.warnings h
    exact ⟨[], rfl, .refl [] _, .inl rfl⟩
  | cons n nodes ih =>
    have hrest : ∀ k ∈ nodes, ∀ c ∈ k.children, ChainAccounted c :=
      fun k hk => hnodes k (List.mem_cons_of_mem n hk)
    have hlater : ∀ ms g, LostAmong nodes ms g → LostAmong (n :: nodes) ms g :=
      fun ms => LostAmong.mono (List.subset_cons_self n nodes) (List.Subset.refl ms)
    rcases parseInterior_cons_eq_ok h with ⟨m, before, later, hm, hgoesOn, rfl⟩ |
      ⟨c, hc, hgoesOn⟩ | hgoesOn
    · -- a member
      obtain ⟨ms, hmembers, haccount, hnext⟩ := ih hrest hgoesOn
      have hmember : Accounted before (Chain.repeats m.chain)
          (LostAmong (n :: nodes) (m :: ms)) :=
        (accounted_parseMember (hnodes n List.mem_cons_self) hm).mono
          fun g hg => ⟨n, List.mem_cons_self, m, List.mem_cons_self, hg⟩
      have hothers := haccount.mono
        (LostAmong.mono (List.subset_cons_self n nodes) (List.subset_cons_self m ms))
      refine ⟨m :: ms, by simpa using hmembers,
        (hmember.append ((Accounted.refl _ _).append hothers)).perm ?_, ?_⟩
      · -- the member's own warning comes after those inside it, and before those of the others
        rw [Block.repetitions, List.flatMap_cons, List.perm_iff_count]
        intro w
        simp only [List.count_append]
        omega
      · exact hnext.imp_right fun ⟨k, hk, hnext⟩ => ⟨k, List.mem_cons_of_mem n hk, hnext⟩
    · -- the chain in the `next` is kept for later
      obtain ⟨ms, hmembers, haccount, hnext⟩ := ih hrest hgoesOn
      refine ⟨ms, hmembers, haccount.mono (hlater ms), .inr ?_⟩
      rcases hnext with hnext | ⟨k, hk, hnext⟩
      · exact ⟨n, List.mem_cons_self, c, hc, hnext⟩
      · exact ⟨k, List.mem_cons_of_mem n hk, hnext⟩
    · -- a decoration
      obtain ⟨ms, hmembers, haccount, hnext⟩ := ih hrest hgoesOn
      exact ⟨ms, hmembers, haccount.mono (hlater ms),
        hnext.imp_right fun ⟨k, hk, hnext⟩ => ⟨k, List.mem_cons_of_mem n hk, hnext⟩⟩

/-- The chain behind a block is that of a block below a child, if there is one. -/
theorem accounted_rest {n : Node} (hn : ∀ k ∈ n.children, ∀ c ∈ k.children, ChainAccounted c)
    {interior : Interior} (hnext : interior.next = none ∨
      ∃ k ∈ n.children, ∃ c ∈ k.children, interior.next = some (parseChain c))
    {rest : Chain} {ws : List Warning} (h : interior.rest = ⟨.ok rest, ws⟩) :
    Accounted ws rest.repeats fun g => g.Below n ∧ g.ReplacedIn rest := by
  rw [Interior.rest] at h
  rcases hnext with hnext | ⟨k, hk, c, hc, hnext⟩
  · rw [hnext] at h
    obtain rfl := Except.ok.inj (congrArg Parsed.outcome h)
    obtain rfl : [] = ws := congrArg Parsed.warnings h
    exact .refl [] _
  · rw [hnext] at h
    exact (hn k hk c hc rest ws h).mono fun g hg => ⟨(hg.1.up hc).up hk, hg.2⟩

/-- The warnings of a chain are accounted for if those of the chains in its first block are. -/
theorem chainAccounted_of_children {n : Node}
    (hn : ∀ k ∈ n.children, ∀ c ∈ k.children, ChainAccounted c) : ChainAccounted n := by
  intro chain ws h
  obtain ⟨opcode, id, interior, inside, rest, behind, hinterior, hrest, rfl, rfl⟩ :=
    parseChain_eq_ok h
  obtain ⟨ms, hmembers, haccount, hnext⟩ := accounted_parseInterior hn hinterior
  have hread : interior.members.reverse = ms := by
    rw [hmembers, List.append_nil, List.reverse_reverse]
  have hbehind := accounted_rest hn hnext hrest
  rw [hread, Chain.repeats_cons, ← List.append_assoc]
  refine (haccount.mono fun g hg => ?_).append (hbehind.mono fun g hg => ?_)
  · obtain ⟨k, hk, m, hm, hbelow, hreplaced⟩ := hg
    exact ⟨hbelow.up hk, .of_member hm hreplaced rest⟩
  · exact ⟨hg.1, hg.2.behind _⟩

/-- **The warnings of a chain are accounted for**, and so are those of the blocks below it. -/
theorem chainAccounted (n : Node) : ChainAccounted n ∧ ∀ c ∈ n.children, ChainAccounted c := by
  -- a chain lies two levels below the block that it belongs to
  induction n using Node.induction with
  | absent =>
    exact ⟨chainAccounted_of_children fun k hk => absurd hk List.not_mem_nil,
      fun c hc => absurd hc List.not_mem_nil⟩
  | element tag attributes body children ih =>
    exact ⟨chainAccounted_of_children fun n hn => (ih n hn).2, fun c hc => (ih c hc).1⟩

/-- The warnings of a document are accounted for. -/
theorem accounted_parse {entryTypes : List String} {root : Node} {doc : Document}
    (h : root.parse entryTypes = .ok doc) :
    Accounted doc.warnings doc.entry.repeats
      fun g => g.Below root ∧ g.ReplacedIn doc.entry := by
  obtain ⟨-, b, hb, hchain⟩ := parse_eq_ok h
  exact ((chainAccounted b).1 _ _ hchain).mono fun g hg => ⟨hg.1.up hb, hg.2⟩

end Node

namespace GivenUp

theorem filter_warnings (g : GivenUp) : g.warnings.filter Warning.isDuplicate = g.duplicates := by
  rw [warnings, List.filter_append, duplicates, List.append_right_eq_self]
  rfl

/-- The last warning about a block that was given up is none about a slot name. -/
theorem exists_warning (g : GivenUp) : ∃ w ∈ g.warnings, w.isDuplicate = false :=
  ⟨_, List.mem_append_right _ (List.mem_singleton_self _), rfl⟩

end GivenUp

/-- **What the warnings about slot names describe**: each member of the document whose name occurred
before in its block, and besides what was raised in blocks that were given up for a shadow of the
document. So they are about the document alone if there is no other warning. -/
theorem Node.duplicates_describe_document {entryTypes : List String} {root : Node} {doc : Document}
    (h : root.parse entryTypes = .ok doc) :
    ∃ gone : List GivenUp, (∀ g ∈ gone, g.Below root ∧ g.ReplacedIn doc.entry) ∧
      doc.warnings.Perm (doc.entry.repeats ++ gone.flatMap GivenUp.warnings) ∧
      (doc.warnings.filter Warning.isDuplicate).Perm
        (doc.entry.repeats ++ gone.flatMap GivenUp.duplicates) ∧
      (∀ (σ : Type) (route : Route Action), (doc.warnings.filter Warning.isDuplicate).length =
        (doc.entry.blocks.map fun b =>
          b.members.length - (Machine.scopeOf (σ := σ) b route).slotNames.length).sum +
        (gone.map fun g => g.duplicates.length).sum) ∧
      ((∀ w ∈ doc.warnings, w.isDuplicate = true) → gone = []) := by
  obtain ⟨gone, hgone, hperm⟩ := accounted_parse h
  have hfiltered : (doc.warnings.filter Warning.isDuplicate).Perm
      (doc.entry.repeats ++ gone.flatMap GivenUp.duplicates) := by
    have hown : doc.entry.repeats.filter Warning.isDuplicate = doc.entry.repeats :=
      List.filter_eq_self.2 fun w hw => Chain.isDuplicate_of_mem_repeats hw
    have hall := hperm.filter Warning.isDuplicate
    rw [List.filter_append, hown, List.filter_flatMap] at hall
    simpa only [GivenUp.filter_warnings] using hall
  refine ⟨gone, hgone, hperm, hfiltered, fun σ route => ?_, fun hall => ?_⟩
  · rw [hfiltered.length_eq, List.length_append, List.length_flatMap,
      doc.entry.length_repeats (σ := σ) route]
  · -- a block that was given up would be warned about
    rw [List.eq_nil_iff_forall_not_mem]
    intro g hg
    obtain ⟨w, hw, hother⟩ := g.exists_warning
    have hraised : w ∈ doc.warnings :=
      hperm.mem_iff.2 (List.mem_append_right _ (List.mem_flatMap.2 ⟨g, hg, hw⟩))
    rw [hall w hraised] at hother
    exact absurd hother (by simp)

/-- A script whose one value slot has a block with a field twice and a child that does not belong
there, and a shadow. -/
def withLostBlock : Node :=
  .element "xml" [] "" [.element "block" [("type", "looks_say"), ("id", "say")] ""
    [.element "value" [("name", "MESSAGE")] ""
      [.element "block" [("type", "operator_join"), ("id", "lost")] ""
        [.element "field" [("name", "A")] "1" [], .element "field" [("name", "A")] "2" [],
          .element "oops" [] "" []],
        .element "shadow" [("type", "text"), ("id", "sh")] ""
          [.element "field" [("name", "TEXT")] "hello" []]]]]

/-- The document that it writes. -/
def withoutLostBlock : Document where
  declarations := []
  entry := [.mk "looks_say" "say" [.literal "MESSAGE" ⟨"text", "sh", ⟨"TEXT", "", "hello", ""⟩⟩]]
  warnings := [⟨"lost", "operator_join", .duplicateSlot "A" .field .field⟩,
    ⟨"sh", "text", .blockDropped "MESSAGE" (.unexpectedChild "oops" "lost")⟩]

theorem parse_withLostBlock : withLostBlock.parse [] = .ok withoutLostBlock := by
  rfl

theorem duplicates_describe_withLostBlock : ∃ gone : List GivenUp,
    (∀ g ∈ gone, g.Below withLostBlock ∧ g.ReplacedIn withoutLostBlock.entry) ∧
      withoutLostBlock.warnings.Perm
        (withoutLostBlock.entry.repeats ++ gone.flatMap GivenUp.warnings) := by
  obtain ⟨gone, hgone, hperm, -⟩ := Node.duplicates_describe_document parse_withLostBlock
  exact ⟨gone, hgone, hperm⟩

/-- A warning about a slot name that is about no block of the document. -/
theorem lost_block_warns : ∃ doc, withLostBlock.parse [] = .ok doc ∧
    (∃ w ∈ doc.warnings, w.isDuplicate = true ∧ ∀ b ∈ doc.entry.blocks, w.id ≠ b.id) ∧
    ∀ route : Route Action, (doc.warnings.filter Warning.isDuplicate).length ≠
      (doc.entry.blocks.map fun b =>
        b.members.length - (Machine.scopeOf (σ := Unit) b route).slotNames.length).sum := by
  have hblocks : withoutLostBlock.entry.blocks = withoutLostBlock.entry := rfl
  refine ⟨withoutLostBlock, parse_withLostBlock, ⟨_, List.mem_cons_self, rfl, fun b hb => ?_⟩,
    fun route => ?_⟩
  · rw [hblocks] at hb
    obtain rfl := List.mem_singleton.1 hb
    decide
  · -- one warning, and no name twice
    rw [← Chain.length_repeats, show withoutLostBlock.entry.repeats.length = 0 from rfl]
    decide

end Blockwork
