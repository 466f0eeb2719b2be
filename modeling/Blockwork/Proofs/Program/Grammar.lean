import Blockwork.Proofs.Program.Reading
import Mathlib.Data.List.TakeWhile

/-!
# The grammar of documents

Which trees are documents, said without the parser, and the proof that the parser accepts these
trees and no others.

**The grammar.** `IsBlock`, `IsPart` and `IsMember` are the rules for blocks, for children of
blocks and for members; they are mutually inductive, since blocks are nested in members and follow
each other through `next`. `IsDocument` is the rule for a whole tree. What is not mentioned in a
rule is free: other top-level elements, the top-level blocks at which no script starts, all children
of a value but its first block and its first shadow.

**Deciding.** `Decides x P` says of the outcome of a parser that it is a result if `P` holds and a
fault of structure otherwise. Each parser decides its rule. The children of a block are the point
where this needs care: the parser carries the chain in `next` along unread, and looks at it after
the last child. So what is proved of a run through the children (`decides_parseInterior`) includes
what becomes of the chain that is carried.

**Falling back.** A value whose block is faulty is read from its shadow, however deep in the block
the fault is. This is why the rule for values is a disjunction, and why it is faithful only for
trees without absent children: such a child is the one fault from which the parser does not fall
back.
-/

namespace Blockwork

namespace ParseError

/-- The fault without the places at which it was met. -/
def cause : ParseError → ParseError
  | inBlock _ _ e => e.cause
  | inStatement _ e => e.cause
  | inValue _ e => e.cause
  | e => e

/-- A fault of structure: at the bottom of it, the document is called malformed. -/
def IsMalformed (e : ParseError) : Prop := ∃ detail, e.cause.message = malformed detail

/-- Only the fault of looking into an absent node is not one of structure. -/
theorem isMalformed_iff {e : ParseError} : e.IsMalformed ↔ e.isAbsentNode = false := by
  induction e with
  | absentNode =>
    constructor
    · rintro ⟨detail, hdetail⟩
      have hchars : "absent node".toList = ("malformed document: " ++ detail).toList :=
        congrArg String.toList hdetail
      rw [String.toList_append] at hchars
      simp at hchars
    · intro h
      exact absurd h (by simp [isAbsentNode])
  | inBlock id opcode e ih => exact ih
  | inStatement name e ih => exact ih
  | inValue name e ih => exact ih
  | _ => exact ⟨fun _ => rfl, fun _ => ⟨_, rfl⟩⟩

end ParseError

namespace Node

/-! ### The rules -/

mutual

/-- **Blocks.** A block element with a type, whose children are all parts of a block and at most
one of them is a `next`. -/
inductive IsBlock : Node → Prop where
  | mk {n : Node} : n.tag? = some "block" → n.attrOf "type" ≠ "" →
      (∀ c ∈ n.children, IsPart c) → n.children.countP (·.tag? == some "next") ≤ 1 → IsBlock n

/-- **Parts of a block.** -/
inductive IsPart : Node → Prop where
  /-- What only concerns an editor. -/
  | decoration {n : Node} {tag : String} : n.tag? = some tag →
      tag ∈ ["mutation", "comment", "data"] → IsPart n
  /-- The block that follows. -/
  | next {n b : Node} : n.tag? = some "next" → IsFirst "block" n.children b → IsBlock b → IsPart n
  | member {n : Node} : IsMember n → IsPart n

/-- **Members.** All of them have a name. -/
inductive IsMember : Node → Prop where
  | field {n : Node} : n.tag? = some "field" → n.attrOf "name" ≠ "" → IsMember n
  | statement {n b : Node} : n.tag? = some "statement" → n.attrOf "name" ≠ "" →
      IsFirst "block" n.children b → IsBlock b → IsMember n
  /-- A value that is computed. -/
  | expression {n b : Node} : n.tag? = some "value" → n.attrOf "name" ≠ "" →
      IsFirst "block" n.children b → IsBlock b → IsMember n
  /-- A value that is given; whether there is a block does not matter. -/
  | literal {n s f : Node} : n.tag? = some "value" → n.attrOf "name" ≠ "" →
      IsFirst "shadow" n.children s → f ∈ s.children → f.tag? = some "field" → IsMember n

end

/-- A variable element with a name: its `name` attribute, or else its text. -/
def NamesVariable (n : Node) : Prop := n.attrOf "name" ≠ "" ∨ Text.isAllBlank n.body = false

/-- A top-level block at which a script may start. -/
def IsCandidate (entryTypes : List String) (n : Node) : Prop :=
  n.tag? = some "block" ∧ (entryTypes = [] ∨ n.attrOf "type" ∈ entryTypes)

/-- **Documents.** -/
structure IsDocument (entryTypes : List String) (root : Node) : Prop where
  /-- All variables have names. -/
  declarations : ∀ v ∈ root.children, v.tag? = some "variables" →
    ∀ c ∈ v.children, c.tag? = some "variable" → NamesVariable c
  /-- There is one candidate, and it is a block. -/
  entry : ∃ before b after, root.children = before ++ b :: after ∧ IsCandidate entryTypes b ∧
    (∀ n ∈ before ++ after, ¬ IsCandidate entryTypes n) ∧ IsBlock b

/-- The first block among some nodes follows the rule. -/
def HasBlock (nodes : List Node) : Prop := ∃ b, IsFirst "block" nodes b ∧ IsBlock b

/-- The first shadow among some nodes has a field. -/
def HasShadow (nodes : List Node) : Prop :=
  ∃ s, IsFirst "shadow" nodes s ∧ ∃ f ∈ s.children, f.tag? = some "field"

/-! ### What a tag leaves of the rules -/

theorem IsMember.name_ne {n : Node} (h : IsMember n) : n.attrOf "name" ≠ "" := by
  cases h with
  | field _ hname => exact hname
  | statement _ hname _ _ => exact hname
  | expression _ hname _ _ => exact hname
  | literal _ hname _ _ _ => exact hname

theorem isMember_field_iff {n : Node} (htag : n.tag? = some "field") :
    IsMember n ↔ n.attrOf "name" ≠ "" :=
  ⟨IsMember.name_ne, .field htag⟩

theorem isMember_statement_iff {n : Node} (htag : n.tag? = some "statement") :
    IsMember n ↔ n.attrOf "name" ≠ "" ∧ HasBlock n.children := by
  constructor
  · intro h
    cases h with
    | field h _ => exact absurd (htag.symm.trans h) (by simp)
    | statement _ hname hfirst hblock => exact ⟨hname, _, hfirst, hblock⟩
    | expression h _ _ _ => exact absurd (htag.symm.trans h) (by simp)
    | literal h _ _ _ _ => exact absurd (htag.symm.trans h) (by simp)
  · rintro ⟨hname, b, hfirst, hblock⟩
    exact .statement htag hname hfirst hblock

theorem isMember_value_iff {n : Node} (htag : n.tag? = some "value") :
    IsMember n ↔ n.attrOf "name" ≠ "" ∧ (HasBlock n.children ∨ HasShadow n.children) := by
  constructor
  · intro h
    cases h with
    | field h _ => exact absurd (htag.symm.trans h) (by simp)
    | statement h _ _ _ => exact absurd (htag.symm.trans h) (by simp)
    | expression _ hname hfirst hblock => exact ⟨hname, .inl ⟨_, hfirst, hblock⟩⟩
    | literal _ hname hfirst hfield hftag => exact ⟨hname, .inr ⟨_, hfirst, _, hfield, hftag⟩⟩
  · rintro ⟨hname, ⟨b, hfirst, hblock⟩ | ⟨s, hfirst, f, hfield, hftag⟩⟩
    · exact .expression htag hname hfirst hblock
    · exact .literal htag hname hfirst hfield hftag

theorem IsMember.isMemberTag {n : Node} (h : IsMember n) {tag : String}
    (htag : n.tag? = some tag) : isMemberTag tag = true := by
  cases h with
  | field h _ => rw [Option.some.inj (htag.symm.trans h)]; rfl
  | statement h _ _ _ => rw [Option.some.inj (htag.symm.trans h)]; rfl
  | expression h _ _ _ => rw [Option.some.inj (htag.symm.trans h)]; rfl
  | literal h _ _ _ _ => rw [Option.some.inj (htag.symm.trans h)]; rfl

theorem isPart_member_iff {n : Node} {tag : String} (htag : n.tag? = some tag)
    (hmember : isMemberTag tag = true) : IsPart n ↔ IsMember n := by
  -- no tag of a member is one of a decoration, nor is it `next`
  refine ⟨fun h => ?_, .member⟩
  cases h with
  | @decoration _ t ht hdecoration =>
    obtain rfl := Option.some.inj (htag.symm.trans ht)
    simp only [List.mem_cons, List.not_mem_nil, or_false] at hdecoration
    rcases hdecoration with rfl | rfl | rfl <;> exact absurd hmember (by decide)
  | next ht _ _ =>
    obtain rfl := Option.some.inj (htag.symm.trans ht)
    exact absurd hmember (by decide)
  | member h => exact h

theorem isPart_next_iff {n : Node} (htag : n.tag? = some "next") :
    IsPart n ↔ HasBlock n.children := by
  constructor
  · intro h
    cases h with
    | decoration ht hdecoration =>
      rw [← Option.some.inj (htag.symm.trans ht)] at hdecoration
      exact absurd hdecoration (by decide)
    | next _ hfirst hblock => exact ⟨_, hfirst, hblock⟩
    | member h => exact absurd (h.isMemberTag htag) (by decide)
  · rintro ⟨b, hfirst, hblock⟩
    exact .next htag hfirst hblock

theorem isPart_other_iff {n : Node} {tag : String} (htag : n.tag? = some tag)
    (hmember : isMemberTag tag = false) (hnext : tag ≠ "next") :
    IsPart n ↔ isDecoration tag = true := by
  have hiff : isDecoration tag = true ↔ tag ∈ ["mutation", "comment", "data"] := by
    simp [isDecoration, or_assoc]
  rw [hiff]
  refine ⟨fun h => ?_, fun h => .decoration htag h⟩
  cases h with
  | decoration ht hdecoration =>
    rw [Option.some.inj (htag.symm.trans ht)]
    exact hdecoration
  | next ht _ _ => exact absurd (Option.some.inj (htag.symm.trans ht)) hnext
  | member h => exact absurd (h.isMemberTag htag) (by rw [hmember]; decide)

/-! ### Deciding a rule -/

/-- The outcome is a result if `P` holds, and a fault of structure if not. -/
def Decides {α : Type} (x : Except ParseError α) (P : Prop) : Prop :=
  match x with
  | .ok _ => P
  | .error e => ¬P ∧ e.isAbsentNode = false

namespace Decides

variable {α β : Type} {x : Except ParseError α} {P Q : Prop}

theorem ok {a : α} (hP : P) : Decides (.ok a : Except ParseError α) P := hP

theorem error {e : ParseError} (hP : ¬P) (he : e.isAbsentNode = false) :
    Decides (.error e : Except ParseError α) P := ⟨hP, he⟩

theorem congr (h : Decides x P) (hPQ : P ↔ Q) : Decides x Q := by
  cases x with
  | ok a => exact hPQ.1 h
  | error e => exact ⟨fun hQ => h.1 (hPQ.2 hQ), h.2⟩

/-- One parser after another decides both rules. -/
theorem bind {f : α → Except ParseError β} (h : Decides x P)
    (hf : ∀ a, x = .ok a → Decides (f a) Q) : Decides (x >>= f) (P ∧ Q) := by
  cases x with
  | ok a => exact (hf a rfl).congr ⟨fun hQ => ⟨h, hQ⟩, fun hPQ => hPQ.2⟩
  | error e => exact ⟨fun hPQ => h.1 hPQ.1, h.2⟩

theorem map {f : α → β} (h : Decides x P) : Decides (x.map f) P := by
  cases x with
  | ok a => exact h
  | error e => exact h

theorem mapError {place : ParseError → ParseError} (h : Decides x P)
    (hplace : ∀ e, (place e).isAbsentNode = e.isAbsentNode) : Decides (x.mapError place) P := by
  cases x with
  | ok a => exact h
  | error e => exact ⟨h.1, (hplace e).trans h.2⟩

theorem exists_ok_iff (h : Decides x P) : (∃ a, x = .ok a) ↔ P := by
  cases x with
  | ok a => exact ⟨fun _ => h, fun _ => ⟨a, rfl⟩⟩
  | error e => exact ⟨fun ha => absurd ha (by simp), fun hP => absurd hP h.1⟩

theorem exists_error (h : Decides x P) (hP : ¬P) : ∃ e, x = .error e ∧ e.IsMalformed := by
  cases x with
  | ok a => exact absurd h hP
  | error e => exact ⟨e, rfl, ParseError.isMalformed_iff.2 h.2⟩

end Decides

/-! ### Slots -/

/-- Searching a block gives nothing, or a chain that decides whether there is a good one. -/
theorem firstBlock_cases {nodes : List Node} (hpresent : ∀ n ∈ nodes, n ≠ .absent)
    (hblock : ∀ n ∈ nodes, Decides (parseChain n).outcome (IsBlock n)) :
    (firstBlock nodes = .ok none ∧ ¬HasBlock nodes) ∨
      ∃ chain, firstBlock nodes = .ok (some chain) ∧ Decides chain.outcome (HasBlock nodes) := by
  obtain ⟨found, hfound, hfirst⟩ := firstChild?_spec "block" hpresent
  rw [firstBlock_eq, hfound]
  cases found with
  | none =>
    refine .inl ⟨rfl, ?_⟩
    rintro ⟨b, hb, -⟩
    exact absurd ((hfirst b).1 hb) (by simp)
  | some n =>
    -- there is only one first block, so the rule is about this node
    have hn := (hfirst n).2 rfl
    refine .inr ⟨_, rfl, (hblock n hn.mem).congr ⟨fun h => ⟨n, hn, h⟩, ?_⟩⟩
    rintro ⟨b, hb, h⟩
    rwa [Option.some.inj ((hfirst b).1 hb)]

theorem decides_toShadow (attributes : List (String × String)) {nodes : List Node}
    (hpresent : ∀ n ∈ nodes, n ≠ .absent) :
    Decides (toShadow attributes nodes) (∃ f ∈ nodes, f.tag? = some "field") := by
  obtain ⟨found, hfound, hfirst⟩ := firstChild?_spec "field" hpresent
  rw [← exists_isFirst_iff, toShadow, hfound]
  cases found with
  | none =>
    refine Decides.error ?_ rfl
    rintro ⟨f, hf⟩
    exact absurd ((hfirst f).1 hf) (by simp)
  | some f =>
    have hf := (hfirst f).2 rfl
    cases f with
    | absent => exact absurd rfl (hpresent _ hf.mem)
    | element tag fieldAttributes body inner => exact Decides.ok ⟨_, hf⟩

/-- Searching a shadow gives one if the first has a field, and otherwise nothing or a fault of
structure. -/
theorem findShadow_cases {nodes : List Node} (hpresent : ∀ n ∈ nodes, n ≠ .absent)
    (hbelow : ∀ n ∈ nodes, ∀ c ∈ n.children, c ≠ .absent) :
    (findShadow nodes = .ok none ∧ ¬HasShadow nodes) ∨
      ∃ shadow, findShadow nodes = shadow.map some ∧ Decides shadow (HasShadow nodes) := by
  obtain ⟨found, hfound, hfirst⟩ := firstChild?_spec "shadow" hpresent
  rw [findShadow, hfound]
  cases found with
  | none =>
    -- the search found none, so there is no first one with a field
    refine .inl ⟨rfl, ?_⟩
    rintro ⟨s, hs, -⟩
    exact absurd ((hfirst s).1 hs) (by simp)
  | some n =>
    have hn := (hfirst n).2 rfl
    have hinner := hbelow n hn.mem
    cases n with
    | absent => exact absurd rfl (hpresent _ hn.mem)
    | element tag attributes body inner =>
      refine .inr ⟨_, rfl, (decides_toShadow attributes hinner).congr ⟨fun h => ⟨_, hn, h⟩, ?_⟩⟩
      rintro ⟨s, hs, h⟩
      rwa [← Option.some.inj ((hfirst s).1 hs)] at h

/-- **A value slot** has content if its block is good or else its shadow is. -/
theorem decides_chooseContent (name : String) {block : Except ParseError (Option (Parsed Chain))}
    {shadow : Except ParseError (Option Shadow)} {B S : Prop}
    (hblock : (block = .ok none ∧ ¬B) ∨
      ∃ chain, block = .ok (some chain) ∧ Decides chain.outcome B)
    (hshadow : (shadow = .ok none ∧ ¬S) ∨ ∃ s, shadow = s.map some ∧ Decides s S) :
    Decides (chooseContent name block shadow).outcome (B ∨ S) := by
  rcases hblock with ⟨rfl, hB⟩ | ⟨⟨outcome, warnings⟩, rfl, hB⟩
  · -- no block: the shadow alone counts
    rcases hshadow with ⟨rfl, hS⟩ | ⟨s, rfl, hS⟩
    · exact Decides.error (not_or.2 ⟨hB, hS⟩) rfl
    · cases s with
      | ok s => exact Decides.ok (.inr hS)
      | error e => exact Decides.error (not_or.2 ⟨hB, hS.1⟩) hS.2
  · cases outcome with
    | ok chain => exact Decides.ok (.inl hB)
    | error e =>
      -- the fault of the block is one of structure, so the shadow is looked at
      have he : e.isAbsentNode = false := hB.2
      rcases hshadow with ⟨rfl, hS⟩ | ⟨s, rfl, hS⟩
      · simp only [chooseContent, he, Bool.false_eq_true, if_false]
        exact Decides.error (not_or.2 ⟨hB.1, hS⟩) he
      · cases s with
        | ok s =>
          simp only [chooseContent, he, Bool.false_eq_true, if_false, Except.map]
          exact Decides.ok (.inr hS)
        | error f =>
          simp only [chooseContent, he, hS.2, Bool.false_eq_true, if_false, Except.map]
          exact Decides.error (not_or.2 ⟨hB.1, hS.1⟩) he

/-! ### Blocks -/

/-- What is known of a node when the parser comes to the element around it: reading it as a block
and as a member decides the rules, and so does reading its children as blocks. -/
structure Settled (n : Node) : Prop where
  present : n ≠ .absent
  block : Decides (parseChain n).outcome (IsBlock n)
  member : Decides (parseMember n).outcome (IsMember n)
  innerPresent : ∀ c ∈ n.children, c ≠ .absent
  innerBlock : ∀ c ∈ n.children, Decides (parseChain c).outcome (IsBlock c)

theorem decides_parseMember {n : Node} (hpresent : n ≠ .absent)
    (hsettled : ∀ c ∈ n.children, Settled c) : Decides (parseMember n).outcome (IsMember n) := by
  -- what the two searches give is known before the tag is looked at
  have hblock := firstBlock_cases (fun c hc => (hsettled c hc).present)
    (fun c hc => (hsettled c hc).block)
  have hshadow := findShadow_cases (fun c hc => (hsettled c hc).present)
    (fun c hc => (hsettled c hc).innerPresent)
  cases n with
  | absent => exact absurd rfl hpresent
  | element tag attributes body inner =>
    by_cases hname : attr attributes "name" = ""
    · rw [parseMember, if_pos hname]
      exact Decides.error (fun h => h.name_ne hname) rfl
    by_cases hvalue : tag = "value"
    · subst hvalue
      rw [parseMember_value body inner hname]
      refine (decides_chooseContent _ hblock hshadow).congr ?_
      rw [isMember_value_iff rfl]
      exact ⟨fun h => ⟨hname, h⟩, fun h => h.2⟩
    by_cases hstatement : tag = "statement"
    · subst hstatement
      have hiff : HasBlock inner ↔ IsMember (.element "statement" attributes body inner) := by
        rw [isMember_statement_iff rfl]
        exact ⟨fun h => ⟨hname, h⟩, fun h => h.2⟩
      -- a statement is a member just if its first block is a chain
      rw [parseMember_statement body inner hname]
      rcases hblock with ⟨hfound, hnone⟩ | ⟨chain, hfound, hchain⟩
      · rw [show firstBlock inner = .ok none from hfound]
        exact Decides.error (fun h => hnone (hiff.2 h)) rfl
      · rw [show firstBlock inner = .ok (some chain) from hfound]
        simp only [Parsed.outcome_bind, Parsed.outcome_within, Parsed.outcome_ok]
        have hbody : Decides (chain.outcome.mapError (.inStatement (attr attributes "name")))
            (HasBlock inner) := hchain.mapError fun _ => rfl
        refine (hbody.bind (Q := True) fun _ _ => Decides.ok trivial).congr ?_
        rw [and_true, hiff]
    by_cases hfield : tag = "field"
    · subst hfield
      rw [parseMember_field body inner hname]
      exact Decides.ok ((isMember_field_iff rfl).2 hname)
    · -- no other tag is one of a member
      rw [parseMember, if_neg hname, if_neg (by simp [hvalue]), if_neg (by simp [hstatement]),
        if_neg (by simp [hfield])]
      refine Decides.error (fun h => ?_) rfl
      have htag : isMemberTag tag = true := h.isMemberTag rfl
      simp [isMemberTag, hvalue, hstatement, hfield] at htag

/-- How many `next` elements there are. -/
def nexts (nodes : List Node) : Nat := nodes.countP (·.tag? == some "next")

theorem nexts_cons_next {n : Node} (htag : n.tag? = some "next") (nodes : List Node) :
    nexts (n :: nodes) = nexts nodes + 1 :=
  List.countP_cons_of_pos (by simp [htag])

theorem nexts_cons_other {n : Node} {tag : String} (htag : n.tag? = some tag) (hne : tag ≠ "next")
    (nodes : List Node) : nexts (n :: nodes) = nexts nodes :=
  List.countP_cons_of_neg (by simp [htag, hne])

/-- **The children of a block.** Suppose that what comes after them, `k`, decides what the chain
read from `next` decides. Then the run through the children, followed by `k`, decides that the
chain carried so far is good, that the children are parts, and that there is no second `next`. -/
theorem decides_parseInterior (opcode id : String) {β : Type} {k : Interior → Except ParseError β}
    (hk : ∀ i P, Decides i.rest.outcome P → Decides (k i) P) {nodes : List Node}
    (hnodes : ∀ n ∈ nodes, Settled n) (seen : Interior) (P : Prop)
    (hseen : Decides seen.rest.outcome P) :
    Decides ((parseInterior opcode id seen nodes).outcome >>= k)
      (P ∧ (∀ n ∈ nodes, IsPart n) ∧ nexts nodes + seen.next.toList.length ≤ 1) := by
  induction nodes generalizing seen P with
  | nil =>
    -- nothing is left to read, so what is carried decides
    rw [parseInterior]
    refine (hk seen P hseen).congr ⟨fun hP => ⟨hP, by simp, ?_⟩, fun h => h.1⟩
    cases seen.next with
    | none => exact Nat.zero_le 1
    | some chain => exact Nat.le_refl 1
  | cons n nodes ih =>
    have hn := hnodes n List.mem_cons_self
    have hrest := ih fun m hm => hnodes m (List.mem_cons_of_mem n hm)
    obtain ⟨tag, htag⟩ := exists_tag hn.present
    rw [List.forall_mem_cons]
    by_cases hmember : isMemberTag tag = true
    · have hnext : tag ≠ "next" := by
        rintro rfl
        exact absurd hmember (by decide)
      rw [outcome_parseInterior_member opcode id seen nodes htag hmember, bind_assoc,
        isPart_member_iff htag hmember, nexts_cons_other htag hnext]
      have hm : Decides ((parseMember n).outcome.mapError (.inBlock id opcode)) (IsMember n) :=
        hn.member.mapError fun _ => rfl
      -- whatever the member is, it does not change what is carried
      have hafter : ∀ m, Decides
          ((parseInterior opcode id { seen with members := m :: seen.members } nodes).outcome
            >>= k)
          (P ∧ (∀ n ∈ nodes, IsPart n) ∧ nexts nodes + seen.next.toList.length ≤ 1) :=
        fun m => hrest { seen with members := m :: seen.members } P hseen
      refine (hm.bind fun m _ => hafter m).congr ?_
      rw [and_left_comm, and_assoc]
    by_cases hnext : tag = "next"
    · subst hnext
      rw [parseInterior_next opcode id seen nodes htag, isPart_next_iff htag,
        nexts_cons_next htag]
      cases hcarried : seen.next with
      | some chain =>
        -- a second `next`, whatever is in it
        refine Decides.error (fun h => ?_) rfl
        have hcount := h.2.2
        simp only [Option.toList_some, List.length_singleton] at hcount
        omega
      | none =>
        have hP : P := by
          rw [Interior.rest, hcarried] at hseen
          exact hseen
        rcases firstBlock_cases hn.innerPresent hn.innerBlock with
          ⟨hfound, hnone⟩ | ⟨chain, hfound, hchain⟩
        · rw [hfound]
          exact Decides.error (fun h => hnone h.2.1.1) rfl
        · -- from here on the chain is carried, and its rule with it
          rw [hfound]
          refine (hrest { seen with next := some chain } (HasBlock n.children) hchain).congr ?_
          rw [and_iff_right hP, and_assoc]
          exact Iff.rfl
    · have hplain : isMemberTag tag = false := Bool.eq_false_iff.2 hmember
      have hother := isPart_other_iff htag hplain hnext
      rw [parseInterior_other opcode id seen nodes htag hplain hnext,
        nexts_cons_other htag hnext]
      by_cases hdecoration : isDecoration tag = true
      · rw [if_pos hdecoration]
        refine (hrest seen P hseen).congr ?_
        rw [and_iff_right (hother.2 hdecoration)]
      · rw [if_neg hdecoration]
        exact Decides.error (fun h => hdecoration (hother.1 h.2.1.1)) rfl

theorem isBlock_iff {n : Node} : IsBlock n ↔ n.tag? = some "block" ∧ n.attrOf "type" ≠ "" ∧
    (∀ c ∈ n.children, IsPart c) ∧ nexts n.children ≤ 1 := by
  constructor
  · rintro ⟨htag, htype, hparts, hcount⟩
    exact ⟨htag, htype, hparts, hcount⟩
  · rintro ⟨htag, htype, hparts, hcount⟩
    exact .mk htag htype hparts hcount

theorem decides_parseChain {n : Node} (hpresent : n ≠ .absent)
    (hsettled : ∀ c ∈ n.children, Settled c) : Decides (parseChain n).outcome (IsBlock n) := by
  rw [isBlock_iff]
  cases n with
  | absent => exact absurd rfl hpresent
  | element tag attributes body inner =>
    by_cases htag : tag = "block"
    · subst htag
      -- a run that starts with nothing carried and no `next` seen
      by_cases htype : attr attributes "type" = ""
      · rw [parseChain, if_neg (by simp), if_pos htype]
        exact Decides.error (fun h => h.2.1 htype) rfl
      · rw [outcome_parseChain_block htype]
        refine (decides_parseInterior _ _ (fun i P h => h.map) hsettled {} True
          (Decides.ok trivial)).congr ?_
        constructor
        · rintro ⟨-, hparts, hcount⟩
          exact ⟨rfl, htype, hparts, hcount⟩
        · rintro ⟨-, -, hparts, hcount⟩
          exact ⟨trivial, hparts, hcount⟩
    · rw [parseChain, if_pos (by simp [htag])]
      exact Decides.error (fun h => htag (Option.some.inj h.1)) rfl

/-- Every node of a complete tree is settled, by induction over the tree. -/
theorem settled_of_complete (n : Node) : n.Complete → n ≠ .absent → Settled n := by
  induction n using Node.induction with
  | absent => exact fun _ h => absurd rfl h
  | element tag attributes body inner ih =>
    intro hcomplete hpresent
    obtain ⟨hpresentBelow, hcompleteBelow⟩ := hcomplete.children
    have hinner : ∀ c ∈ inner, Settled c := fun c hc =>
      ih c hc (hcompleteBelow c hc) (hpresentBelow c hc)
    exact {
      present := hpresent
      block := decides_parseChain hpresent hinner
      member := decides_parseMember hpresent hinner
      innerPresent := fun c hc => (hinner c hc).present
      innerBlock := fun c hc => (hinner c hc).block }

/-! ### Variables -/

/-- Trimming leaves nothing of a blank text only. -/
theorem trim_eq_empty_iff (text : String) : Text.trim text = "" ↔ Text.isAllBlank text = true := by
  have hlist : Text.trimList text.toList = [] ↔ ∀ c ∈ text.toList, Text.isBlank c = true := by
    rw [Text.trimList, List.reverse_eq_nil_iff, List.dropWhile_eq_nil_iff]
    constructor
    · -- a character is in the blanks dropped in front, or in what is left and then dropped too
      intro h c hc
      rw [← List.takeWhile_append_dropWhile (p := Text.isBlank) (l := text.toList)] at hc
      rcases List.mem_append.1 hc with hc | hc
      · exact List.mem_takeWhile_imp hc
      · exact h c (List.mem_reverse.2 hc)
    · intro h c hc
      exact h c ((List.dropWhile_suffix _).subset (List.mem_reverse.1 hc))
  rw [Text.trim, String.ofList_eq_empty_iff, hlist, Text.isAllBlank, List.all_eq_true]

theorem variableName_eq_empty_iff (attributes : List (String × String)) (body : String) :
    variableName attributes body = "" ↔
      attr attributes "name" = "" ∧ Text.isAllBlank body = true := by
  rw [variableName]
  by_cases hname : attr attributes "name" = ""
  · rw [if_pos hname, trim_eq_empty_iff, visibleText]
    by_cases hblank : Text.isAllBlank body = true
    · rw [if_pos hblank]
      exact ⟨fun _ => ⟨hname, hblank⟩, fun _ => rfl⟩
    · rw [if_neg hblank]
      exact ⟨fun h => ⟨hname, h⟩, fun h => h.2⟩
  · simp [hname]

theorem namesVariable_iff {tag : String} {attributes : List (String × String)} {body : String}
    {inner : List Node} : NamesVariable (.element tag attributes body inner) ↔
      variableName attributes body ≠ "" := by
  rw [Ne, variableName_eq_empty_iff, not_and_or, Bool.not_eq_true]
  exact Iff.rfl

theorem decides_toVariables {nodes : List Node} (hpresent : ∀ n ∈ nodes, n ≠ .absent) :
    Decides (toVariables nodes) (∀ n ∈ nodes, n.tag? = some "variable" → NamesVariable n) := by
  induction nodes with
  | nil => exact Decides.ok (by simp)
  | cons n nodes ih =>
    have hrest := ih fun m hm => hpresent m (List.mem_cons_of_mem n hm)
    rw [List.forall_mem_cons]
    cases n with
    | absent => exact absurd rfl (hpresent _ List.mem_cons_self)
    | element tag attributes body inner =>
      rw [namesVariable_iff, toVariables]
      by_cases htag : tag = "variable"
      · rw [if_pos (by simp [htag])]
        -- a nameless one decides the whole, otherwise the others do
        by_cases hname : variableName attributes body = ""
        · rw [if_pos hname]
          exact Decides.error (fun h => h.1 (by rw [tag?, htag]) hname) rfl
        · rw [if_neg hname]
          refine (hrest.bind (Q := True) fun _ _ => Decides.ok trivial).congr ?_
          exact ⟨fun h => ⟨fun _ => hname, h.1⟩, fun h => ⟨h.2, trivial⟩⟩
      · rw [if_neg (by simp [htag])]
        exact hrest.congr ⟨fun h => ⟨fun ht => absurd (Option.some.inj ht) htag, h⟩, fun h => h.2⟩

/-! ### Documents -/

theorem startsScript_iff {entryTypes : List String} {n : Node} :
    startsScript entryTypes n = true ↔ IsCandidate entryTypes n := by
  simp [startsScript, isEntry, IsCandidate]

theorem decides_declared {nodes : List Node} (hpresent : ∀ n ∈ nodes, n ≠ .absent)
    (hbelow : ∀ n ∈ nodes, ∀ c ∈ n.children, c ≠ .absent) :
    Decides (declared nodes) (∀ v ∈ nodes, v.tag? = some "variables" →
      ∀ c ∈ v.children, c.tag? = some "variable" → NamesVariable c) := by
  induction nodes with
  | nil => exact Decides.ok (by simp)
  | cons n nodes ih =>
    have hrest := ih (fun m hm => hpresent m (List.mem_cons_of_mem n hm))
      (fun m hm => hbelow m (List.mem_cons_of_mem n hm))
    have hn := decides_toVariables (hbelow n List.mem_cons_self)
    rw [List.forall_mem_cons]
    cases n with
    | absent => exact absurd rfl (hpresent _ List.mem_cons_self)
    | element tag attributes body inner =>
      rw [declared]
      -- this element is decided first, and then the others
      by_cases hvariables : tag = "variables"
      · rw [if_pos hvariables]
        refine Decides.congr
          (hn.bind fun vars _ => hrest.bind (Q := True) fun more _ => Decides.ok trivial) ?_
        exact ⟨fun h => ⟨fun _ => h.1, h.2.1⟩,
          fun h => ⟨h.1 (congrArg some hvariables), h.2, trivial⟩⟩
      · rw [if_neg hvariables]
        exact hrest.congr
          ⟨fun h => ⟨fun ht => absurd (Option.some.inj ht) hvariables, h⟩, fun h => h.2⟩

/-- One candidate and no other, as a statement about the list of candidates. -/
theorem filter_startsScript_eq_singleton_iff {entryTypes : List String} {nodes : List Node}
    {b : Node} : nodes.filter (startsScript entryTypes) = [b] ↔
      ∃ before after, nodes = before ++ b :: after ∧ IsCandidate entryTypes b ∧
        ∀ n ∈ before ++ after, ¬ IsCandidate entryTypes n := by
  simp only [List.filter_eq_cons_iff, List.filter_eq_nil_iff, startsScript_iff]
  constructor
  · rintro ⟨before, after, hsplit, hbefore, hb, hafter⟩
    refine ⟨before, after, hsplit, hb, fun n hn => ?_⟩
    rcases List.mem_append.1 hn with hn | hn
    · exact hbefore n hn
    · exact hafter n hn
  · rintro ⟨before, after, hsplit, hb, hothers⟩
    exact ⟨before, after, hsplit, fun n hn => hothers n (List.mem_append_left _ hn), hb,
      fun n hn => hothers n (List.mem_append_right _ hn)⟩

theorem isDocument_iff {entryTypes : List String} {root : Node} :
    IsDocument entryTypes root ↔
      (∀ v ∈ root.children, v.tag? = some "variables" →
        ∀ c ∈ v.children, c.tag? = some "variable" → NamesVariable c) ∧
      ∃ b, root.children.filter (startsScript entryTypes) = [b] ∧ IsBlock b := by
  simp only [filter_startsScript_eq_singleton_iff]
  constructor
  · rintro ⟨hvariables, before, b, after, hsplit, hb, hothers, hblock⟩
    exact ⟨hvariables, b, ⟨before, after, hsplit, hb, hothers⟩, hblock⟩
  · rintro ⟨hvariables, b, ⟨before, after, hsplit, hb, hothers⟩, hblock⟩
    exact ⟨hvariables, before, b, after, hsplit, hb, hothers, hblock⟩

/-- Parsing a tree decides whether it is a document. -/
theorem decides_parse (entryTypes : List String) {root : Node} (hroot : root.Complete) :
    Decides (parse entryTypes root) (IsDocument entryTypes root) := by
  rw [isDocument_iff]
  -- all top-level nodes are settled, though only one of them is parsed
  have hsettled : ∀ c ∈ root.children, Settled c := fun c hc =>
    settled_of_complete c (hroot.children.2 c hc) (hroot.children.1 c hc)
  cases root with
  | absent =>
    refine Decides.error ?_ rfl
    rintro ⟨-, b, hb, -⟩
    exact absurd hb (by simp [children])
  | element tag attributes body inner =>
    rw [parse_element]
    refine (decides_declared (fun c hc => (hsettled c hc).present)
      (fun c hc => (hsettled c hc).innerPresent)).bind fun vars _ => ?_
    rw [Node.children]
    -- no candidate, one, or several
    cases hcandidates : inner.filter (startsScript entryTypes) with
    | nil => exact Decides.error (by simp) rfl
    | cons b others =>
      cases others with
      | nil =>
        have hb : b ∈ inner := (List.mem_filter.1 (hcandidates ▸ List.mem_cons_self)).1
        exact (hsettled b hb).block.map.congr (by simp)
      | cons c others => exact Decides.error (by simp) rfl

/-- A top-level block at which no script starts has no influence on the result. -/
theorem parse_remove_block {entryTypes : List String} {n : Node} (htag : n.tag? = some "block")
    (hn : ¬ IsCandidate entryTypes n) (tag : String) (attributes : List (String × String))
    (body : String) (before after : List Node) :
    parse entryTypes (.element tag attributes body (before ++ n :: after))
      = parse entryTypes (.element tag attributes body (before ++ after)) := by
  -- declarations and candidates are found one by one, and the block is neither
  have hdeclared : declared (before ++ n :: after) = declared (before ++ after) := by
    induction before with
    | nil =>
      cases n with
      | absent => exact absurd htag (by simp [tag?])
      | element t a b inner =>
        obtain rfl := Option.some.inj htag
        rfl
    | cons m before ih =>
      cases m with
      | absent => rfl
      | element t a b inner => rw [List.cons_append, List.cons_append, declared, declared, ih]
  have hcandidates : (before ++ n :: after).filter (startsScript entryTypes)
      = (before ++ after).filter (startsScript entryTypes) := by
    rw [List.filter_append, List.filter_append,
      List.filter_cons_of_neg (by rw [startsScript_iff]; exact hn)]
  rw [parse_element, parse_element, hcandidates, hdeclared]

/-- **The parser accepts exactly its grammar.** For every tree without absent children and all
entry types, parsing gives a document if the tree follows the rules, and otherwise nothing but a
fault of structure. The top-level blocks at which no script starts are not looked at: without one
of them, whatever it contains, the result is the same. -/
theorem parse_accepts_exactly_documents (entryTypes : List String) {root : Node}
    (hroot : root.Complete) :
    ((∃ document, root.parse entryTypes = .ok document) ↔ IsDocument entryTypes root) ∧
    (¬ IsDocument entryTypes root →
      ∃ e, root.parse entryTypes = .error e ∧ e.IsMalformed) ∧
    (∀ tag attributes body before n after,
      root = .element tag attributes body (before ++ n :: after) →
      n.tag? = some "block" → ¬ IsCandidate entryTypes n →
      root.parse entryTypes
        = (Node.element tag attributes body (before ++ after)).parse entryTypes) := by
  refine ⟨(decides_parse entryTypes hroot).exists_ok_iff,
    (decides_parse entryTypes hroot).exists_error, ?_⟩
  rintro tag attributes body before n after rfl htag hn
  exact parse_remove_block htag hn tag attributes body before after

/-- A tree with a named variable, a draft that is no block by the rules, and a script whose value
has a faulty block and a shadow. -/
def draftTree : Node :=
  .element "xml" [] "" [
    .element "variables" [] "" [.element "variable" [] " score " []],
    .element "block" [("type", "draft")] "" [.element "sketch" [] "" []],
    .element "block" [("type", "go")] "" [
      .element "value" [("name", "N")] "" [
        .element "block" [] "" [],
        .element "shadow" [] "" [.element "field" [("name", "NUM")] "7" []]]]]

/-- With its entry type the tree is a document; if any block may start a script, it is not. -/
theorem parse_draft_tree : draftTree.Complete ∧
    (∃ document, draftTree.parse ["go"] = .ok document) ∧
    (∃ e, draftTree.parse [] = .error e ∧ e.IsMalformed) := by
  have hcomplete : draftTree.Complete := by simp [draftTree]
  have hdocument : IsDocument ["go"] draftTree := by
    refine isDocument_iff.2 ⟨?_, _, rfl, .mk rfl (by decide) (fun c hc => ?_) (by decide)⟩
    · simp [draftTree, children, tag?, NamesVariable, body, Text.isAllBlank, Text.isBlank]
    · obtain rfl := List.mem_singleton.1 hc
      exact .member (.literal rfl (by decide) ⟨[_], [], rfl, rfl, by simp [tag?]⟩
        List.mem_cons_self rfl)
  have hdrafts : ¬ IsDocument [] draftTree := by
    rw [isDocument_iff]
    rintro ⟨-, b, hb, -⟩
    have hlength : 2 = 1 := congrArg List.length hb
    exact absurd hlength (by decide)
  exact ⟨hcomplete, (parse_accepts_exactly_documents ["go"] hcomplete).1.2 hdocument,
    (parse_accepts_exactly_documents [] hcomplete).2.1 hdrafts⟩

end Node

end Blockwork
