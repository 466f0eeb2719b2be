import Blockwork.Program.Walk
import Mathlib.Data.List.Basic
import Mathlib.Data.List.Induction
import Mathlib.Tactic.Common

/-!
# Positions in a program

A block of a program is found by a **position**: its place in its chain, then the member it is in
and its place in that member's chain, and so on inwards. `[2]` is the third block of the script,
`[2, 0, 1]` the second block in the first member of that block. Document order is the
lexicographic order of positions: a block comes before the blocks in its slots, and these come
before the rest of its chain.

`positions` lists them all, and two facts make it the meaning of a walk that enters every block:

* `pairwise_positions` — the positions are listed in document order, each once;
* `map_chainAt?_positions` — the chains found at them are those that the walk passes.

`Chain.induction` is the one induction that the proofs about programs use: a property of chains
that passes from the slots of a block and from the rest of its chain to the chain.
-/

namespace Blockwork

/-- The chain in a member, empty for a literal and a field. -/
def Member.chain : Member → Chain
  | .expression _ chain => chain
  | .literal _ _ => []
  | .statement _ chain => chain
  | .field _ => []

namespace Chain

/-! ### Induction on programs -/

section Induction

variable {P : Chain → Prop} (nil : P [])
  (cons : ∀ (b : Block) (rest : Chain), (∀ m ∈ b.members, P m.chain) → P rest → P (b :: rest))

include nil cons in
/-- **Induction on programs**: what passes from the chains in the slots of a block and from the
rest of its chain to the chain holds of every chain. -/
theorem induction (c : Chain) : P c := by
  have hblock : ∀ b : Block, ∀ m ∈ b.members, P m.chain := by
    intro b
    -- the recursor of the nested types, with the property at each of its four levels
    refine Block.rec (motive_1 := fun b => ∀ m ∈ b.members, P m.chain)
      (motive_2 := fun m => P m.chain) (motive_3 := fun ms => ∀ m ∈ ms, P m.chain)
      (motive_4 := fun c => P c) ?_ ?_ ?_ ?_ ?_ ?_ ?_ ?_ ?_ b
    · exact fun _ _ _ h => h
    · exact fun _ _ h => h
    · exact fun _ _ => nil
    · exact fun _ _ h => h
    · exact fun _ => nil
    · exact fun m hm => absurd hm List.not_mem_nil
    · exact fun head tail hhead htail => List.forall_mem_cons.2 ⟨hhead, htail⟩
    · exact nil
    · exact fun head tail hhead htail => cons head tail hhead htail
  -- along the chain itself, ordinary induction
  induction c with
  | nil => exact nil
  | cons b rest ih => exact cons b rest (hblock b) ih

end Induction

/-! ### Walks block by block -/

section Tour

variable (enter : Position → Block → Bool)

theorem tourFrom_cons (outer : Position) (i : Nat) (b : Block) (rest : Chain) :
    tourFrom enter outer i (b :: rest)
      = (outer ++ [i], b :: rest) ::
          ((if enter (outer ++ [i]) b then slotsTour enter (outer ++ [i]) 0 b.members else []) ++
            tourFrom enter outer (i + 1) rest) := by
  cases b
  rfl

theorem slotsTour_cons (p : Position) (j : Nat) (m : Member) (members : List Member) :
    slotsTour enter p j (m :: members)
      = tourFrom enter (p ++ [j]) 0 m.chain ++ slotsTour enter p (j + 1) members := by
  cases m <;> rfl

end Tour

theorem map_snd_slotsTour {enter : Block → Bool} {members : List Member}
    (h : ∀ m ∈ members, ∀ outer i,
      (tourFrom (fun _ => enter) outer i m.chain).map (·.2) = walk enter m.chain)
    (p : Position) (j : Nat) :
    (slotsTour (fun _ => enter) p j members).map (·.2)
      = members.flatMap fun m => walk enter m.chain := by
  induction members generalizing j with
  | nil => rfl
  | cons m members ih =>
    rw [slotsTour_cons, List.map_append, h m List.mem_cons_self,
      ih (fun m' hm' => h m' (List.mem_cons_of_mem m hm')), List.flatMap_cons]

/-- A visitor that looks at the blocks only sees the same wherever the chain is. -/
theorem map_snd_tourFrom (enter : Block → Bool) (c : Chain) : ∀ outer i,
    (tourFrom (fun _ => enter) outer i c).map (·.2) = walk enter c := by
  refine Chain.induction (P := fun c => ∀ outer i,
    (tourFrom (fun _ => enter) outer i c).map (·.2) = walk enter c) ?_ ?_ c
  · exact fun _ _ => rfl
  · intro b rest hslots hrest outer i
    have hcons : ∀ outer i, (tourFrom (fun _ => enter) outer i (b :: rest)).map (·.2)
        = (b :: rest) ::
          ((if enter b then b.members.flatMap fun m => walk enter m.chain else []) ++
            walk enter rest) := by
      intro outer i
      rw [tourFrom_cons, List.map_cons, List.map_append, hrest]
      split
      · rw [map_snd_slotsTour hslots]
      · rfl
    rw [hcons outer i]
    exact (hcons [] 0).symm

theorem walk_cons (b : Block) (rest : Chain) :
    walk (fun _ => true) (b :: rest)
      = (b :: rest) :: ((b.members.flatMap fun m => walk (fun _ => true) m.chain) ++
          walk (fun _ => true) rest) := by
  rw [walk, tour, tourFrom_cons, if_pos rfl, List.map_cons, List.map_append, map_snd_tourFrom,
    map_snd_slotsTour fun m _ => map_snd_tourFrom _ m.chain]

theorem blocks_cons (b : Block) (rest : Chain) :
    blocks (b :: rest) = b :: ((b.members.flatMap fun m => blocks m.chain) ++ blocks rest) := by
  rw [blocks, visited, walk_cons, List.filterMap_cons, List.filterMap_append,
    List.filterMap_flatMap]
  rfl

@[simp] theorem blocks_nil : blocks [] = [] := rfl

theorem mem_blocks_cons {x b : Block} {rest : Chain} :
    x ∈ blocks (b :: rest) ↔
      x = b ∨ (∃ m ∈ b.members, x ∈ blocks m.chain) ∨ x ∈ blocks rest := by
  rw [blocks_cons, List.mem_cons, List.mem_append, List.mem_flatMap]

/-! ### Positions -/

mutual

/-- The chain that begins with the block at a position. -/
def chainAt? (chain : Chain) : Position → Option Chain
  | [] => none
  | [i] => if i < chain.length then some (chain.drop i) else none
  | i :: j :: inner => (chain[i]?).bind fun b => slotAt? b.members (j :: inner)

/-- The same below a list of members. -/
def slotAt? (members : List Member) : Position → Option Chain
  | [] => none
  | j :: inner => (members[j]?).bind fun m => chainAt? m.chain inner

end

/-- The block at a position. -/
def blockAt? (c : Chain) (p : Position) : Option Block := (chainAt? c p).bind List.head?

mutual

/-- The positions in a chain whose first block has place `i`. -/
def positionsFrom (i : Nat) : List Block → List Position
  | [] => []
  | b :: rest => [i] :: ((blockPositions b).map (i :: ·) ++ positionsFrom (i + 1) rest)

/-- The positions below a block. -/
def blockPositions : Block → List Position
  | .mk _ _ members => slotPositions 0 members

/-- The positions below a list of members whose first has number `j`. -/
def slotPositions (j : Nat) : List Member → List Position
  | [] => []
  | m :: members => (memberPositions m).map (j :: ·) ++ slotPositions (j + 1) members

/-- The positions in the chain of a member. -/
def memberPositions : Member → List Position
  | .expression _ chain => positionsFrom 0 chain
  | .literal _ _ => []
  | .statement _ chain => positionsFrom 0 chain
  | .field _ => []

end

/-- All positions of a program in document order. -/
def positions (c : Chain) : List Position := positionsFrom 0 c

theorem blockPositions_eq (b : Block) : blockPositions b = slotPositions 0 b.members := by
  cases b
  rfl

theorem memberPositions_eq (m : Member) : memberPositions m = positions m.chain := by
  cases m <;> rfl

theorem positionsFrom_cons (i : Nat) (b : Block) (rest : Chain) :
    positionsFrom i (b :: rest)
      = [i] :: ((slotPositions 0 b.members).map (i :: ·) ++ positionsFrom (i + 1) rest) := by
  rw [positionsFrom, blockPositions_eq]

theorem slotPositions_cons (j : Nat) (m : Member) (members : List Member) :
    slotPositions j (m :: members)
      = (positions m.chain).map (j :: ·) ++ slotPositions (j + 1) members := by
  rw [slotPositions, memberPositions_eq]

/-! ### Document order -/

/-- The places in a chain count upwards. -/
theorem exists_cons_of_mem_positionsFrom {i : Nat} {c : Chain} {p : Position}
    (h : p ∈ positionsFrom i c) : ∃ k inner, p = k :: inner ∧ i ≤ k := by
  induction c generalizing i with
  | nil => exact absurd h List.not_mem_nil
  | cons b rest ih =>
    rw [positionsFrom_cons, List.mem_cons, List.mem_append, List.mem_map] at h
    rcases h with rfl | ⟨q, -, rfl⟩ | h
    · exact ⟨i, [], rfl, Nat.le_refl _⟩
    · exact ⟨i, q, rfl, Nat.le_refl _⟩
    · obtain ⟨k, inner, rfl, hk⟩ := ih h
      exact ⟨k, inner, rfl, by omega⟩

/-- The numbers of members count upwards. -/
theorem exists_cons_of_mem_slotPositions {j : Nat} {members : List Member} {p : Position}
    (h : p ∈ slotPositions j members) : ∃ k inner, p = k :: inner ∧ j ≤ k := by
  induction members generalizing j with
  | nil => exact absurd h List.not_mem_nil
  | cons m members ih =>
    rw [slotPositions_cons, List.mem_append, List.mem_map] at h
    rcases h with ⟨q, -, rfl⟩ | h
    · exact ⟨j, q, rfl, Nat.le_refl _⟩
    · obtain ⟨k, inner, rfl, hk⟩ := ih h
      exact ⟨k, inner, rfl, by omega⟩

/-- Positions that begin alike are ordered by what follows. -/
theorem pairwise_map_cons {ps : List Position} (i : Nat) (h : ps.Pairwise (· < ·)) :
    (ps.map (i :: ·)).Pairwise (· < ·) := by
  rw [List.pairwise_map]
  exact h.imp fun hlt => List.cons_lt_cons_iff.2 (.inr ⟨rfl, hlt⟩)

theorem pairwise_slotPositions {members : List Member}
    (h : ∀ m ∈ members, (positions m.chain).Pairwise (· < ·)) (j : Nat) :
    (slotPositions j members).Pairwise (· < ·) := by
  induction members generalizing j with
  | nil => exact List.Pairwise.nil
  | cons m members ih =>
    rw [slotPositions_cons, List.pairwise_append]
    refine ⟨pairwise_map_cons j (h m List.mem_cons_self),
      ih (fun m' hm' => h m' (List.mem_cons_of_mem m hm')) (j + 1), ?_⟩
    -- positions in a later member have a greater number in front
    intro p hp q hq
    obtain ⟨p', -, rfl⟩ := List.mem_map.1 hp
    obtain ⟨k, inner, rfl, hk⟩ := exists_cons_of_mem_slotPositions hq
    exact List.cons_lt_cons_iff.2 (.inl (by omega))

theorem pairwise_positionsFrom (c : Chain) : ∀ i, (positionsFrom i c).Pairwise (· < ·) := by
  refine Chain.induction (P := fun c => ∀ i, (positionsFrom i c).Pairwise (· < ·)) ?_ ?_ c
  · exact fun i => List.Pairwise.nil
  · intro b rest hslots hrest i
    rw [positionsFrom_cons, List.pairwise_cons, List.pairwise_append]
    -- everything at and below the block is before the rest of its chain
    have hlater : ∀ p ∈ positionsFrom (i + 1) rest, ∀ q : Position, i :: q < p := by
      intro p hp q
      obtain ⟨k, inner, rfl, hk⟩ := exists_cons_of_mem_positionsFrom hp
      exact List.cons_lt_cons_iff.2 (.inl (by omega))
    refine ⟨fun p hp => ?_, pairwise_map_cons i
      (pairwise_slotPositions (fun m hm => hslots m hm 0) 0), hrest (i + 1), ?_⟩
    · rcases List.mem_append.1 hp with hp | hp
      · -- a block comes before what is in its slots
        obtain ⟨q, hq, rfl⟩ := List.mem_map.1 hp
        obtain ⟨k, inner, rfl, -⟩ := exists_cons_of_mem_slotPositions hq
        exact List.cons_lt_cons_iff.2 (.inr ⟨rfl, List.nil_lt_cons _ _⟩)
      · exact hlater p hp []
    · intro p hp q hq
      obtain ⟨p', -, rfl⟩ := List.mem_map.1 hp
      exact hlater q hq p'

/-- **Positions are listed in document order.** -/
theorem pairwise_positions (c : Chain) : (positions c).Pairwise (· < ·) :=
  pairwise_positionsFrom c 0

/-! ### What is found at positions -/

theorem chainAt?_append_length (before : Chain) (b : Block) (rest : Chain) :
    chainAt? (before ++ b :: rest) [before.length] = some (b :: rest) := by
  simp [chainAt?]

/-- Below a block, its members are looked at. -/
theorem chainAt?_append_below (before : Chain) (b : Block) (rest : Chain) (j : Nat)
    (inner : Position) :
    chainAt? (before ++ b :: rest) (before.length :: j :: inner)
      = slotAt? b.members (j :: inner) := by
  simp [chainAt?]

theorem slotAt?_append_length (before : List Member) (m : Member) (members : List Member)
    (inner : Position) :
    slotAt? (before ++ m :: members) (before.length :: inner) = chainAt? m.chain inner := by
  simp [slotAt?]

theorem map_slotAt?_slotPositions {members : List Member}
    (h : ∀ m ∈ members,
      (positions m.chain).map (chainAt? m.chain) = (walk (fun _ => true) m.chain).map some)
    (before : List Member) :
    (slotPositions before.length members).map (slotAt? (before ++ members))
      = (members.flatMap fun m => walk (fun _ => true) m.chain).map some := by
  -- `before` are the members that were passed, so that their number is the place of the next one
  induction members generalizing before with
  | nil => rfl
  | cons m members ih =>
    have hhead : ((positions m.chain).map (before.length :: ·)).map
          (slotAt? (before ++ m :: members))
        = (walk (fun _ => true) m.chain).map some := by
      rw [List.map_map, ← h m List.mem_cons_self]
      exact List.map_congr_left fun p _ => slotAt?_append_length before m members p
    have htail := ih (fun m' hm' => h m' (List.mem_cons_of_mem m hm')) (before ++ [m])
    rw [List.length_append, List.length_singleton, List.append_assoc, List.singleton_append]
      at htail
    rw [slotPositions_cons, List.map_append, hhead, htail, List.flatMap_cons, List.map_append]

theorem map_chainAt?_positionsFrom (c : Chain) : ∀ before : Chain,
    (positionsFrom before.length c).map (chainAt? (before ++ c))
      = (walk (fun _ => true) c).map some := by
  refine Chain.induction (P := fun c => ∀ before : Chain,
    (positionsFrom before.length c).map (chainAt? (before ++ c))
      = (walk (fun _ => true) c).map some) ?_ ?_ c
  · exact fun before => rfl
  · intro b rest hslots hrest before
    -- below the block the positions begin with its place in the chain
    have hbelow : ((slotPositions 0 b.members).map (before.length :: ·)).map
          (chainAt? (before ++ b :: rest))
        = (b.members.flatMap fun m => walk (fun _ => true) m.chain).map some := by
      rw [← map_slotAt?_slotPositions (fun m hm => hslots m hm []) [], List.map_map]
      refine List.map_congr_left fun p hp => ?_
      obtain ⟨k, inner, rfl, -⟩ := exists_cons_of_mem_slotPositions hp
      exact chainAt?_append_below before b rest k inner
    -- behind it they go on with one block more in front
    have hlater := hrest (before ++ [b])
    rw [List.length_append, List.length_singleton, List.append_assoc, List.singleton_append]
      at hlater
    rw [positionsFrom_cons, List.map_cons, List.map_append, chainAt?_append_length, hbelow,
      hlater, walk_cons, List.map_cons, List.map_append]

/-- **The chains at the positions are those that the walk passes.** -/
theorem map_chainAt?_positions (c : Chain) :
    (positions c).map (chainAt? c) = (walk (fun _ => true) c).map some :=
  map_chainAt?_positionsFrom c []

/-! ### Every position is listed -/

theorem mem_slotPositions {members : List Member}
    (h : ∀ m ∈ members, ∀ p, (chainAt? m.chain p).isSome → p ∈ positions m.chain)
    (before : List Member) {j : Nat} {inner : Position} (hj : before.length ≤ j)
    (hfound : (slotAt? (before ++ members) (j :: inner)).isSome) :
    j :: inner ∈ slotPositions before.length members := by
  induction members generalizing before with
  | nil =>
    rw [List.append_nil, slotAt?, List.getElem?_eq_none hj] at hfound
    exact absurd hfound (by simp)
  | cons m members ih =>
    rw [slotPositions_cons, List.mem_append]
    rcases Nat.eq_or_lt_of_le hj with rfl | hlt
    · -- the position leads into this member
      rw [slotAt?_append_length] at hfound
      exact .inl (List.mem_map.2 ⟨inner, h m List.mem_cons_self inner hfound, rfl⟩)
    · right
      rw [List.append_cons] at hfound
      have := ih (fun m' hm' => h m' (List.mem_cons_of_mem m hm')) (before ++ [m])
        (by rw [List.length_append, List.length_singleton]; exact hlt) hfound
      simpa using this

theorem mem_positionsFrom (c : Chain) : ∀ (before : Chain) (i : Nat) (inner : Position),
    before.length ≤ i → (chainAt? (before ++ c) (i :: inner)).isSome →
    i :: inner ∈ positionsFrom before.length c := by
  refine Chain.induction (P := fun c => ∀ (before : Chain) (i : Nat) (inner : Position),
    before.length ≤ i → (chainAt? (before ++ c) (i :: inner)).isSome →
    i :: inner ∈ positionsFrom before.length c) ?_ ?_ c
  · intro before i inner hi hfound
    -- there is no block at or beyond the end of the chain
    cases inner with
    | nil => simp [chainAt?, Nat.not_lt.2 hi] at hfound
    | cons j inner => simp [chainAt?, hi] at hfound
  · intro b rest hslots hrest before i inner hi hfound
    rw [positionsFrom_cons, List.mem_cons, List.mem_append]
    rcases Nat.eq_or_lt_of_le hi with rfl | hlt
    · cases inner with
      | nil => exact .inl rfl
      | cons j inner =>
        -- a position below this block, so its members are searched
        right; left
        rw [chainAt?_append_below] at hfound
        refine List.mem_map.2 ⟨j :: inner, ?_, rfl⟩
        refine mem_slotPositions (fun m hm p hp => ?_) [] (Nat.zero_le j) hfound
        cases p with
        | nil => simp [chainAt?] at hp
        | cons k q => exact hslots m hm [] k q (Nat.zero_le k) hp
    · right; right
      rw [List.append_cons] at hfound
      have := hrest (before ++ [b]) i inner
        (by rw [List.length_append, List.length_singleton]; exact hlt) hfound
      simpa using this

/-- The positions that are listed are those at which a block is found. -/
theorem mem_positions_iff {c : Chain} {p : Position} :
    p ∈ positions c ↔ (chainAt? c p).isSome := by
  constructor
  · intro h
    have hmem : chainAt? c p ∈ (walk (fun _ => true) c).map some := by
      rw [← map_chainAt?_positions]
      exact List.mem_map_of_mem h
    obtain ⟨found, -, hfound⟩ := List.mem_map.1 hmem
    exact hfound ▸ rfl
  · intro h
    cases p with
    | nil => simp [chainAt?] at h
    | cons i inner => exact mem_positionsFrom c [] i inner (Nat.zero_le i) h

/-- The chains that the walk passes begin with the blocks that it visits. -/
theorem map_head?_walk (c : Chain) :
    (walk (fun _ => true) c).map List.head? = (blocks c).map some := by
  refine Chain.induction (P := fun c =>
    (walk (fun _ => true) c).map List.head? = (blocks c).map some) rfl ?_ c
  intro b rest hslots hrest
  have hbelow : (b.members.flatMap fun m => walk (fun _ => true) m.chain).map List.head?
      = (b.members.flatMap fun m => blocks m.chain).map some := by
    rw [List.map_flatMap, List.map_flatMap]
    exact List.flatMap_congr hslots
  rw [walk_cons, blocks_cons, List.map_cons, List.map_append, hbelow, hrest, List.map_cons,
    List.map_append]
  rfl

/-- **The blocks at the positions are the blocks of the program.** -/
theorem map_blockAt?_positions (c : Chain) :
    (positions c).map (blockAt? c) = (blocks c).map some := by
  -- the first blocks of the chains at the positions
  have hchains := congrArg (List.map (Option.bind · List.head?)) (map_chainAt?_positions c)
  rw [List.map_map, List.map_map] at hchains
  rw [← map_head?_walk]
  exact hchains

theorem mem_positions_iff_blockAt? {c : Chain} {p : Position} :
    p ∈ positions c ↔ ∃ b, blockAt? c p = some b := by
  constructor
  · intro h
    have hmem : blockAt? c p ∈ (blocks c).map some := by
      rw [← map_blockAt?_positions]
      exact List.mem_map_of_mem h
    obtain ⟨b, -, hb⟩ := List.mem_map.1 hmem
    exact ⟨b, hb.symm⟩
  · rintro ⟨b, hb⟩
    rw [mem_positions_iff]
    cases hfound : chainAt? c p with
    | none => simp [blockAt?, hfound] at hb
    | some found => rfl

theorem mem_blocks_of_blockAt? {c : Chain} {p : Position} {b : Block}
    (h : blockAt? c p = some b) : b ∈ blocks c := by
  have hmem : some b ∈ (blocks c).map some := by
    rw [← map_blockAt?_positions, ← h]
    exact List.mem_map_of_mem (mem_positions_iff_blockAt?.2 ⟨b, h⟩)
  simpa using hmem

/-- The blocks of a chain that is found in a program are blocks of the program. -/
theorem blocks_subset_of_chainAt? {c found : Chain} {p : Position}
    (h : chainAt? c p = some found) : ∀ b ∈ blocks found, b ∈ blocks c := by
  have hwalk : ∀ found ∈ walk (fun _ => true) c, ∀ b ∈ blocks found, b ∈ blocks c := by
    refine Chain.induction (P := fun c =>
      ∀ found ∈ walk (fun _ => true) c, ∀ b ∈ blocks found, b ∈ blocks c) ?_ ?_ c
    · exact fun found hfound => absurd hfound List.not_mem_nil
    · intro b rest hslots hrest found hfound x hx
      rw [walk_cons, List.mem_cons, List.mem_append, List.mem_flatMap] at hfound
      rw [mem_blocks_cons]
      rcases hfound with rfl | ⟨m, hm, hfound⟩ | hfound
      · exact mem_blocks_cons.1 hx
      · exact .inr (.inl ⟨m, hm, hslots m hm found hfound x hx⟩)
      · exact .inr (.inr (hrest found hfound x hx))
  have hmem : some found ∈ (walk (fun _ => true) c).map some := by
    rw [← map_chainAt?_positions, ← h]
    exact List.mem_map_of_mem (mem_positions_iff.2 (h ▸ rfl))
  exact hwalk found (by simpa using hmem)

/-- The blocks in the slots of a block of a program are blocks of the program. -/
theorem blocks_subset_of_mem_members {c : Chain} {b : Block} (hb : b ∈ blocks c) {m : Member}
    (hm : m ∈ b.members) : ∀ x ∈ blocks m.chain, x ∈ blocks c := by
  revert hb
  refine Chain.induction (P := fun c =>
    b ∈ blocks c → ∀ x ∈ blocks m.chain, x ∈ blocks c) ?_ ?_ c
  · exact fun h => absurd h List.not_mem_nil
  · intro head rest hslots hrest hb x hx
    rw [mem_blocks_cons] at hb ⊢
    rcases hb with rfl | ⟨m', hm', hb⟩ | hb
    · exact .inr (.inl ⟨m, hm, hx⟩)
    · exact .inr (.inl ⟨m', hm', hslots m' hm' hb x hx⟩)
    · exact .inr (.inr (hrest hb x hx))

/-! ### First visits -/

theorem distinct_concat (xs : List String) (x : String) :
    distinct (xs ++ [x])
      = if (distinct xs).contains x then distinct xs else distinct xs ++ [x] := by
  rw [distinct, List.foldl_append]
  rfl

theorem mem_distinct {xs : List String} {x : String} : x ∈ distinct xs ↔ x ∈ xs := by
  induction xs using List.reverseRecOn with
  | nil => exact Iff.rfl
  | append_singleton xs y ih =>
    rw [distinct_concat]
    split
    · -- a repetition adds nothing, and was there before
      next hold =>
      have hy : y ∈ distinct xs := by simpa using hold
      rw [ih, List.mem_append, List.mem_singleton]
      refine ⟨.inl, ?_⟩
      rintro (h | rfl)
      · exact h
      · exact ih.1 hy
    · rw [List.mem_append, List.mem_append, ih]

/-- Dropping later repetitions along ordered positions keeps the first position of each text. -/
theorem exists_firsts {ps : List Position} (hps : ps.Pairwise (· < ·)) (f : Position → String) :
    ∃ firsts : List Position, firsts.Sublist ps ∧ firsts.map f = distinct (ps.map f) ∧
      ∀ p, p ∈ firsts ↔ p ∈ ps ∧ ∀ q ∈ ps, q < p → f q ≠ f p := by
  induction ps using List.reverseRecOn with
  | nil => exact ⟨[], List.Sublist.refl _, rfl, by simp⟩
  | append_singleton ps x ih =>
    obtain ⟨hps, -, hx⟩ := List.pairwise_append.1 hps
    have hlast : ∀ p ∈ ps, p < x := fun p hp => hx p hp x (List.mem_singleton_self x)
    obtain ⟨firsts, hsub, hmap, hmem⟩ := ih hps
    -- positions before the last are judged as before, since the last is beyond them
    have hold : ∀ p ∈ ps, (∀ q ∈ ps ++ [x], q < p → f q ≠ f p) ↔
        ∀ q ∈ ps, q < p → f q ≠ f p := by
      intro p hp
      refine ⟨fun h q hq => h q (List.mem_append_left _ hq), fun h q hq hlt => ?_⟩
      rcases List.mem_append.1 hq with hq | hq
      · exact h q hq hlt
      · obtain rfl := List.mem_singleton.1 hq
        exact absurd (List.lt_trans hlt (hlast p hp)) (List.lt_irrefl _)
    have hcontains : (distinct (ps.map f)).contains (f x) = true ↔ ∃ q ∈ ps, f q = f x := by
      rw [List.contains_iff_mem, mem_distinct, List.mem_map]
    rw [List.map_append, List.map_singleton, distinct_concat]
    split
    · -- the text of the last position was met before, so the firsts stay as they are
      next hseen =>
      obtain ⟨q, hq, hqx⟩ := hcontains.1 hseen
      refine ⟨firsts, hsub.trans (List.sublist_append_left _ _), hmap, fun p => ?_⟩
      rw [hmem, List.mem_append, List.mem_singleton]
      constructor
      · rintro ⟨hp, hfirst⟩
        exact ⟨.inl hp, (hold p hp).2 hfirst⟩
      · rintro ⟨hp | rfl, hfirst⟩
        · exact ⟨hp, (hold p hp).1 hfirst⟩
        · exact absurd hqx (hfirst q (List.mem_append_left _ hq) (hlast q hq))
    · -- it is new, so the last position is one of the firsts
      next hnew =>
      refine ⟨firsts ++ [x], hsub.append (List.Sublist.refl _), ?_, fun p => ?_⟩
      · rw [List.map_append, hmap, List.map_singleton]
      · rw [List.mem_append, List.mem_append, List.mem_singleton, hmem]
        constructor
        · rintro (⟨hp, hfirst⟩ | rfl)
          · exact ⟨.inl hp, (hold p hp).2 hfirst⟩
          · refine ⟨.inr rfl, fun q hq hlt heq => ?_⟩
            rcases List.mem_append.1 hq with hq | hq
            · exact hnew (hcontains.2 ⟨q, hq, heq⟩)
            · exact absurd (List.mem_singleton.1 hq ▸ hlt) (List.lt_irrefl _)
        · rintro ⟨hp | rfl, hfirst⟩
          · exact .inl ⟨hp, (hold p hp).1 hfirst⟩
          · exact .inr rfl

/-- A position at which an opcode is met for the first time in document order. -/
def FirstVisit (c : Chain) (p : Position) (opcode : String) : Prop :=
  (blockAt? c p).map Block.opcode = some opcode ∧
    ∀ q < p, (blockAt? c q).map Block.opcode ≠ some opcode

/-- **The opcodes of a program are those of the first visits**, in document order. -/
theorem exists_firstVisits (c : Chain) :
    ∃ visits : List (Position × String), (visits.map (·.1)).Pairwise (· < ·) ∧
      (∀ p opcode, (p, opcode) ∈ visits ↔ FirstVisit c p opcode) ∧
      visits.map (·.2) = opcodes c := by
  -- the opcode at a position; the default is never taken, since only listed positions matter
  let f : Position → String := fun p => ((blockAt? c p).map Block.opcode).getD ""
  have hf : (positions c).map f = (blocks c).map Block.opcode := by
    have h := congrArg (List.map fun o => (o.map Block.opcode).getD "") (map_blockAt?_positions c)
    rw [List.map_map, List.map_map] at h
    exact h
  have hsome : ∀ {p}, p ∈ positions c → (blockAt? c p).map Block.opcode = some (f p) := by
    intro p hp
    obtain ⟨b, hb⟩ := mem_positions_iff_blockAt?.1 hp
    simp [f, hb]
  have hpos : ∀ {p opcode}, (blockAt? c p).map Block.opcode = some opcode →
      p ∈ positions c ∧ opcode = f p := by
    intro p opcode h
    obtain ⟨b, hb, rfl⟩ := Option.map_eq_some_iff.1 h
    exact ⟨mem_positions_iff_blockAt?.2 ⟨b, hb⟩, by simp [f, hb]⟩
  obtain ⟨firsts, hsub, hmap, hmem⟩ := exists_firsts (pairwise_positions c) f
  refine ⟨firsts.map fun p => (p, f p), ?_, fun p opcode => ?_, ?_⟩
  · rw [List.map_map]
    simpa [Function.comp_def] using (pairwise_positions c).sublist hsub
  · rw [List.mem_map]
    constructor
    · rintro ⟨p', hp', heq⟩
      obtain ⟨rfl, rfl⟩ := Prod.mk.inj heq
      obtain ⟨hp, hfirst⟩ := (hmem p').1 hp'
      refine ⟨hsome hp, fun q hlt hq => ?_⟩
      obtain ⟨hqpos, hqf⟩ := hpos hq
      exact hfirst q hqpos hlt hqf.symm
    · rintro ⟨hp, hfirst⟩
      obtain ⟨hppos, rfl⟩ := hpos hp
      refine ⟨p, (hmem p).2 ⟨hppos, fun q hq hlt heq => ?_⟩, rfl⟩
      exact hfirst q hlt ((hsome hq).trans (congrArg some heq))
  · rw [List.map_map, opcodes, ← hf, ← hmap]
    rfl

end Chain

end Blockwork
