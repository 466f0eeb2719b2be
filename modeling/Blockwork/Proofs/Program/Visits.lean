import Blockwork.Proofs.Program.Position

/-!
# Visits in document order

A walk visits the blocks of a program in document order, each once, and a visitor may refuse blocks.
`Chain.visits_in_document_order` says what this comes to, for a visitor that decides by the block
and by where it stands.

* Where nothing is refused, the walk visits the block at every position, and it does so in the order
  `Chain.Precedes`: a block before the blocks in its slots, these from member to member, and all of
  them before the block that is chained next.
* Otherwise it visits, in the same order, the blocks none of whose enclosing blocks was refused.
  The block that is chained to a refused block is not enclosed by it, and is visited.

Enclosing is being a proper beginning (`Chain.Encloses`). A walk goes on in pieces, the slots of a
block and the rest of its chain, and then member by member. No block of one piece encloses a block
of another, since their positions differ at the same place (`Chain.not_encloses_of_ne`). So what is
left of the full walk (`Chain.remaining`) is settled piece by piece, and that a walk is just this
(`Chain.tourFrom_eq_remaining`) is an induction on programs.
-/

namespace Blockwork

namespace Chain

/-! ### Document order -/

/-- **Document order.** -/
inductive Precedes : Position → Position → Prop where
  /-- A block precedes the blocks in its slots. -/
  | inside (p : Position) (j : Nat) (inner : Position) : Precedes p (p ++ j :: inner)
  /-- What is in a member precedes what is in a later one, and a block, with what is in its slots,
  precedes what is later in its chain. -/
  | later (outer : Position) {j k : Nat} (h : j < k) (p q : Position) :
    Precedes (outer ++ j :: p) (outer ++ k :: q)

theorem Precedes.cons {p q : Position} (i : Nat) (h : Precedes p q) :
    Precedes (i :: p) (i :: q) := by
  cases h with
  | inside p j inner => exact .inside (i :: p) j inner
  | later outer hlt p q => exact .later (i :: outer) hlt p q

theorem Precedes.lt {p q : Position} (h : Precedes p q) : p < q := by
  cases h with
  | inside p j inner =>
    have h : p ++ [] < p ++ j :: inner := List.append_left_lt (List.nil_lt_cons j inner)
    rwa [List.append_nil] at h
  | later outer hlt p q => exact List.append_left_lt (List.cons_lt_cons_iff.2 (.inl hlt))

theorem precedes_of_lt {p q : Position} (h : p < q) : Precedes p q := by
  induction p generalizing q with
  | nil =>
    cases q with
    | nil => exact absurd h (List.lt_irrefl [])
    | cons j q => exact .inside [] j q
  | cons i p ih =>
    cases q with
    | nil => exact absurd h (List.not_lt_nil _)
    | cons j q =>
      rcases List.cons_lt_cons_iff.1 h with hlt | ⟨rfl, hlt⟩
      · exact .later [] hlt p q
      · exact (ih hlt).cons i

/-- Document order is the lexicographic order of positions. -/
theorem precedes_iff_lt {p q : Position} : Precedes p q ↔ p < q :=
  ⟨Precedes.lt, precedes_of_lt⟩

/-! ### Blocks around a block -/

/-- What is at `p` is in a slot of what is at `q`, at any depth. -/
def Encloses (q p : Position) : Prop := ∃ j inner, p = q ++ j :: inner

theorem encloses_iff {q p : Position} : Encloses q p ↔ q <+: p ∧ q ≠ p := by
  constructor
  · rintro ⟨j, inner, rfl⟩
    exact ⟨List.prefix_append q _, by simp⟩
  · rintro ⟨⟨inner, rfl⟩, hne⟩
    cases inner with
    | nil => exact absurd (List.append_nil q).symm hne
    | cons j inner => exact ⟨j, inner, rfl⟩

instance : DecidableRel Encloses := fun _ _ => decidable_of_iff _ encloses_iff.symm

/-- What encloses a block is at a beginning of where its chain is. -/
theorem encloses_concat_iff {outer q : Position} {i : Nat} :
    Encloses q (outer ++ [i]) ↔ q <+: outer := by
  constructor
  · rintro ⟨j, inner, h⟩
    -- the last number of the position is not among those of what encloses it
    rcases List.eq_nil_or_concat (j :: inner) with hnil | ⟨init, k, hinit⟩
    · exact absurd hnil (List.cons_ne_nil _ _)
    · rw [hinit, List.concat_eq_append, ← List.append_assoc] at h
      exact ⟨init, (List.append_inj_left' h rfl).symm⟩
  · rintro ⟨inner, rfl⟩
    cases inner with
    | nil => exact ⟨i, [], by rw [List.append_nil]⟩
    | cons j inner => exact ⟨j, inner ++ [i], List.append_assoc q (j :: inner) [i]⟩

/-- Positions that differ at the same place do not enclose each other. -/
theorem not_encloses_of_ne {outer : Position} {j k : Nat} (h : j ≠ k) (q p : Position) :
    ¬Encloses (outer ++ j :: q) (outer ++ k :: p) := by
  rintro ⟨l, inner, heq⟩
  rw [List.append_assoc, List.append_cancel_left_eq] at heq
  exact h (List.cons.inj heq).1.symm

/-- A block is not enclosed by what is in its chain, nor by what is in the slots there. -/
theorem not_encloses_first (outer : Position) (i j : Nat) (q : Position) :
    ¬Encloses (outer ++ j :: q) (outer ++ [i]) := by
  rintro ⟨l, inner, heq⟩
  rw [List.append_assoc, List.append_cancel_left_eq] at heq
  exact absurd (List.cons.inj heq).2 (by simp)

/-! ### The full walk -/

/-- The visitor that refuses nothing. -/
def enterAll (_ : Position) (_ : Block) : Bool := true

theorem enterAll_eq (p : Position) (b : Block) : enterAll p b = true := rfl

/-- The walk through every block. -/
def fullTour (c : Chain) : List (Position × Chain) := tour enterAll c

theorem map_fst_slotsTour {members : List Member}
    (h : ∀ m ∈ members, ∀ outer i, (tourFrom enterAll outer i m.chain).map (·.1)
      = (positionsFrom i m.chain).map (outer ++ ·)) (p : Position) (j : Nat) :
    (slotsTour enterAll p j members).map (·.1) = (slotPositions j members).map (p ++ ·) := by
  induction members generalizing j with
  | nil => rfl
  | cons m members ih =>
    rw [slotsTour_cons, List.map_append, h m List.mem_cons_self,
      ih (fun m' hm' => h m' (List.mem_cons_of_mem m hm')), slotPositions_cons, List.map_append,
      List.map_map]
    simp [positions, Function.comp_def]

/-- The full walk goes through the positions. -/
theorem map_fst_tourFrom (c : Chain) : ∀ outer i,
    (tourFrom enterAll outer i c).map (·.1) = (positionsFrom i c).map (outer ++ ·) := by
  refine Chain.induction (P := fun c => ∀ outer i,
    (tourFrom enterAll outer i c).map (·.1) = (positionsFrom i c).map (outer ++ ·)) ?_ ?_ c
  · exact fun _ _ => rfl
  · intro b rest hslots hrest outer i
    rw [tourFrom_cons, if_pos (enterAll_eq _ b), List.map_cons, List.map_append,
      map_fst_slotsTour hslots, hrest, positionsFrom_cons, List.map_cons, List.map_append,
      List.map_map]
    simp [Function.comp_def]

theorem map_fst_fullTour (c : Chain) : (fullTour c).map (·.1) = positions c :=
  (map_fst_tourFrom c [] 0).trans (List.map_id' _)

theorem map_snd_fullTour (c : Chain) : (fullTour c).map (·.2) = walk (fun _ => true) c := rfl

/-- **The full walk visits the block at every position.** -/
theorem mem_fullTour_iff {c found : Chain} {p : Position} :
    (p, found) ∈ fullTour c ↔ chainAt? c p = some found := by
  have hvisits : ∀ v ∈ fullTour c, chainAt? c v.1 = some v.2 := by
    have hmap := map_chainAt?_positions c
    rw [← map_fst_fullTour, ← map_snd_fullTour, List.map_map, List.map_map] at hmap
    exact fun v hv => List.map_inj_left.1 hmap v hv
  constructor
  · exact fun h => hvisits _ h
  · intro h
    have hp : p ∈ (fullTour c).map (·.1) := by
      rw [map_fst_fullTour, mem_positions_iff, h]
      rfl
    obtain ⟨v, hv, rfl⟩ := List.mem_map.1 hp
    obtain rfl : found = v.2 := Option.some.inj (h.symm.trans (hvisits v hv))
    exact hv

/-- **The full walk is in document order.** -/
theorem pairwise_fullTour (c : Chain) :
    (fullTour c).Pairwise fun v w => v.1 < w.1 :=
  List.pairwise_map.1 (map_fst_fullTour c ▸ pairwise_positions c)

theorem exists_of_mem_tourFrom {outer : Position} {i : Nat} {c : Chain} {v : Position × Chain}
    (h : v ∈ tourFrom enterAll outer i c) : ∃ k inner, v.1 = outer ++ k :: inner ∧ i ≤ k := by
  have hp := List.mem_map_of_mem (f := Prod.fst) h
  rw [map_fst_tourFrom] at hp
  obtain ⟨p, hp, hv⟩ := List.mem_map.1 hp
  obtain ⟨k, inner, rfl, hk⟩ := exists_cons_of_mem_positionsFrom hp
  exact ⟨k, inner, hv.symm, hk⟩

theorem exists_of_mem_slotsTour {p : Position} {j : Nat} {members : List Member}
    {v : Position × Chain} (h : v ∈ slotsTour enterAll p j members) :
    ∃ k inner, v.1 = p ++ k :: inner ∧ j ≤ k := by
  have hq := List.mem_map_of_mem (f := Prod.fst) h
  rw [map_fst_slotsTour fun m _ => map_fst_tourFrom m.chain] at hq
  obtain ⟨q, hq, hv⟩ := List.mem_map.1 hq
  obtain ⟨k, inner, rfl, hk⟩ := exists_cons_of_mem_slotPositions hq
  exact ⟨k, inner, hv.symm, hk⟩

/-! ### What is left of it -/

section Remaining

variable (enter : Position → Block → Bool)

/-- None of the visits whose blocks enclose a position was refused. -/
def Admitted (visits : List (Position × Chain)) (p : Position) : Prop :=
  ∀ v ∈ visits, Encloses v.1 p → ∀ b ∈ v.2.head?, enter v.1 b = true

instance (visits : List (Position × Chain)) : DecidablePred (Admitted enter visits) := fun p =>
  inferInstanceAs
    (Decidable (∀ v ∈ visits, Encloses v.1 p → ∀ b ∈ v.2.head?, enter v.1 b = true))

/-- The visits without those inside of a refused one. -/
def remaining (visits : List (Position × Chain)) : List (Position × Chain) :=
  visits.filter fun v => Admitted enter visits v.1

variable {enter}

theorem mem_remaining_iff {visits : List (Position × Chain)} {v : Position × Chain} :
    v ∈ remaining enter visits ↔ v ∈ visits ∧ Admitted enter visits v.1 := by
  rw [remaining, List.mem_filter, decide_eq_true_iff]

theorem admitted_append_iff {xs ys : List (Position × Chain)} {p : Position} :
    Admitted enter (xs ++ ys) p ↔ Admitted enter xs p ∧ Admitted enter ys p :=
  List.forall_mem_append

theorem admitted_of_not_encloses {visits : List (Position × Chain)} {p : Position}
    (h : ∀ v ∈ visits, ¬Encloses v.1 p) : Admitted enter visits p :=
  fun v hv henc => absurd henc (h v hv)

/-- **Pieces of which none encloses anything in the other** are settled apart. -/
theorem remaining_append {xs ys : List (Position × Chain)}
    (h : ∀ v ∈ xs, ∀ w ∈ ys, ¬Encloses v.1 w.1 ∧ ¬Encloses w.1 v.1) :
    remaining enter (xs ++ ys) = remaining enter xs ++ remaining enter ys := by
  rw [remaining, List.filter_append]
  congr 1 <;> refine List.filter_congr fun v hv => decide_eq_decide.2 ?_
  · rw [admitted_append_iff, and_iff_left]
    exact admitted_of_not_encloses fun w hw => (h v hv w hw).2
  · rw [admitted_append_iff, and_iff_right]
    exact admitted_of_not_encloses fun w hw => (h w hw v hv).1

/-- **A block and all that is in its slots**: they are left out together if it is refused, and the
block itself is always visited. -/
theorem remaining_block {p : Position} {b : Block} {rest : Chain} {below : List (Position × Chain)}
    (h : ∀ v ∈ below, Encloses p v.1 ∧ ¬Encloses v.1 p) (hp : ¬Encloses p p) :
    remaining enter ((p, b :: rest) :: below)
      = (p, b :: rest) :: if enter p b then remaining enter below else [] := by
  have hfirst : Admitted enter ((p, b :: rest) :: below) p :=
    admitted_of_not_encloses (List.forall_mem_cons.2 ⟨hp, fun v hv => (h v hv).2⟩)
  -- what is below is admitted if the block is entered and it is admitted there
  have hbelow : ∀ v ∈ below, Admitted enter ((p, b :: rest) :: below) v.1 ↔
      enter p b = true ∧ Admitted enter below v.1 := by
    intro v hv
    refine List.forall_mem_cons.trans (and_congr_left' ⟨fun hb => ?_, fun hb _ b' hb' => ?_⟩)
    · exact hb (h v hv).1 b rfl
    · exact Option.some.inj hb' ▸ hb
  rw [remaining, List.filter_cons_of_pos (by exact decide_eq_true hfirst)]
  congr 1
  split
  · next hb =>
    exact List.filter_congr fun v hv =>
      decide_eq_decide.2 ((hbelow v hv).trans (and_iff_right hb))
  · next hb =>
    exact List.filter_eq_nil_iff.2 fun v hv hadm =>
      hb ((hbelow v hv).1 (of_decide_eq_true hadm)).1

theorem slotsTour_eq_remaining {members : List Member}
    (h : ∀ m ∈ members, ∀ outer i, tourFrom enter outer i m.chain
      = remaining enter (tourFrom enterAll outer i m.chain)) (p : Position) (j : Nat) :
    slotsTour enter p j members = remaining enter (slotsTour enterAll p j members) := by
  induction members generalizing j with
  | nil => rfl
  | cons m members ih =>
    rw [slotsTour_cons, slotsTour_cons, remaining_append, ← h m List.mem_cons_self,
      ← ih fun m' hm' => h m' (List.mem_cons_of_mem m hm')]
    -- a later member has a greater number
    intro v hv w hw
    obtain ⟨i, q, hvp, -⟩ := exists_of_mem_tourFrom hv
    obtain ⟨k, inner, hwp, hk⟩ := exists_of_mem_slotsTour hw
    rw [hvp, hwp, List.append_assoc]
    exact ⟨not_encloses_of_ne (by omega) _ _, not_encloses_of_ne (by omega) _ _⟩

/-- **A walk leaves out just what is inside of a refused block.** -/
theorem tourFrom_eq_remaining (c : Chain) : ∀ outer i,
    tourFrom enter outer i c = remaining enter (tourFrom enterAll outer i c) := by
  refine Chain.induction (P := fun c => ∀ outer i,
    tourFrom enter outer i c = remaining enter (tourFrom enterAll outer i c)) ?_ ?_ c
  · exact fun _ _ => rfl
  · intro b rest hslots hrest outer i
    have hbelow : ∀ v ∈ slotsTour enterAll (outer ++ [i]) 0 b.members,
        ∃ k inner, v.1 = outer ++ i :: k :: inner := by
      intro v hv
      obtain ⟨k, inner, hvp, -⟩ := exists_of_mem_slotsTour hv
      exact ⟨k, inner, hvp.trans (List.append_assoc outer [i] (k :: inner))⟩
    rw [tourFrom_cons, tourFrom_cons, if_pos (enterAll_eq _ b), ← List.cons_append,
      ← List.cons_append, remaining_append, remaining_block, ← slotsTour_eq_remaining hslots,
      ← hrest, List.cons_append]
    · -- what is in the slots is enclosed by the block
      intro v hv
      obtain ⟨k, inner, hvp⟩ := hbelow v hv
      rw [hvp]
      exact ⟨⟨k, inner, (List.append_assoc outer [i] (k :: inner)).symm⟩,
        not_encloses_first outer i i _⟩
    · exact not_encloses_first outer i i []
    · -- the rest of the chain begins at a greater place
      intro v hv w hw
      obtain ⟨k, inner, hwp, hk⟩ := exists_of_mem_tourFrom hw
      have hvp : ∃ q, v.1 = outer ++ i :: q := by
        rcases List.mem_cons.1 hv with rfl | hv
        · exact ⟨[], rfl⟩
        · obtain ⟨l, q, hvp⟩ := hbelow v hv
          exact ⟨l :: q, hvp⟩
      obtain ⟨q, hvp⟩ := hvp
      rw [hvp, hwp]
      exact ⟨not_encloses_of_ne (by omega) _ _, not_encloses_of_ne (by omega) _ _⟩

theorem tour_eq_remaining (c : Chain) : tour enter c = remaining enter (fullTour c) :=
  tourFrom_eq_remaining c [] 0

end Remaining

/-- What encloses a position, and was refused, is a block of the program. -/
theorem admitted_fullTour_iff {enter : Position → Block → Bool} {c : Chain} {p : Position} :
    Admitted enter (fullTour c) p ↔
      ∀ q b, Encloses q p → blockAt? c q = some b → enter q b = true := by
  constructor
  · intro h q b henc hb
    obtain ⟨found, hfound, hhead⟩ := Option.bind_eq_some_iff.1 hb
    exact h (q, found) (mem_fullTour_iff.2 hfound) henc b hhead
  · intro h v hv henc b hhead
    refine h v.1 b henc ?_
    rw [blockAt?, mem_fullTour_iff.1 hv]
    exact hhead

theorem mem_tour_iff {enter : Position → Block → Bool} {c found : Chain} {p : Position} :
    (p, found) ∈ tour enter c ↔ chainAt? c p = some found ∧
      ∀ q b, Encloses q p → blockAt? c q = some b → enter q b = true := by
  rw [tour_eq_remaining, mem_remaining_iff, mem_fullTour_iff, admitted_fullTour_iff]

/-! ### Blocks chained to a block -/

/-- The rest of a chain is found at the next place. -/
theorem chainAt?_next {i : Nat} {b : Block} {rest : Chain} (hrest : rest ≠ []) :
    ∀ {outer : Position} {c : Chain}, chainAt? c (outer ++ [i]) = some (b :: rest) →
      chainAt? c (outer ++ [i + 1]) = some rest
  | [], c, h => by
    rw [List.nil_append, chainAt?] at h ⊢
    split at h
    · have hdrop : c.drop (i + 1) = rest := by
        rw [← List.drop_drop, Option.some.inj h]
        rfl
      have hlt : i + 1 < c.length := by
        rw [← hdrop] at hrest
        exact Nat.lt_of_not_le fun hle => hrest (List.drop_eq_nil_of_le hle)
      rw [if_pos hlt, hdrop]
    · cases h
  | [k], c, h => by
    -- a position that ends in the number of a member finds nothing
    simp [chainAt?, slotAt?] at h
  | k :: j :: inner, c, h => by
    simp only [List.cons_append, chainAt?, slotAt?, Option.bind_eq_some_iff] at h ⊢
    obtain ⟨b', hb', m, hm, h⟩ := h
    exact ⟨b', hb', m, hm, chainAt?_next hrest h⟩

/-! ### Repetitions -/

/-- Dropping later repetitions is what the library calls erasing duplicates. -/
theorem distinct_eq_eraseDups (xs : List String) : distinct xs = xs.eraseDups := by
  induction xs using List.reverseRecOn with
  | nil => rfl
  | append_singleton xs x ih =>
    rw [distinct_concat, List.eraseDups_append, ih]
    by_cases hx : x ∈ xs
    · rw [if_pos (by simpa using hx)]
      simp [List.removeAll, hx]
    · rw [if_neg (by simpa using hx), List.removeAll, List.filter_cons_of_pos (by simpa using hx)]
      rfl

/-! ### The visits of a walk -/

/-- **A walk visits in document order and leaves out just what refused blocks enclose.** -/
theorem visits_in_document_order (c : Chain) (enter : Position → Block → Bool) :
    -- the full walk visits the block at every position, once and in document order
    (∀ p found, (p, found) ∈ fullTour c ↔ chainAt? c p = some found) ∧
    ((fullTour c).map (·.1)).Nodup ∧
    ((fullTour c).map (·.1)).Pairwise Precedes ∧
    -- the walk of any visitor is the part of it that no refused block encloses
    (tour enter c).Sublist (fullTour c) ∧
    (∀ p found, (p, found) ∈ tour enter c ↔ chainAt? c p = some found ∧
      ∀ q b, Encloses q p → blockAt? c q = some b → enter q b = true) ∧
    -- what is chained to a visited block is visited, whether the block was refused or not
    (∀ outer i b rest, (outer ++ [i], b :: rest) ∈ tour enter c → rest ≠ [] →
      (outer ++ [i + 1], rest) ∈ tour enter c) ∧
    -- the opcodes are those of the full walk without later repetitions
    opcodes c = ((fullTour c).filterMap fun v => v.2.head?.map Block.opcode).eraseDups := by
  have horder := List.pairwise_map.2 (pairwise_fullTour c)
  refine ⟨fun p found => mem_fullTour_iff, horder.imp fun hlt => ?_, horder.imp precedes_iff_lt.2,
    ?_, fun p found => mem_tour_iff, ?_, ?_⟩
  · rintro rfl
    exact List.lt_irrefl _ hlt
  · rw [tour_eq_remaining]
    exact List.filter_sublist
  · intro outer i b rest hvisit hrest
    rw [mem_tour_iff] at hvisit ⊢
    refine ⟨chainAt?_next hrest hvisit.1, fun q b' henc => hvisit.2 q b' ?_⟩
    -- the two are enclosed by the same blocks
    exact encloses_concat_iff.2 (encloses_concat_iff.1 henc)
  · rw [opcodes, distinct_eq_eraseDups, blocks, visited, ← map_snd_fullTour, List.filterMap_map,
      List.map_filterMap]
    rfl

end Chain

end Blockwork
