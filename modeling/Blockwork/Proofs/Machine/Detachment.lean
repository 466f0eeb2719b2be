import Blockwork.Proofs.Machine.Identity
import Mathlib.Data.List.Induction
import Mathlib.Logic.Relation

/-!
# What a snapshot is detached from

A snapshot has the names of the heap, and for a variable that holds a list it has a new list with
the same items. The new lists are out of reach: nothing that is done to the heap afterwards, through
any variable or any list that can be got at, changes their items (`LiveHeap.snapshot_detached`). The
reason is general. An operation makes nothing accessible but what was so before and new lists
(`Operation.accessible`), so a list that cannot be got at stays as it is (`After.items_eq`).

The items themselves are not copied. A list inside a copied list is the one that the heap has, and a
change to it shows in the snapshot (`LiveHeap.snapshot_shares_inner_lists`). What is read out of a
snapshot therefore stays the same as long as the inner lists do, and in any case where no list of a
variable has lists among its items.
-/

namespace Blockwork

/-! ### Stores that only grow -/

namespace Store

/-- The second store has the lists of the first, and maybe more. -/
structure Extends (s s' : Store) : Prop where
  size_le : s.lists.size ≤ s'.lists.size
  items_eq : ∀ id : ListId, id.index < s.lists.size → s'.items id = s.items id

theorem Extends.refl (s : Store) : s.Extends s := ⟨Nat.le_refl _, fun _ _ => rfl⟩

theorem Extends.trans {s s' s'' : Store} (h : s.Extends s') (h' : s'.Extends s'') :
    s.Extends s'' where
  size_le := Nat.le_trans h.size_le h'.size_le
  items_eq id hid := (h'.items_eq id (Nat.lt_of_lt_of_le hid h.size_le)).trans (h.items_eq id hid)

theorem items_create (s : Store) (xs : Array Value) (id : ListId) :
    (s.create xs).2.items id = if id.index = s.lists.size then xs else s.items id := by
  unfold items create
  rw [Array.getD_eq_getD_getElem?, Array.getD_eq_getD_getElem?, Array.getElem?_push]
  split <;> rfl

/-- An empty list more is not seen: where it is put there was no list, which reads as an empty
one. -/
theorem alike_create_empty (s : Store) : (s.create #[]).2.Alike s := by
  intro id
  rw [items_create]
  split
  · next hid => exact (items_of_size_le (Nat.le_of_eq hid.symm)).symm
  · rfl

theorem items_create_self (s : Store) (xs : Array Value) :
    (s.create xs).2.items (s.create xs).1 = xs := by
  rw [items_create]
  exact if_pos rfl

theorem index_create_lt (s : Store) (xs : Array Value) :
    (s.create xs).1.index < (s.create xs).2.lists.size := by
  unfold create
  rw [Array.size_push]
  exact Nat.lt_succ_self _

theorem extends_create (s : Store) (xs : Array Value) : s.Extends (s.create xs).2 where
  size_le := by
    unfold create
    rw [Array.size_push]
    exact Nat.le_succ _
  items_eq id hid := by rw [items_create, if_neg (Nat.ne_of_lt hid)]

theorem size_update (s : Store) (id : ListId) (f : Array Value → Array Value) :
    (s.update id f).lists.size = s.lists.size :=
  Array.size_modify

/-- Changing one list leaves the others. -/
theorem items_update_of_ne (s : Store) {id id' : ListId} (f : Array Value → Array Value)
    (h : id' ≠ id) : (s.update id f).items id' = s.items id' := by
  have hindex : id.index ≠ id'.index := fun heq => h (congrArg ListId.mk heq.symm)
  unfold items update
  rw [Array.getD_eq_getD_getElem?, Array.getD_eq_getD_getElem?, Array.getElem?_modify,
    if_neg hindex]

theorem items_update_self (s : Store) {id : ListId} (f : Array Value → Array Value)
    (h : id.index < s.lists.size) : (s.update id f).items id = f (s.items id) := by
  unfold items update
  rw [Array.getD_eq_getD_getElem?, Array.getD_eq_getD_getElem?, Array.getElem?_modify, if_pos rfl,
    Array.getElem?_eq_getElem h]
  rfl

end Store

/-! ### Operations on a heap -/

/-- A heap with the store of its lists. -/
structure LiveHeap where
  heap : Heap
  store : Store

namespace LiveHeap

/-- **What can be got at**: what is no list, what a variable holds, and the items of a list that can
be got at. -/
inductive Accessible (l : LiveHeap) : Value → Prop where
  | plain {v : Value} : (∀ id, v ≠ .list id) → Accessible l v
  | held {name : String} {v : Value} : (name, v) ∈ l.heap.bindings → Accessible l v
  | item {id : ListId} {v : Value} : Accessible l (.list id) → v ∈ l.store.items id →
      Accessible l v

/-- **One operation**: a variable is set to something that can be got at, another variable's list
for instance, or to a new list; or the items of a list that can be got at are changed in any way. -/
inductive Operation : LiveHeap → LiveHeap → Prop where
  | set {l : LiveHeap} {heap : Heap} {name : String} {v : Value} : l.Accessible v →
      l.heap.set? name v = some heap → Operation l ⟨heap, l.store⟩
  | setNew {l : LiveHeap} {heap : Heap} {name : String} {xs : Array Value} :
      (∀ x ∈ xs, l.Accessible x) → l.heap.set? name (.list (l.store.create xs).1) = some heap →
      Operation l ⟨heap, (l.store.create xs).2⟩
  | change {l : LiveHeap} {id : ListId} {f : Array Value → Array Value} :
      l.Accessible (.list id) → (∀ x ∈ f (l.store.items id), l.Accessible x) →
      Operation l ⟨l.heap, l.store.update id f⟩

/-- Any number of operations. -/
def After : LiveHeap → LiveHeap → Prop := Relation.ReflTransGen Operation

/-- A heap of declared variables with any past. -/
def Reached (vars : List Variable) (l : LiveHeap) : Prop := After ⟨.ofVariables vars, .empty⟩ l

variable {l l' : LiveHeap}

theorem mem_bindings_of_set? {h h' : Heap} {name : String} {v : Value}
    (hset : h.set? name v = some h') {b : String × Value} (hb : b ∈ h'.bindings) :
    b.2 = v ∨ b ∈ h.bindings := by
  unfold Heap.set? at hset
  split at hset
  · obtain rfl := Option.some.inj hset
    obtain ⟨b', hb', rfl⟩ := List.mem_map.1 hb
    split
    · exact .inl rfl
    · exact .inr hb'
  · exact absurd hset (by simp)

/-- A list is as it was, or it was accessible or is new; then it has accessible items. -/
theorem Operation.items (h : Operation l l') (id : ListId) :
    l'.store.items id = l.store.items id ∨
    (l.Accessible (.list id) ∨ l.store.lists.size ≤ id.index) ∧
      ∀ v ∈ l'.store.items id, l.Accessible v := by
  cases h with
  | set _ _ => exact .inl rfl
  | @setNew heap name xs hxs _ =>
    dsimp only
    rw [Store.items_create]
    by_cases hid : id.index = l.store.lists.size
    · rw [if_pos hid]
      exact .inr ⟨.inr (Nat.le_of_eq hid.symm), hxs⟩
    · exact .inl (if_neg hid)
  | @change changed f hchanged hf =>
    by_cases heq : id = changed
    · obtain rfl := heq
      dsimp only
      by_cases hid : id.index < l.store.lists.size
      · rw [Store.items_update_self _ _ hid]
        exact .inr ⟨.inl hchanged, hf⟩
      · -- there is no such list before or after
        rw [Store.items_of_size_le (Nat.not_lt.1 hid), Store.items_of_size_le]
        · exact .inl rfl
        · rw [Store.size_update]
          exact Nat.not_lt.1 hid
    · exact .inl (Store.items_update_of_ne _ _ heq)

theorem Operation.size_le (h : Operation l l') : l.store.lists.size ≤ l'.store.lists.size := by
  cases h with
  | set _ _ => exact Nat.le_refl _
  | setNew _ _ => exact (Store.extends_create _ _).size_le
  | change _ _ => exact Nat.le_of_eq (Store.size_update _ _ _).symm

/-- A list that an operation makes. -/
def New (l l' : LiveHeap) (v : Value) : Prop :=
  ∃ id, v = .list id ∧ l.store.lists.size ≤ id.index ∧ id.index < l'.store.lists.size

theorem Operation.held (h : Operation l l') {name : String} {v : Value}
    (hv : (name, v) ∈ l'.heap.bindings) : l.Accessible v ∨ New l l' v := by
  cases h with
  | set hw hset =>
    rcases mem_bindings_of_set? hset hv with rfl | hold
    · exact .inl hw
    · exact .inl (.held hold)
  | @setNew heap name xs _ hset =>
    rcases mem_bindings_of_set? hset hv with rfl | hold
    · exact .inr ⟨_, rfl, Nat.le_refl _, Store.index_create_lt _ _⟩
    · exact .inl (.held hold)
  | change _ _ => exact .inl (.held hv)

/-- **An operation makes nothing accessible** but what was so before and new lists. -/
theorem Operation.accessible (h : Operation l l') {v : Value} (hv : l'.Accessible v) :
    l.Accessible v ∨ New l l' v := by
  induction hv with
  | plain hv => exact .inl (.plain hv)
  | held hv => exact h.held hv
  | @item id v _ hmem ih =>
    rcases h.items id with hsame | ⟨-, hitems⟩
    · rw [hsame] at hmem
      rcases ih with hid | ⟨id', hid', hle, -⟩
      · exact .inl (.item hid hmem)
      · -- a list that was not there has no items
        obtain rfl := Value.list.inj hid'
        rw [Store.items_of_size_le hle] at hmem
        exact absurd hmem (Array.not_mem_empty v)
    · exact .inl (hitems v hmem)

theorem After.size_le (h : After l l') : l.store.lists.size ≤ l'.store.lists.size := by
  induction h with
  | refl => exact Nat.le_refl _
  | tail _ hop ih => exact Nat.le_trans ih hop.size_le

/-- **A list that cannot be got at** stays as it is, and out of reach. -/
theorem After.items_eq (h : After l l') {id : ListId} (hid : id.index < l.store.lists.size)
    (hout : ¬ l.Accessible (.list id)) :
    ¬ l'.Accessible (.list id) ∧ l'.store.items id = l.store.items id := by
  induction h with
  | refl => exact ⟨hout, rfl⟩
  | @tail m n hbefore hop ih =>
    obtain ⟨hm, hitems⟩ := ih
    -- it was there before the operation, so it is not one that the operation makes
    have hsize : id.index < m.store.lists.size := Nat.lt_of_lt_of_le hid (After.size_le hbefore)
    refine ⟨fun hn => ?_, ?_⟩
    · rcases hop.accessible hn with hold | ⟨id', hid', hle, -⟩
      · exact hm hold
      · obtain rfl := Value.list.inj hid'
        exact absurd hsize (Nat.not_lt.2 hle)
    · rcases hop.items id with hsame | ⟨hold | hle, -⟩
      · exact hsame.trans hitems
      · exact absurd hold hm
      · exact absurd hsize (Nat.not_lt.2 hle)

/-- The variables of a new heap hold nothing. -/
theorem eq_undefined_of_ofVariables {vars : List Variable} {b : String × Value}
    (hb : b ∈ (Heap.ofVariables vars).bindings) : b.2 = .undefined := by
  -- declaring a name adds it, or makes it undefined again
  have hfold : ∀ (names : List String) (h : Heap), (∀ b ∈ h.bindings, b.2 = .undefined) →
      ∀ b ∈ (names.foldl Heap.declare h).bindings, b.2 = .undefined := by
    intro names
    induction names with
    | nil => exact fun h hh => hh
    | cons name names ih =>
      intro h hh
      refine ih (h.declare name) fun b hb => ?_
      unfold Heap.declare at hb
      split at hb
      · obtain ⟨b', hb', rfl⟩ := List.mem_map.1 hb
        split
        · rfl
        · exact hh b' hb'
      · rcases List.mem_append.1 hb with hold | hnew
        · exact hh b hold
        · rw [List.mem_singleton.1 hnew]
  exact hfold _ .empty (fun _ h => absurd h List.not_mem_nil) b hb

/-- The lists that can be got at are in the store. -/
theorem Reached.index_lt {vars : List Variable} (h : Reached vars l) {id : ListId}
    (hid : l.Accessible (.list id)) : id.index < l.store.lists.size := by
  induction h generalizing id with
  | refl =>
    -- there are no lists in the beginning
    cases hid with
    | plain hplain => exact absurd rfl (hplain id)
    | held hheld => exact absurd (eq_undefined_of_ofVariables hheld) (by simp)
    | item _ hmem => exact absurd hmem (Array.not_mem_empty _)
  | tail _ hop ih =>
    rcases hop.accessible hid with hold | ⟨id', hid', -, hlt⟩
    · exact Nat.lt_of_lt_of_le (ih hold) hop.size_le
    · obtain rfl := Value.list.inj hid'
      exact hlt

/-! ### Snapshots -/

/-- How the binding of a variable is copied: a list becomes a list that the first store has not,
with the same items. -/
inductive Copied (s s' : Store) : String × Value → String × Value → Prop where
  | plain {name : String} {v : Value} : (∀ id, v ≠ .list id) → Copied s s' (name, v) (name, v)
  | list {name : String} {id copy : ListId} : s.lists.size ≤ copy.index →
      copy.index < s'.lists.size → s'.items copy = s.items id →
      Copied s s' (name, .list id) (name, .list copy)

theorem Copied.extends {s s' s'' : Store} {b b' : String × Value} (h : Copied s s' b b')
    (hext : s'.Extends s'') : Copied s s'' b b' := by
  cases h with
  | plain hplain => exact .plain hplain
  | list hle hlt hitems =>
    exact .list hle (Nat.lt_of_lt_of_le hlt hext.size_le) ((hext.items_eq _ hlt).trans hitems)

theorem snapshot_concat_list (bindings : List (String × Value)) (name : String) (id : ListId)
    (s : Store) :
    let t := ((Heap.mk bindings).snapshot s).2
    (Heap.mk (bindings ++ [(name, .list id)])).snapshot s
      = (((Heap.mk bindings).snapshot s).1 ++ [(name, .list (t.create (t.items id)).1)],
          (t.create (t.items id)).2) := by
  unfold Heap.snapshot
  rw [List.foldl_append]
  rfl

theorem snapshot_concat_plain (bindings : List (String × Value)) (name : String) {v : Value}
    (hv : ∀ id, v ≠ .list id) (s : Store) :
    (Heap.mk (bindings ++ [(name, v)])).snapshot s
      = (((Heap.mk bindings).snapshot s).1 ++ [(name, v)], ((Heap.mk bindings).snapshot s).2) := by
  unfold Heap.snapshot
  rw [List.foldl_append]
  cases v with
  | list id => exact absurd rfl (hv id)
  | _ => rfl

/-- **What a snapshot is made of.** -/
theorem copied_snapshot {h : Heap} {s : Store}
    (hids : ∀ name id, (name, Value.list id) ∈ h.bindings → id.index < s.lists.size) :
    s.Extends (h.snapshot s).2 ∧
      List.Forall₂ (Copied s (h.snapshot s).2) h.bindings (h.snapshot s).1 := by
  obtain ⟨bindings⟩ := h
  induction bindings using List.reverseRecOn with
  | nil => exact ⟨.refl s, .nil⟩
  | append_singleton bindings b ih =>
    obtain ⟨hext, hcopied⟩ := ih fun name id hmem => hids name id (List.mem_append_left _ hmem)
    obtain ⟨name, v⟩ := b
    by_cases hv : ∀ id, v ≠ .list id
    · rw [snapshot_concat_plain bindings name hv]
      exact ⟨hext, List.rel_append hcopied (.cons (.plain hv) .nil)⟩
    · obtain ⟨id, rfl⟩ := not_forall_not.1 hv
      rw [snapshot_concat_list]
      generalize ((Heap.mk bindings).snapshot s).2 = t at hext hcopied
      have hcreate := Store.extends_create t (t.items id)
      -- the copies so far stay what they are, and the new one has the items of the list
      refine ⟨hext.trans hcreate, List.rel_append
        (hcopied.imp fun _ _ hb => hb.extends hcreate)
        (.cons (.list hext.size_le (Store.index_create_lt _ _) ?_) .nil)⟩
      rw [Store.items_create_self]
      exact hext.items_eq id (hids name id (List.mem_append_right _ List.mem_cons_self))

/-- The list on the right is an item of the list on the left, or of one of its items, and so on. -/
def Inside (s : Store) : ListId → ListId → Prop :=
  Relation.TransGen fun id inner => Value.list inner ∈ s.items id

/-- The binding of a copy, and where it comes from. -/
theorem exists_copied {s s' : Store} {bindings taken : List (String × Value)}
    (h : List.Forall₂ (Copied s s') bindings taken) {name : String} {copy : ListId}
    (hmem : (name, .list copy) ∈ taken) :
    ∃ id, (name, .list id) ∈ bindings ∧ s.lists.size ≤ copy.index ∧
      copy.index < s'.lists.size ∧ s'.items copy = s.items id := by
  induction h with
  | nil => exact absurd hmem List.not_mem_nil
  | cons hcopied _ ih =>
    rcases List.mem_cons.1 hmem with rfl | hmem
    · cases hcopied with
      | plain hplain => exact absurd rfl (hplain copy)
      | list hle hlt hitems => exact ⟨_, List.mem_cons_self, hle, hlt, hitems⟩
    · obtain ⟨id, hid, hspec⟩ := ih hmem
      exact ⟨id, List.mem_cons_of_mem _ hid, hspec⟩

/-- What is read out of copies, if the lists inside them stay. -/
theorem read_of_inside {s s' : Store} {taken : List (String × Value)}
    (hsize : s.lists.size ≤ s'.lists.size)
    (htaken : ∀ name id, (name, Value.list id) ∈ taken → s'.items id = s.items id)
    (hinside : ∀ name id, (name, Value.list id) ∈ taken → ∀ inner, Inside s id inner →
      s'.items inner = s.items inner) :
    taken.map (fun b => (b.1, s'.read b.2)) = taken.map fun b => (b.1, s.read b.2) := by
  -- reading looks at the copies and at all lists inside them, and at no others
  let W : ListId → Prop := fun id => ∃ name top, (name, Value.list top) ∈ taken ∧
    Relation.ReflTransGen (fun id inner => Value.list inner ∈ s.items id) top id
  have hitems : ∀ id, W id → s'.items (id.shift 0) = Sequence.shift 0 (s.items id) := by
    rintro id ⟨name, top, htop, hreach⟩
    rw [ListId.shift_zero, Sequence.shift_zero]
    rcases Relation.reflTransGen_iff_eq_or_transGen.1 hreach with rfl | hinner
    · exact htaken name _ htop
    · exact hinside name top htop id hinner
  have hclosed : ∀ id, W id → ∀ v ∈ s.items id, v.RefersTo W := by
    rintro id ⟨name, top, htop, hreach⟩ v hv inner rfl
    exact ⟨name, top, htop, hreach.tail hv⟩
  refine List.map_congr_left fun b hb => ?_
  have hread := Store.read_agree hitems hclosed hsize (v := b.2) fun id hid =>
    ⟨b.1, id, hid ▸ hb, .refl⟩
  rw [Value.shift_zero] at hread
  exact congrArg (Prod.mk b.1) hread

/-- A snapshot of a heap with any past, and the store that it leaves. -/
theorem Reached.copied {vars : List Variable} (hl : Reached vars l) :
    l.store.Extends (l.heap.snapshot l.store).2 ∧
      List.Forall₂ (Copied l.store (l.heap.snapshot l.store).2) l.heap.bindings
        (l.heap.snapshot l.store).1 :=
  copied_snapshot fun _ _ hmem => hl.index_lt (.held hmem)

/-- Taking a snapshot makes nothing accessible. -/
theorem Reached.accessible_of_snapshot {vars : List Variable} (hl : Reached vars l) {v : Value}
    (hv : Accessible ⟨l.heap, (l.heap.snapshot l.store).2⟩ v) : l.Accessible v := by
  induction hv with
  | plain hplain => exact .plain hplain
  | held hheld => exact .held hheld
  | item _ hmem ih =>
    rw [hl.copied.1.items_eq _ (hl.index_lt ih)] at hmem
    exact .item ih hmem

/-- The lists that a snapshot makes are out of reach for whatever comes after. -/
theorem Reached.items_copy {vars : List Variable} (hl : Reached vars l) {n : LiveHeap}
    (hn : After ⟨l.heap, (l.heap.snapshot l.store).2⟩ n) {name : String} {copy : ListId}
    (hmem : (name, .list copy) ∈ (l.heap.snapshot l.store).1) :
    n.store.items copy = (l.heap.snapshot l.store).2.items copy ∧
      ¬ n.Accessible (.list copy) := by
  obtain ⟨id, -, hle, hlt, -⟩ := exists_copied hl.copied.2 hmem
  have hout : ¬ Accessible ⟨l.heap, (l.heap.snapshot l.store).2⟩ (.list copy) := fun h =>
    absurd (hl.index_lt (hl.accessible_of_snapshot h)) (Nat.not_lt.2 hle)
  obtain ⟨hnot, hitems⟩ := hn.items_eq hlt hout
  exact ⟨hitems, hnot⟩

/-- **What later operations leave of a snapshot.** It has the bindings of the heap, with a new list
for every list that a variable holds. Whatever is done to the heap afterwards, these lists keep
their items and cannot be got at. What is read out of the snapshot stays the same if the lists
inside them do, and so it does where no variable holds a list of lists. -/
theorem snapshot_detached {vars : List Variable} {l n : LiveHeap} (hl : Reached vars l)
    (hn : After ⟨l.heap, (l.heap.snapshot l.store).2⟩ n) :
    let taken := (l.heap.snapshot l.store).1
    let s := (l.heap.snapshot l.store).2
    List.Forall₂ (Copied l.store s) l.heap.bindings taken ∧
    (∀ name id, (name, Value.list id) ∈ taken →
      n.store.items id = s.items id ∧ ¬ n.Accessible (.list id)) ∧
    ((∀ name id, (name, Value.list id) ∈ taken → ∀ inner, Inside s id inner →
        n.store.items inner = s.items inner) →
      taken.map (fun b => (b.1, n.store.read b.2)) = taken.map fun b => (b.1, s.read b.2)) ∧
    ((∀ name id, (name, Value.list id) ∈ l.heap.bindings → ∀ inner,
        Value.list inner ∉ l.store.items id) →
      taken.map (fun b => (b.1, n.store.read b.2)) = taken.map fun b => (b.1, s.read b.2)) := by
  intro taken s
  have hread := @read_of_inside s n.store taken hn.size_le fun name id hmem =>
    (hl.items_copy hn hmem).1
  refine ⟨hl.copied.2, fun name id hmem => hl.items_copy hn hmem, hread, fun hflat => ?_⟩
  refine hread fun name copy hmem inner hinner => ?_
  -- nothing is inside a list without lists
  obtain ⟨id, hid, -, -, hitems⟩ := exists_copied hl.copied.2 hmem
  obtain ⟨first, hfirst, -⟩ := Relation.TransGen.head'_iff.1 hinner
  rw [hitems] at hfirst
  exact absurd hfirst (hflat name id hid first)

/-! ### A list that two variables share -/

/-- Two variables. -/
def twoVariables : List Variable := [⟨"x", "", "", false, false⟩, ⟨"y", "", "", false, false⟩]

/-- A list of one variable that has the list of the other among its items. -/
def sharing : LiveHeap :=
  ⟨⟨[("x", .list ⟨1⟩), ("y", .list ⟨0⟩)]⟩, ⟨#[#[], #[.list ⟨0⟩]]⟩⟩

/-- The same after a snapshot, with something added to the list of the second variable. -/
def sharingLater : LiveHeap :=
  ⟨sharing.heap, (sharing.heap.snapshot sharing.store).2.update ⟨0⟩ (·.push (.truth true))⟩

theorem reached_sharing : Reached twoVariables sharing := by
  let empty : LiveHeap := ⟨.ofVariables twoVariables, .empty⟩
  let first : LiveHeap := ⟨⟨[("x", .undefined), ("y", .list ⟨0⟩)]⟩, ⟨#[#[]]⟩⟩
  have hfirst : Operation empty first :=
    @Operation.setNew empty first.heap "y" #[] (fun x hx => absurd hx (Array.not_mem_empty x)) rfl
  have hsecond : Operation first sharing := by
    refine @Operation.setNew first sharing.heap "x" #[.list ⟨0⟩] (fun x hx => ?_) rfl
    rw [Array.mem_singleton.1 hx]
    exact @Accessible.held first "y" _ (List.mem_cons_of_mem _ List.mem_cons_self)
  exact .tail (.tail .refl hfirst) hsecond

theorem after_sharing : After ⟨sharing.heap, (sharing.heap.snapshot sharing.store).2⟩
    sharingLater := by
  refine .tail .refl (.change (@Accessible.held _ "y" _ ?_) fun x hx => .plain ?_)
  · exact List.mem_cons_of_mem _ List.mem_cons_self
  · -- the list was empty
    have hitems : ((sharing.heap.snapshot sharing.store).2.items ⟨0⟩).push (.truth true)
        = #[.truth true] := rfl
    rw [hitems] at hx
    rw [Array.mem_singleton.1 hx]
    exact fun id h => Value.noConfusion h

/-- **The lists inside a list are shared with the snapshot**: what is added to one later shows. -/
theorem snapshot_shares_inner_lists :
    let taken := (sharing.heap.snapshot sharing.store).1
    let s := (sharing.heap.snapshot sharing.store).2
    Reached twoVariables sharing ∧ After ⟨sharing.heap, s⟩ sharingLater ∧
    taken.map (fun b => (b.1, s.read b.2)) = [("x", .list [.list []]), ("y", .list [])] ∧
    taken.map (fun b => (b.1, sharingLater.store.read b.2))
      = [("x", .list [.list [.truth true]]), ("y", .list [])] :=
  ⟨reached_sharing, after_sharing, rfl, rfl⟩

/-- The list that the snapshot made for the first variable is out of reach, and still has its one
item. -/
theorem snapshot_detached_sharing :
    sharingLater.store.items ⟨2⟩ = #[.list ⟨0⟩] ∧ ¬ sharingLater.Accessible (.list ⟨2⟩) :=
  (snapshot_detached reached_sharing after_sharing).2.1 "x" ⟨2⟩ List.mem_cons_self

end LiveHeap

end Blockwork
