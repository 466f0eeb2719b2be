import Blockwork.Machine.Execute
import Blockwork.Proofs.Value.Unfolding
import Mathlib.Data.List.InsertIdx
import Mathlib.Tactic.Common

/-!
# The identities of lists do not matter

A list is known by its place in the store, and a new list takes the next place. Two runs that do
the same with stores of different sizes therefore give their lists different identities, which
differ by a fixed **offset**. `shift` moves the identities in a value, a heap and a fault, and
`Store.Shifts` says that one store holds, behind the offset, the lists of the other.

Nothing that a program can see tells the two apart. Conversions, comparisons and the operations on
items commute with the shift, and reading out gives the same data (`Store.Shifts.read_shift`). The
last point rests on how a value is read: a list inside itself is cut off where it repeats, not at a
depth that hangs on the size of the store.
-/

namespace Blockwork

/-! ### Values -/

/-- The identity moved up by an offset. -/
def ListId.shift (k : Nat) (id : ListId) : ListId := ⟨k + id.index⟩

theorem ListId.shift_injective (k : Nat) : Function.Injective (ListId.shift k) := by
  intro a b h
  have hindex : k + a.index = k + b.index := congrArg ListId.index h
  cases a
  cases b
  simp only [ListId.mk.injEq]
  exact Nat.add_left_cancel hindex

@[simp] theorem ListId.shift_zero (id : ListId) : id.shift 0 = id := by
  cases id
  simp [ListId.shift]

namespace Value

/-- The value with the identity of its list moved. -/
def shift (k : Nat) : Value → Value
  | .list id => .list (id.shift k)
  | .undefined => .undefined
  | .number n => .number n
  | .text t => .text t
  | .truth b => .truth b
  | .noList => .noList

@[simp] theorem shift_zero (v : Value) : v.shift 0 = v := by
  cases v with
  | list id => rw [shift, ListId.shift_zero]
  | _ => rfl

@[simp] theorem isUndefined_shift (k : Nat) (v : Value) :
    (v.shift k).isUndefined = v.isUndefined := by
  cases v <;> rfl

@[simp] theorem isNumeric_shift (k : Nat) (v : Value) : (v.shift k).isNumeric = v.isNumeric := by
  cases v <;> rfl

end Value

/-- The mismatch with the value that was found moved. -/
def Mismatch.shift (k : Nat) (m : Mismatch) : Mismatch := ⟨m.wanted, m.got.shift k⟩

@[simp] theorem Mismatch.message_shift (k : Nat) (m : Mismatch) :
    (m.shift k).message = m.message := by
  obtain ⟨wanted, got⟩ := m
  cases got <;> rfl

namespace Value

theorem toNumber_shift (k : Nat) (v : Value) :
    (v.shift k).toNumber = v.toNumber.mapError (Mismatch.shift k) := by
  cases v with
  | text s =>
    -- a text is taken as it is, and so is the mismatch that it may give
    change (Value.text s).toNumber = (Value.text s).toNumber.mapError (Mismatch.shift k)
    rw [toNumber]
    split
    · rfl
    · cases Binary64.read? s <;> rfl
  | _ => rfl

@[simp] theorem numericValue_shift (k : Nat) (v : Value) :
    (v.shift k).numericValue = v.numericValue := by
  unfold numericValue
  rw [toNumber_shift]
  cases v.toNumber <;> rfl

theorem toList_shift (k : Nat) (v : Value) :
    (v.shift k).toList = (v.toList.map (ListId.shift k)).mapError (Mismatch.shift k) := by
  cases v <;> rfl

/-- Equality sees whether two lists are the same one, and moving both keeps that. -/
@[simp] theorem equal_shift (k : Nat) (v w : Value) :
    (v.shift k).equal (w.shift k) = v.equal w := by
  cases v with
  | list a =>
    cases w with
    | list b =>
      change (a.shift k == b.shift k) = (a == b)
      by_cases h : a = b
      · rw [h, beq_self_eq_true, beq_self_eq_true]
      · rw [beq_eq_false_iff_ne.2 h,
          beq_eq_false_iff_ne.2 fun heq => h (ListId.shift_injective k heq)]
    | _ => rfl
  | _ => cases w <;> rfl

end Value

/-! ### Faults -/

namespace Fault

/-- The fault with the value in its mismatch moved. -/
def shift (k : Nat) : Fault → Fault
  | .mismatch m => .mismatch (m.shift k)
  | .through place cause => .through place (cause.shift k)
  | .execution module function id cause => .execution module function id (cause.shift k)
  | .slotMissing kind name opcode => .slotMissing kind name opcode
  | .unknownVariable name => .unknownVariable name
  | .tooDeep limit id => .tooDeep limit id
  | .routing e => .routing e
  | .unknownOperator name => .unknownOperator name
  | .raised text => .raised text
  | .panicked text => .panicked text

@[simp] theorem shift_zero (f : Fault) : f.shift 0 = f := by
  induction f with
  | mismatch m =>
    obtain ⟨wanted, got⟩ := m
    simp [shift, Mismatch.shift]
  | through place cause ih => rw [shift, ih]
  | execution module function id cause ih => rw [shift, ih]
  | _ => rfl

/-- **The text of a fault** does not mention identities. -/
@[simp] theorem message_shift (k : Nat) (f : Fault) : (f.shift k).message = f.message := by
  induction f with
  | mismatch m => exact m.message_shift k
  | through place cause ih =>
    change place ++ ": " ++ (cause.shift k).message = place ++ ": " ++ cause.message
    rw [ih]
  | execution module function id cause ih =>
    change module ++ "." ++ function ++ " (block " ++ id ++ "): " ++ (cause.shift k).message
      = module ++ "." ++ function ++ " (block " ++ id ++ "): " ++ cause.message
    rw [ih]
  | _ => rfl

@[simp] theorem blame?_shift (k : Nat) (f : Fault) : (f.shift k).blame? = f.blame? := by
  induction f with
  | through place cause ih => rw [shift, blame?, blame?, ih]
  | _ => rfl

theorem wrap_shift (k : Nat) (module function id : String) (f : Fault) :
    (f.shift k).wrap module function id = (f.wrap module function id).shift k := by
  unfold wrap
  rw [blame?_shift]
  cases f.blame? <;> rfl

end Fault

/-! ### Operations on items -/

namespace Sequence

/-- The items of a list with their identities moved. -/
abbrev shift (k : Nat) (xs : Items) : Items := xs.map (Value.shift k)

theorem shift_zero (xs : Items) : shift 0 xs = xs := by
  unfold shift
  rw [funext Value.shift_zero, Array.map_id']

theorem itemAt_shift (k : Nat) (xs : Items) (i : Int) :
    itemAt (shift k xs) i = (itemAt xs i).shift k := by
  unfold itemAt
  split
  · simp only [Array.getD_eq_getD_getElem?, Array.getElem?_map]
    cases xs[i.toNat]? <;> rfl
  · rfl

theorem insertAt?_shift (k : Nat) (xs : Items) (i : Int) (v : Value) :
    insertAt? (shift k xs) i (v.shift k) = (insertAt? xs i v).map (shift k) := by
  unfold insertAt?
  rw [Array.size_map]
  split
  · next h =>
    have hi : i.toNat ≤ xs.size := by omega
    have hi' : i.toNat ≤ (shift k xs).size := by rw [Array.size_map]; exact hi
    rw [Option.map_some, Array.insertIdxIfInBounds, Array.insertIdxIfInBounds, dif_pos hi,
      dif_pos hi']
    congr 1
    apply Array.toList_inj.1
    rw [Array.toList_insertIdx, Array.toList_map, Array.toList_map, Array.toList_insertIdx,
      List.map_insertIdx]
  · rfl

theorem deleteAt?_shift (k : Nat) (xs : Items) (i : Int) :
    deleteAt? (shift k xs) i = (deleteAt? xs i).map (shift k) := by
  unfold deleteAt?
  rw [Array.size_map]
  split
  · next h =>
    have hi : i.toNat < xs.size := by omega
    have hi' : i.toNat < (shift k xs).size := by rw [Array.size_map]; exact hi
    rw [Option.map_some, Array.eraseIdxIfInBounds, Array.eraseIdxIfInBounds, dif_pos hi,
      dif_pos hi']
    congr 1
    apply Array.toList_inj.1
    rw [Array.toList_eraseIdx, Array.toList_map, Array.toList_map, Array.toList_eraseIdx,
      List.eraseIdx_map]
  · rfl

theorem replaceAt?_shift (k : Nat) (xs : Items) (i : Int) (v : Value) :
    replaceAt? (shift k xs) i (v.shift k) = (replaceAt? xs i v).map (shift k) := by
  unfold replaceAt?
  rw [Array.size_map]
  split
  · exact congrArg some Array.map_setIfInBounds.symm
  · rfl

theorem indexOf?_shift (k : Nat) (xs : Items) (v : Value) :
    indexOf? (shift k xs) (v.shift k) = indexOf? xs v := by
  unfold indexOf?
  rw [Array.findIdx?_map]
  congr 1
  funext w
  exact Value.equal_shift k w v

theorem indexOf_shift (k : Nat) (xs : Items) (v : Value) :
    indexOf (shift k xs) (v.shift k) = indexOf xs v := by
  unfold indexOf
  rw [indexOf?_shift]

end Sequence

/-! ### Stores -/

/-- **The first store holds the lists of the second behind an offset.** What it holds before the
offset is of no account. -/
structure Store.Shifts (k : Nat) (s t : Store) : Prop where
  size : s.lists.size = k + t.lists.size
  lists : ∀ i : Nat, s.lists[k + i]? = (t.lists[i]?).map (Sequence.shift k)

namespace Store.Shifts

variable {k : Nat} {s t : Store}

/-- A store seen from beyond its end holds no lists. -/
theorem of_size (s : Store) : Store.Shifts s.lists.size s .empty where
  size := rfl
  lists i := by
    rw [Array.getElem?_eq_none (Nat.le_add_right _ i)]
    rfl

/-- Without an offset the stores are the same. -/
theorem zero_iff : Store.Shifts 0 s t ↔ s = t := by
  have hsame : Sequence.shift 0 = id := funext Sequence.shift_zero
  constructor
  · intro h
    obtain ⟨lists⟩ := s
    obtain ⟨lists'⟩ := t
    congr 1
    refine Array.ext_getElem? fun i => ?_
    have hi := h.lists i
    rwa [hsame, Option.map_id, Nat.zero_add] at hi
  · rintro rfl
    refine ⟨(Nat.zero_add _).symm, fun i => ?_⟩
    rw [hsame, Option.map_id, Nat.zero_add]
    rfl

theorem items (h : Store.Shifts k s t) (id : ListId) :
    s.items (id.shift k) = Sequence.shift k (t.items id) := by
  unfold Store.items
  rw [Array.getD_eq_getD_getElem?, Array.getD_eq_getD_getElem?]
  change s.lists[k + id.index]?.getD #[] = _
  rw [h.lists]
  cases t.lists[id.index]? with
  | none => exact Array.map_empty.symm
  | some xs => rfl

/-- A new list is new on both sides, and its identities differ by the offset. -/
theorem create (h : Store.Shifts k s t) (xs : Array Value) :
    (s.create (Sequence.shift k xs)).1 = (t.create xs).1.shift k ∧
      Store.Shifts k (s.create (Sequence.shift k xs)).2 (t.create xs).2 := by
  refine ⟨?_, ?_, fun i => ?_⟩
  · unfold Store.create ListId.shift
    simp only
    rw [h.size]
  · unfold Store.create
    simp only [Array.size_push]
    rw [h.size, Nat.add_assoc]
  · unfold Store.create
    simp only [Array.getElem?_push]
    rw [h.size, h.lists]
    by_cases hi : i = t.lists.size
    · rw [if_pos (by rw [hi]), if_pos hi]
      rfl
    · rw [if_neg (by omega), if_neg hi]

theorem update (h : Store.Shifts k s t) (id : ListId) {f g : Array Value → Array Value}
    (hfg : ∀ xs, f (Sequence.shift k xs) = Sequence.shift k (g xs)) :
    Store.Shifts k (s.update (id.shift k) f) (t.update id g) where
  size := by
    unfold Store.update
    rw [Array.size_modify, Array.size_modify]
    exact h.size
  lists i := by
    unfold Store.update
    simp only [Array.getElem?_modify]
    rw [h.lists]
    by_cases hi : id.index = i
    · rw [if_pos (by rw [ListId.shift, hi]), if_pos hi, Option.map_map, Option.map_map]
      congr 1
      funext xs
      exact hfg xs
    · rw [if_neg (by unfold ListId.shift; simp only; omega), if_neg hi]

end Store.Shifts

/-! ### Reading out -/

/-- The value is no list, or one of these. -/
def Value.RefersTo (W : ListId → Prop) (v : Value) : Prop := ∀ id, v = .list id → W id

namespace Store

theorem contains_map_shift (k : Nat) (path : List ListId) (id : ListId) :
    (path.map (ListId.shift k)).contains (id.shift k) = path.contains id := by
  rw [Bool.eq_iff_iff, List.contains_iff_mem, List.contains_iff_mem,
    List.mem_map_of_injective (ListId.shift_injective k)]

section Agree

variable {k : Nat} {s t : Store} {W : ListId → Prop}
  (hitems : ∀ id, W id → s.items (id.shift k) = Sequence.shift k (t.items id))
  (hinside : ∀ id, W id → ∀ v ∈ t.items id, v.RefersTo W)

include hitems hinside

/-- Reading below a path gives the same data on both sides, if they agree on the lists that are
met. The path has no list twice, so the depth that is left is enough for the lists that are not on
it; how much more the other side has does not matter. -/
theorem readInside_agree (depth : Nat) :
    ∀ (more : Nat) (path : List ListId) (v : Value), v.RefersTo W → path.Nodup →
      (∀ id ∈ path, id.index < t.lists.size) → t.lists.size ≤ depth + path.length →
      depth ≤ more →
      s.readInside more (path.map (ListId.shift k)) (v.shift k) = t.readInside depth path v := by
  induction depth with
  | zero =>
    intro more path v hv hnodup hpath hlong _
    cases v with
    | list id =>
      -- no depth is left, so every list is on the path, and a list that does not exist is empty
      have hright : t.readInside 0 path (.list id) = .list [] := rfl
      rw [hright]
      cases more with
      | zero => rfl
      | succ more =>
        rw [Value.shift, Store.readInside, contains_map_shift]
        by_cases hid : id.index < t.lists.size
        · have hmem : id ∈ path := mem_of_path_full hnodup hpath (by omega) hid
          rw [if_pos (List.contains_iff_mem.2 hmem)]
        · rw [hitems id (hv id rfl), items_of_size_le (Nat.not_lt.1 hid)]
          split
          · rfl
          · simp
    | _ => cases more <;> rfl
  | succ depth ih =>
    intro more path v hv hnodup hpath hlong hmore
    obtain ⟨more, rfl⟩ : ∃ n, more = n + 1 := ⟨more - 1, by omega⟩
    cases v with
    | list id =>
      rw [Value.shift, Store.readInside, Store.readInside, contains_map_shift]
      by_cases hmem : id ∈ path
      · -- both sides cut off a list that repeats
        rw [if_pos (List.contains_iff_mem.2 hmem), if_pos (List.contains_iff_mem.2 hmem)]
      · have hnot : ¬ path.contains id = true := fun hc => hmem (List.contains_iff_mem.1 hc)
        rw [if_neg hnot, if_neg hnot, hitems id (hv id rfl)]
        by_cases hid : id.index < t.lists.size
        · -- the list goes on the path, and its items are read with one depth less
          rw [Array.toList_map, List.map_map]
          congr 1
          refine List.map_congr_left fun w hw => ?_
          have hrefers := hinside id (hv id rfl) w (Array.mem_toList_iff.1 hw)
          refine ih more (id :: path) w hrefers (List.nodup_cons.2 ⟨hmem, hnodup⟩) ?_ ?_ (by omega)
          · intro a ha
            rcases List.mem_cons.1 ha with rfl | ha
            · exact hid
            · exact hpath a ha
          · rw [List.length_cons]
            omega
        · rw [items_of_size_le (Nat.not_lt.1 hid)]
          simp
    | _ => rfl

/-- **Reading out depends on the lists that are met only.** -/
theorem read_agree (hsize : t.lists.size ≤ s.lists.size) {v : Value} (hv : v.RefersTo W) :
    s.read (v.shift k) = t.read v := by
  unfold Store.read
  refine readInside_agree hitems hinside t.lists.size s.lists.size [] v hv List.nodup_nil ?_
    (Nat.le_add_right _ _) hsize
  exact fun id hid => absurd hid List.not_mem_nil

end Agree

end Store

namespace Store.Shifts

variable {k : Nat} {s t : Store}

/-- **Reading out gives the same data on both sides.** -/
theorem read_shift (h : Store.Shifts k s t) (v : Value) : s.read (v.shift k) = t.read v := by
  refine read_agree (W := fun _ => True) (fun id _ => h.items id)
    (fun _ _ _ _ _ _ => trivial) ?_ fun _ _ => trivial
  rw [h.size]
  exact Nat.le_add_left _ _

theorem display_shift (h : Store.Shifts k s t) (v : Value) :
    (v.shift k).display s = v.display t := by
  unfold Value.display
  rw [h.read_shift]

theorem truthy_shift (h : Store.Shifts k s t) (v : Value) : (v.shift k).truthy s = v.truthy t := by
  cases v with
  | list id =>
    change (!(s.items (id.shift k)).isEmpty) = !(t.items id).isEmpty
    unfold Array.isEmpty
    rw [h.items, Array.size_map]
  | _ => rfl

theorem compare_shift (h : Store.Shifts k s t) (v w : Value) :
    (v.shift k).compare s (w.shift k) = v.compare t w := by
  unfold Value.compare
  rw [Value.isNumeric_shift, Value.isNumeric_shift, Value.numericValue_shift,
    Value.numericValue_shift, h.display_shift, h.display_shift]

end Store.Shifts

/-! ### Stores with the same items -/

/-- Every list has the same items in both stores. One of them may have more lists, if these are
empty. -/
def Store.Alike (s t : Store) : Prop := ∀ id, s.items id = t.items id

namespace Store.Alike

variable {s t : Store}

theorem symm (h : s.Alike t) : t.Alike s := fun id => (h id).symm

/-- **Reading out sees the items only.** -/
theorem read (h : s.Alike t) (v : Value) : s.read v = t.read v := by
  -- the larger store is read on the left of the general statement
  have hlarger : ∀ {s t : Store}, s.Alike t → t.lists.size ≤ s.lists.size → s.read v = t.read v := by
    intro s t hst hsize
    have hread := read_agree (k := 0) (W := fun _ => True) (s := s) (t := t)
      (fun id _ => by rw [ListId.shift_zero, Sequence.shift_zero]; exact hst id)
      (fun _ _ _ _ _ _ => trivial) hsize (v := v) fun _ _ => trivial
    rwa [Value.shift_zero] at hread
  rcases Nat.le_total t.lists.size s.lists.size with hsize | hsize
  · exact hlarger h hsize
  · exact (hlarger h.symm hsize).symm

theorem display (h : s.Alike t) (v : Value) : v.display s = v.display t := by
  unfold Value.display
  rw [h.read]

theorem truthy (h : s.Alike t) (v : Value) : v.truthy s = v.truthy t := by
  cases v with
  | list id =>
    change (!(s.items id).isEmpty) = !(t.items id).isEmpty
    rw [h id]
  | _ => rfl

theorem compare (h : s.Alike t) (v w : Value) : v.compare s w = v.compare t w := by
  unfold Value.compare
  rw [h.display v, h.display w]

end Store.Alike

/-! ### Heaps -/

namespace Heap

/-- The heap with the identities of its lists moved. -/
def shift (k : Nat) (h : Heap) : Heap := ⟨h.bindings.map fun b => (b.1, b.2.shift k)⟩

@[simp] theorem shift_zero (h : Heap) : h.shift 0 = h := by
  unfold shift
  simp

@[simp] theorem size_shift (k : Nat) (h : Heap) : (h.shift k).size = h.size :=
  List.length_map _

@[simp] theorem contains_shift (k : Nat) (h : Heap) (name : String) :
    (h.shift k).contains name = h.contains name := by
  unfold contains shift
  rw [List.any_map]
  rfl

theorem get?_shift (k : Nat) (h : Heap) (name : String) :
    (h.shift k).get? name = (h.get? name).map (Value.shift k) := by
  unfold get? shift
  rw [List.find?_map, Option.map_map, Option.map_map]
  rfl

theorem put_shift (k : Nat) (h : Heap) (name : String) (v : Value) :
    (h.shift k).put name (v.shift k) = (h.put name v).shift k := by
  unfold put shift
  rw [List.map_map, List.map_map]
  congr 1
  refine List.map_congr_left fun b _ => ?_
  by_cases hb : b.1 = name <;> simp [hb]

theorem set?_shift (k : Nat) (h : Heap) (name : String) (v : Value) :
    (h.shift k).set? name (v.shift k) = (h.set? name v).map (shift k) := by
  unfold set?
  rw [contains_shift]
  cases h.contains name with
  | true => exact congrArg some (put_shift k h name v)
  | false => rfl

theorem declare_shift (k : Nat) (h : Heap) (name : String) :
    (h.shift k).declare name = (h.declare name).shift k := by
  unfold declare
  rw [contains_shift]
  cases h.contains name with
  | true => exact put_shift k h name .undefined
  | false =>
    unfold shift
    simp [Value.shift]

/-- A new heap has no lists. -/
theorem ofVariables_shift (k : Nat) (vars : List Variable) :
    (ofVariables vars).shift k = ofVariables vars := by
  unfold ofVariables ofNames
  generalize vars.map (·.name) = names
  have hfold : ∀ h : Heap, (names.foldl declare h).shift k = names.foldl declare (h.shift k) := by
    induction names with
    | nil => exact fun h => rfl
    | cons name names ih =>
      intro h
      rw [List.foldl_cons, List.foldl_cons, ih, declare_shift]
  exact hfold empty

theorem read_shift {k : Nat} {s t : Store} (hs : s.Shifts k t) (h : Heap) :
    (h.shift k).read s = h.read t := by
  unfold read shift
  rw [List.map_map]
  refine List.map_congr_left fun b _ => ?_
  exact congrArg (Prod.mk b.1) (hs.read_shift b.2)

end Heap

end Blockwork
