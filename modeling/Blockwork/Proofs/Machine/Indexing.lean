import Blockwork.Proofs.Machine.ListWrites
import Blockwork.Proofs.Number.Truncation

/-!
# Positions that numbers name

Four blocks do something at a position of a list, and one reads a character of a text. The position
is a number, which a program may compute, so it can be anything: a fraction, far beyond the list,
infinite or not-a-number. `Machine.blocks_act_where_numbers_point` says that this makes no
difference. The number names a position (`Binary64.Names`), its exact value cut toward zero. If the
list or the text has that position the block acts there, and otherwise it reads nothing or changes
nothing (`Binary64.ActsAt`).

The machine computes with 64-bit integers, and a number that is beyond them becomes a limit, as if it
named that position. So the statement is about lists and texts that are shorter than the greatest
64-bit integer, as all are that a memory can hold. These have no position at a limit, and short of
the limits the integer is the position (`Binary64.names_iff`).

What happens at a position is said by cutting the list there (`Blocks.Data.actAt`), and
`Blocks.Data.perform_eq_actOn` divides the four blocks alike: they get at their list, evaluate their
slots, and then do this one thing, which cannot fail.
-/

namespace Blockwork

/-! ### Acting at a position -/

namespace Binary64

variable {γ : Type} {x : Binary64} {first count : Nat} {act : Nat → γ} {otherwise result : γ}

/-- **What is done at one of so many positions**, the first of which has the number `first`: it is
done at the position that a number names, and if it names none of them there is another result. -/
structure ActsAt (x : Binary64) (first count : Nat) (act : Nat → γ) (otherwise result : γ) :
    Prop where
  inside : ∀ n < count, x.Names (first + n : Nat) → result = act n
  outside : (∀ n < count, ¬x.Names (first + n : Nat)) → result = otherwise

/-- Short of the limits, it is done at the 64-bit integer. -/
theorem actsAt_toIndex (h : ((first + count : Nat) : Int) ≤ greatestIndex) :
    x.ActsAt first count act otherwise
      (if first ≤ x.toIndex ∧ x.toIndex < (first + count : Nat) then
        act (x.toIndex - first).toNat else otherwise) := by
  have hleast : leastIndex < 0 := by decide
  have hnames : ∀ n < count, x.Names (first + n : Nat) ↔ x.toIndex = (first + n : Nat) :=
    fun n hn => names_iff (by omega) (by omega)
  constructor
  · intro n hn hnamed
    rw [hnames n hn] at hnamed
    rw [if_pos (by omega), show (x.toIndex - first).toNat = n by omega]
  · intro hnone
    refine if_neg fun hinside => ?_
    -- the integer would be one of the positions
    have hn : (x.toIndex - first).toNat < count := by omega
    exact hnone _ hn ((hnames _ hn).2 (by omega))

end Binary64

/-! ### Items of lists -/

namespace Store

/-- A change of a list writes its new items. -/
theorem update_eq_write (s : Store) (id : ListId) (f : Array Value → Array Value) :
    s.update id f = s.write id (f (s.items id)) := by
  unfold update write items
  congr 1
  refine Array.ext (by simp) fun i hi hi' => ?_
  rw [Array.getElem_modify, Array.getElem_setIfInBounds]
  split
  · next h =>
    subst h
    rw [Array.size_modify] at hi
    rw [Array.getD_eq_getD_getElem?, Array.getElem?_eq_getElem hi]
    rfl
  · rfl

theorem write_items (s : Store) (id : ListId) : s.write id (s.items id) = s := by
  have hsame := s.update_eq_write id fun xs => xs
  rw [← hsame]
  unfold update
  congr 1
  exact Array.ext (by simp) fun i hi hi' => by simp [Array.getElem_modify]

end Store

/-- The state with other items in a list. -/
def State.withItems {α σ : Type} (s : State α σ) (id : ListId) (items : List Value) : State α σ :=
  { s with store := s.store.write id items.toArray }

/-! ### Blocks that act at a position of a list -/

namespace Blocks.Data

variable {α σ : Type}

/-- The blocks that act at a position of a list, by their opcodes. -/
def indexed : List (String × Data) :=
  [("data_itemoflist", .item), ("data_deleteoflist", .delete), ("data_insertatlist", .insert),
   ("data_replaceitemoflist", .replace)]

/-- The item that a block puts into its list, if it does. -/
def placed (d : Data) (scope : Scope α σ) : Run α σ Value :=
  match d with
  | .insert => scope.evaluate "ITEM"
  | .replace => scope.evaluate "ITEM"
  | _ => .done .undefined

/-- How many positions a block can act at. An item can also be put behind the last one. -/
def places (d : Data) (size : Nat) : Nat :=
  match d with
  | .insert => size + 1
  | _ => size

/-- **What a block does at a position**: the value that it reads, and the items that it leaves. -/
def actAt (d : Data) (items : List Value) (w : Value) (n : Nat) : Value × List Value :=
  match d with
  | .item => (items.getD n .undefined, items)
  | .delete => (.undefined, items.take n ++ items.drop (n + 1))
  | .insert => (.undefined, items.take n ++ w :: items.drop n)
  | .replace => (.undefined, items.take n ++ w :: items.drop (n + 1))
  | _ => (.undefined, items)

/-- The same at an integer that may be no position. -/
def actedAt (d : Data) (items : List Value) (w : Value) (i : Int) : Value × List Value :=
  if 0 ≤ i ∧ i < d.places items.length then d.actAt items w i.toNat else (.undefined, items)

section Sequence

variable (xs : Sequence.Items) (w : Value) (i : Int)

theorem actedAt_item :
    Data.item.actedAt xs.toList w i = (Sequence.itemAt xs i, xs.toList) := by
  unfold Sequence.itemAt
  by_cases hinside : 0 ≤ i ∧ i < xs.size
  · have hacts : Data.item.actedAt xs.toList w i = (xs.toList.getD i.toNat .undefined, xs.toList) :=
      if_pos hinside
    rw [hacts, if_pos hinside.1, Array.getD_eq_getD_getElem?, ← Array.getElem?_toList,
      List.getD_eq_getElem?_getD]
  · have hacts : Data.item.actedAt xs.toList w i = (.undefined, xs.toList) := if_neg hinside
    rw [hacts]
    split
    · -- behind the last item
      rw [Array.getD_eq_getD_getElem?, Array.getElem?_eq_none (by omega), Option.getD_none]
    · rfl

theorem actedAt_delete :
    Data.delete.actedAt xs.toList w i
      = (.undefined, ((Sequence.deleteAt? xs i).getD xs).toList) := by
  unfold Sequence.deleteAt?
  split
  · next hinside =>
    have hacts : Data.delete.actedAt xs.toList w i
        = (.undefined, xs.toList.take i.toNat ++ xs.toList.drop (i.toNat + 1)) := if_pos hinside
    have hi : i.toNat < xs.size := by omega
    rw [hacts, Option.getD_some, Array.eraseIdxIfInBounds, dif_pos hi, Array.toList_eraseIdx,
      List.eraseIdx_eq_take_drop_succ]
  · next houtside => exact if_neg houtside

theorem actedAt_insert :
    Data.insert.actedAt xs.toList w i
      = (.undefined, ((Sequence.insertAt? xs i w).getD xs).toList) := by
  have hplaces : (0 ≤ i ∧ i ≤ xs.size) ↔ 0 ≤ i ∧ i < Data.insert.places xs.toList.length :=
    and_congr_right' Int.lt_add_one_iff.symm
  unfold Sequence.insertAt?
  split
  · next hinside =>
    have hacts : Data.insert.actedAt xs.toList w i
        = (.undefined, xs.toList.take i.toNat ++ w :: xs.toList.drop i.toNat) :=
      if_pos (hplaces.1 hinside)
    have hi : i.toNat ≤ xs.size := by omega
    rw [hacts, Option.getD_some, Array.insertIdxIfInBounds, dif_pos hi, Array.toList_insertIdx]
    -- the library says where an item is inserted by the two parts of the list
    obtain ⟨before, rest, hsplit, hlength, hinsert⟩ :=
      List.exists_of_modifyTailIdx (List.cons w) (hi : i.toNat ≤ xs.toList.length)
    rw [List.insertIdx, hinsert, hsplit, ← hlength, List.take_left, List.drop_left]
  · next houtside => exact if_neg fun h => houtside (hplaces.2 h)

theorem actedAt_replace :
    Data.replace.actedAt xs.toList w i
      = (.undefined, ((Sequence.replaceAt? xs i w).getD xs).toList) := by
  unfold Sequence.replaceAt?
  split
  · next hinside =>
    have hacts : Data.replace.actedAt xs.toList w i
        = (.undefined, xs.toList.take i.toNat ++ w :: xs.toList.drop (i.toNat + 1)) :=
      if_pos hinside
    have hi : i.toNat < xs.toList.length := by
      rw [Array.length_toList]
      omega
    rw [hacts, Option.getD_some, Array.toList_setIfInBounds, List.set_eq_take_cons_drop w hi]
  · next houtside => exact if_neg houtside

end Sequence

/-- Acting on a list of the store. -/
def actOn (d : Data) (id : ListId) (i : Int) (w : Value) : Run α σ Value := fun _ s =>
  let result := d.actedAt (s.store.items id).toList w i
  (.value result.1, s.withItems id result.2)

theorem item_eq_actOn (id : ListId) (i : Int) (w : Value) :
    (do return Sequence.itemAt (← Run.itemsOf id) i : Run α σ Value) = Data.item.actOn id i w := by
  funext setup s
  unfold actOn
  dsimp only
  rw [actedAt_item, State.withItems, Array.toArray_toList, Store.write_items]
  rfl

theorem revise_eq_actOn {d : Data} {i : Int} {w : Value}
    {f : Sequence.Items → Option Sequence.Items}
    (hf : ∀ xs, d.actedAt xs.toList w i = (.undefined, ((f xs).getD xs).toList)) (id : ListId) :
    (do revise id f; return .undefined : Run α σ Value) = d.actOn id i w := by
  funext setup s
  unfold actOn
  dsimp only
  rw [hf, State.withItems, Array.toArray_toList,
    ← Store.update_eq_write s.store id fun xs => (f xs).getD xs]
  rfl

/-- **A block that acts at a position** gets at its list, evaluates its slots and acts. -/
theorem perform_eq_actOn {d : Data} (hd : d ∈ indexed.map (·.2)) (scope : Scope α σ) :
    d.perform scope = (do
      let id ← list d.target?.isSome scope
      let x ← scope.number "INDEX"
      let w ← d.placed scope
      d.actOn id x.toIndex w) := by
  -- a position is evaluated as a number and then cut toward zero
  have hindex : ∀ {β : Type} (f : Int → Run α σ β),
      (scope.index "INDEX" >>= f) = scope.number "INDEX" >>= fun x => f x.toIndex :=
    fun f => Run.bind_assoc _ _ _
  cases d with
  | item =>
    simp only [perform, hindex, item_eq_actOn _ _ .undefined]
    rfl
  | delete =>
    simp only [perform, hindex, revise_eq_actOn fun xs => actedAt_delete xs .undefined _]
    rfl
  | insert =>
    simp only [perform, hindex, revise_eq_actOn fun xs => actedAt_insert xs _ _]
    rfl
  | replace =>
    simp only [perform, hindex, revise_eq_actOn fun xs => actedAt_replace xs _ _]
    rfl
  | _ => exact absurd hd (by decide)

/-- **What a block does before it acts**: it gets at its list, and it evaluates its position and
then the item that it puts into the list. -/
def Prepares (d : Data) (scope : Scope α σ) (setup : Setup σ) (s : State α σ) (id : ListId)
    (x : Binary64) (w : Value) (s' : State α σ) : Prop :=
  ∃ m₁ m₂, list d.target?.isSome scope setup s = (.value id, m₁) ∧
    scope.number "INDEX" setup m₁ = (.value x, m₂) ∧ d.placed scope setup m₂ = (.value w, s')

/-- It ends with a value if it gets as far as that, and not otherwise. -/
theorem perform_eq_value_iff {d : Data} (hd : d ∈ indexed.map (·.2)) {scope : Scope α σ}
    {setup : Setup σ} {s s' : State α σ} {v : Value} :
    d.perform scope setup s = (.value v, s') ↔ ∃ id x w m, d.Prepares scope setup s id x w m ∧
      (v, s') = ((d.actedAt (m.store.items id).toList w x.toIndex).1,
        m.withItems id (d.actedAt (m.store.items id).toList w x.toIndex).2) := by
  simp only [perform_eq_actOn hd, Run.bind_eq_value_iff]
  constructor
  · rintro ⟨id, m₁, hlist, x, m₂, hindex, w, m, hplaced, hacts⟩
    obtain ⟨hv, hs'⟩ := Prod.mk.inj hacts
    exact ⟨id, x, w, m, ⟨m₁, m₂, hlist, hindex, hplaced⟩,
      Prod.ext (Outcome.value.inj hv).symm hs'.symm⟩
  · rintro ⟨id, x, w, m, ⟨m₁, m₂, hlist, hindex, hplaced⟩, hacts⟩
    obtain ⟨rfl, rfl⟩ := Prod.mk.inj hacts
    exact ⟨id, m₁, hlist, x, m₂, hindex, w, m, hplaced, rfl⟩

/-- In a list that is short enough, it acts where the number points. -/
theorem actsAt_actedAt (d : Data) {items : List Value}
    (h : (items.length : Int) < Binary64.greatestIndex) (w : Value) (x : Binary64) :
    x.ActsAt 0 (d.places items.length) (d.actAt items w) (.undefined, items)
      (d.actedAt items w x.toIndex) := by
  have hplaces : d.places items.length ≤ items.length + 1 := by
    unfold places
    split <;> omega
  have hacts : x.ActsAt 0 (d.places items.length) (d.actAt items w) (.undefined, items) _ :=
    Binary64.actsAt_toIndex (by omega)
  rwa [Nat.zero_add, Nat.cast_zero, Int.sub_zero] at hacts

end Blocks.Data

/-! ### Blocks that read a character -/

namespace Blocks.Operator

variable {α σ : Type}

theorem letterAt_eq (cs : List Char) (i : Int) :
    letterAt cs i = if 1 ≤ i ∧ i < (1 + cs.length : Nat) then
      String.ofList ((cs.drop (i - 1).toNat).take 1) else "" := by
  unfold letterAt
  by_cases hfirst : 1 ≤ i
  · rw [if_pos hfirst]
    by_cases hlast : i < (1 + cs.length : Nat)
    · have hi : (i - 1).toNat < cs.length := by omega
      rw [if_pos ⟨hfirst, hlast⟩, List.getElem?_eq_getElem hi, List.drop_eq_getElem_cons hi]
      rfl
    · rw [if_neg fun h => hlast h.2, List.getElem?_eq_none (by omega)]
  · rw [if_neg hfirst, if_neg fun h => hfirst h.1]

/-- What a block does before it reads a character: it evaluates its position and its text. -/
def Prepares (scope : Scope α σ) (setup : Setup σ) (s : State α σ) (x : Binary64) (w : Value)
    (s' : State α σ) : Prop :=
  ∃ m, scope.number "LETTER" setup s = (.value x, m) ∧
    scope.evaluate "STRING" setup m = (.value w, s')

theorem perform_letter_eq_value_iff {scope : Scope α σ} {setup : Setup σ} {s s' : State α σ}
    {v : Value} :
    Operator.letter.perform scope setup s = (.value v, s') ↔ ∃ x w, Prepares scope setup s x w s' ∧
      v = .text (letterAt (w.display s'.store).toList x.toIndex) := by
  have hletter : Operator.letter.perform scope = (do
      let x ← scope.number "LETTER"
      let w ← scope.evaluate "STRING"
      return .text (letterAt (← Run.display w).toList x.toIndex)) := Run.bind_assoc _ _ _
  simp only [hletter, Run.bind_eq_value_iff]
  constructor
  · rintro ⟨x, m, hindex, w, m', htext, text, m'', hdisplay, hends⟩
    obtain ⟨htext', rfl⟩ := Prod.mk.inj hdisplay
    obtain ⟨hv, rfl⟩ := Prod.mk.inj hends
    obtain rfl := Outcome.value.inj htext'
    exact ⟨x, w, ⟨m, hindex, htext⟩, (Outcome.value.inj hv).symm⟩
  · rintro ⟨x, w, ⟨m, hindex, htext⟩, rfl⟩
    exact ⟨x, m, hindex, w, s', htext, _, s', rfl, rfl⟩

end Blocks.Operator

/-! ### Blocks -/

/-- The functions of the standard modules that these opcodes name. -/
theorem Registry.indexed_handlers : ∀ f ∈ functions Blocks.standard,
    (∀ p ∈ Blocks.Data.indexed, f.1 = p.1 → f.2 = .data p.2) ∧
      (f.1 = "operator_letter_of" → f.2 = .operator .letter) := by
  decide +kernel

namespace Machine

variable {σ : Type} {b : Block} {setup : Setup σ} {s : State Action σ} {route : Route Action}

/-- A block is completed if its handler ends with a value. -/
theorem executeBlock_eq_value_iff (hroute : (s.registry.resolve b.opcode).1 = .ok route) {v : Value}
    {s' : State Action σ} :
    executeBlock b setup s = (.value v, s') ↔
      ∃ m, route.handler.perform (scopeOf b route) setup (afterRouting s b.opcode) = (.value v, m) ∧
        s' = (completed (scopeOf b route) v setup m).2 := by
  rw [executeBlock_apply, hroute]
  exact handled_value_iff

section Routed

variable (hgenuine : s.registry.Genuine b.opcode)
  (hroute : (s.registry.resolve b.opcode).1 = .ok route)

include hgenuine hroute

theorem executeBlock_indexed {d : Blocks.Data} (hd : (b.opcode, d) ∈ Blocks.Data.indexed)
    {v : Value} {s' : State Action σ} :
    executeBlock b setup s = (.value v, s') ↔ ∃ id x w m,
      d.Prepares (scopeOf b route) setup (afterRouting s b.opcode) id x w m ∧
      ∃ items, (v, items) = d.actedAt (m.store.items id).toList w x.toIndex ∧
        s' = (completed (scopeOf b route) v setup (m.withItems id items)).2 := by
  -- the opcode tells what the handler is
  have hhandler : route.handler = .data d :=
    (Registry.indexed_handlers _ (hgenuine route hroute)).1 _ hd rfl
  have hperform : route.handler.perform (scopeOf (σ := σ) b route)
      = d.perform (scopeOf b route) := by
    rw [hhandler]
    rfl
  rw [executeBlock_eq_value_iff hroute, hperform]
  simp only [Blocks.Data.perform_eq_value_iff (List.mem_map_of_mem (f := (·.2)) hd)]
  constructor
  · rintro ⟨_, ⟨id, x, w, m, hprepares, hacts⟩, rfl⟩
    obtain ⟨rfl, rfl⟩ := Prod.mk.inj hacts
    exact ⟨id, x, w, m, hprepares, _, rfl, rfl⟩
  · rintro ⟨id, x, w, m, hprepares, items, hacts, rfl⟩
    exact ⟨_, ⟨id, x, w, m, hprepares, by rw [← hacts]⟩, rfl⟩

theorem executeBlock_letter (hletter : b.opcode = "operator_letter_of") {v : Value}
    {s' : State Action σ} :
    executeBlock b setup s = (.value v, s') ↔ ∃ x w m,
      Blocks.Operator.Prepares (scopeOf b route) setup (afterRouting s b.opcode) x w m ∧
      v = .text (Blocks.Operator.letterAt (w.display m.store).toList x.toIndex) ∧
      s' = (completed (scopeOf b route) v setup m).2 := by
  have hhandler : route.handler = .operator .letter :=
    (Registry.indexed_handlers _ (hgenuine route hroute)).2 hletter
  have hperform : route.handler.perform (scopeOf (σ := σ) b route)
      = Blocks.Operator.letter.perform (scopeOf b route) := by
    rw [hhandler]
    rfl
  rw [executeBlock_eq_value_iff hroute, hperform]
  simp only [Blocks.Operator.perform_letter_eq_value_iff]
  constructor
  · rintro ⟨m, ⟨x, w, hprepares, hv⟩, hs'⟩
    exact ⟨x, w, m, hprepares, hv, hs'⟩
  · rintro ⟨x, w, m, hprepares, hv, hs'⟩
    exact ⟨m, ⟨x, w, hprepares, hv⟩, hs'⟩

end Routed

/-- **Numbers become positions by cutting, and blocks act at these positions.** -/
theorem blocks_act_where_numbers_point :
    -- a number becomes the 64-bit integer that its exact value is cut and clamped to
    (∀ (x : Binary64) i, x.Saturates i ↔ i = x.toIndex) ∧
    (∀ x y : Binary64, x.le y = true → x.toIndex ≤ y.toIndex) ∧
    (∀ x : Binary64, x.isNaN = false → (Binary64.ofInt Binary64.greatestIndex).le x = false →
      x.le (Binary64.ofInt Binary64.leastIndex) = false →
      x.isFinite = true ∧ x.toIndex = x.truncate ∧
        Binary64.leastIndex ≤ x.truncate ∧ x.truncate ≤ Binary64.greatestIndex) ∧
    -- from any state let a block be routed whose opcode means what it means with standard modules
    ∀ {σ : Type} (b : Block) (setup : Setup σ) (s : State Action σ) (route : Route Action),
      s.registry.Genuine b.opcode → (s.registry.resolve b.opcode).1 = .ok route →
      -- a block with a position in a list acts there, or reads and changes nothing
      (∀ d, (b.opcode, d) ∈ Blocks.Data.indexed →
        (∀ id x w m, d.Prepares (scopeOf b route) setup (afterRouting s b.opcode) id x w m →
          ((m.store.items id).size : Int) < Binary64.greatestIndex →
          ∃ v items, x.ActsAt 0 (d.places (m.store.items id).size)
              (d.actAt (m.store.items id).toList w) (.undefined, (m.store.items id).toList)
              (v, items) ∧
            executeBlock b setup s
              = (.value v, (completed (scopeOf b route) v setup (m.withItems id items)).2)) ∧
        ∀ v s', executeBlock b setup s = (.value v, s') →
          ∃ id x w m, d.Prepares (scopeOf b route) setup (afterRouting s b.opcode) id x w m) ∧
      -- a block with a position in a text reads the character there, or nothing
      (b.opcode = "operator_letter_of" →
        (∀ x w m, Blocks.Operator.Prepares (scopeOf b route) setup (afterRouting s b.opcode) x w m →
          ((w.display m.store).length : Int) < Binary64.greatestIndex →
          ∃ t, x.ActsAt 1 (w.display m.store).length
              (fun n => String.ofList (((w.display m.store).toList.drop n).take 1)) "" t ∧
            executeBlock b setup s
              = (.value (.text t), (completed (scopeOf b route) (.text t) setup m).2)) ∧
        ∀ v s', executeBlock b setup s = (.value v, s') →
          ∃ x w m, Blocks.Operator.Prepares (scopeOf b route) setup (afterRouting s b.opcode)
            x w m) := by
  refine ⟨Binary64.saturates_iff, fun x y => Binary64.toIndex_le_toIndex,
    fun x hnan hup hdown => ?_,
    fun b setup s route hgenuine hroute => ⟨fun d hd => ⟨?_, ?_⟩, fun hletter => ⟨?_, ?_⟩⟩⟩
  · obtain ⟨hfinite, hrange⟩ := Binary64.truncate_of_between hnan hup hdown
    refine ⟨hfinite, ?_, hrange⟩
    rw [Binary64.toIndex, hnan, hup, hdown]
    rfl
  · intro id x w m hprepares hsize
    have hacts : x.ActsAt 0 _ _ _ (d.actedAt (m.store.items id).toList w x.toIndex) :=
      d.actsAt_actedAt hsize w x
    exact ⟨_, _, hacts, (executeBlock_indexed hgenuine hroute hd).2
      ⟨id, x, w, m, hprepares, _, rfl, rfl⟩⟩
  · intro v s' hvalue
    obtain ⟨id, x, w, m, hprepares, -⟩ := (executeBlock_indexed hgenuine hroute hd).1 hvalue
    exact ⟨id, x, w, m, hprepares⟩
  · intro x w m hprepares hlength
    have hacts : x.ActsAt 1 (w.display m.store).length
        (fun n => String.ofList (((w.display m.store).toList.drop n).take 1)) "" _ :=
      Binary64.actsAt_toIndex (by omega)
    refine ⟨_, hacts, (executeBlock_letter hgenuine hroute hletter).2
      ⟨x, w, m, hprepares, ?_, rfl⟩⟩
    rw [Blocks.Operator.letterAt_eq, String.length_toList]
    rfl
  · intro v s' hvalue
    obtain ⟨x, w, m, hprepares, -⟩ := (executeBlock_letter hgenuine hroute hletter).1 hvalue
    exact ⟨x, w, m, hprepares⟩

/-- A block that deletes at the position that is half below zero. -/
def deletingFirst : Block :=
  .mk "data_deleteoflist" "d" [.field ⟨"LIST", "", "items", ""⟩,
    .literal "INDEX" ⟨"math_number", "n", ⟨"NUM", "", "-0.5", ""⟩⟩]

/-- A state with two items in the list. -/
def filled : State Action Unit :=
  { fillingMachine.started with
    heap := ⟨[("items", .list ⟨0⟩)]⟩, store := ⟨#[#[.text "a", .text "b"]]⟩ }

theorem prepares_deletingFirst (route : Route Action) :
    Blocks.Data.delete.Prepares (scopeOf deletingFirst route) fillingMachine.setup
      (afterRouting filled deletingFirst.opcode) ⟨0⟩ ⟨0xBFE0000000000000⟩ .undefined
      (afterRouting filled deletingFirst.opcode) := by
  have hnumber : (Value.text "-0.5").toNumber = .ok ⟨0xBFE0000000000000⟩ := by decide +kernel
  refine ⟨_, afterRouting filled deletingFirst.opcode, rfl, ?_, rfl⟩
  have htext : (scopeOf deletingFirst route).evaluate "INDEX" fillingMachine.setup
      (afterRouting filled deletingFirst.opcode)
      = (.value (.text "-0.5"), afterRouting filled deletingFirst.opcode) := rfl
  unfold Scope.number
  rw [Run.bind_apply, htext]
  dsimp only
  rw [hnumber]
  rfl

/-- What the block deletes is the first of the items. -/
theorem blocks_act_where_numbers_point_deleting : ∃ route m,
    Blocks.Data.delete.Prepares (scopeOf deletingFirst route) fillingMachine.setup
      (afterRouting filled deletingFirst.opcode) ⟨0⟩ ⟨0xBFE0000000000000⟩ .undefined m ∧
    executeBlock deletingFirst fillingMachine.setup filled
      = (.value .undefined, (completed (scopeOf deletingFirst route) .undefined
          fillingMachine.setup (m.withItems ⟨0⟩ [.text "b"])).2) := by
  have hreached : fillingMachine.Reached filling := ⟨_, _, _, [], rfl⟩
  have hgenuine : filled.registry.Genuine deletingFirst.opcode :=
    hreached.coherent.genuine (by decide) (by decide)
  have hregistry : filled.registry = ⟨[("data", Blocks.dataTable)], ["data"], []⟩ := by
    unfold filled
    rw [started_filling]
  have hroute : (filled.registry.resolve deletingFirst.opcode).1
      = .ok ⟨"data_deleteoflist", "data", "deleteoflist", .data .delete⟩ := by
    rw [hregistry]
    rfl
  obtain ⟨hlists, -⟩ := blocks_act_where_numbers_point.2.2.2 deletingFirst fillingMachine.setup
    filled _ hgenuine hroute
  have hprepares := prepares_deletingFirst
    ⟨"data_deleteoflist", "data", "deleteoflist", .data .delete⟩
  obtain ⟨v, items, hacts, hends⟩ :=
    (hlists .delete (by decide)).1 _ _ _ _ hprepares (by decide +kernel)
  -- the number is cut toward zero
  have hnames : Binary64.Names ⟨0xBFE0000000000000⟩ 0 :=
    (Binary64.names_iff (by decide) (by decide)).2 (by decide +kernel)
  obtain ⟨rfl, rfl⟩ := Prod.mk.inj (hacts.inside 0 (by decide +kernel) hnames)
  exact ⟨_, _, hprepares, hends⟩

end Machine

end Blockwork
