import Blockwork.Proofs.Machine.Detachment
import Blockwork.Proofs.Machine.Frame

/-!
# Reporters are pure

A **reporter** is an operator, or a data block that reads a variable or a list. A chain of nothing
but reporters, in its own blocks and in all their slots, always ends; it leaves the variables, the
items of every list and the events as they were; and executing it again gives the same value or the
same fault (`Machine.reporters_are_pure`).

The store is another matter. A list variable that was never assigned reads as an empty list, and
that list is made for the reading and then lost. So the states before and after are not equal, and
neither are the identities that two executions of one reader see. What they share is a `View`: the
variables, the items that each identity has, whether there is such a list or not, the depth and the
events. Lists of one view are `Alike` when they are the same list or both are empty, and then
nothing that a reader does with them tells them apart.

`Run.Same` compares two computations in a view. Operators look and fail, so for them sameness is the
calm property `Run.Pure`; the readers of lists are compared for alike lists, one by one. From blocks
to chains the way is the usual one, except that a chain is entered at another depth and so in
another view, which is why a pure computation is one in all of them.
-/

namespace Blockwork

/-! ### The opcodes of reporters -/

/-- A data block that reads a variable or a list and shows nothing. -/
def Blocks.Data.reports : Blocks.Data → Bool
  | .variable => true
  | .contents => true
  | .item => true
  | .length => true
  | .position => true
  | .contains => true
  | _ => false

/-- An operator, or a data block that reads a variable or a list. -/
def Action.reports : Action → Bool
  | .operator _ => true
  | .data d => d.reports
  | _ => false

/-- The opcodes of reporters. -/
def Blocks.reporterOpcodes : List String :=
  Operator.functions.map (fun f => "operator_" ++ f.1) ++
    ["data_variable", "data_listcontents", "data_itemoflist", "data_lengthoflist",
     "data_itemnumoflist", "data_listcontainsitem"]

namespace Registry

/-- What the standard modules have under the opcodes of reporters are reporters. -/
theorem reports_of_mem_standard :
    ∀ f ∈ functions Blocks.standard, f.1 ∈ Blocks.reporterOpcodes → f.2.reports = true := by
  decide +kernel

theorem Genuine.reports {r : Registry Action} {opcode : String} (h : r.Genuine opcode)
    (hopcode : opcode ∈ Blocks.reporterOpcodes) {route : Route Action}
    (hroute : (r.resolve opcode).1 = .ok route) : route.handler.reports = true :=
  reports_of_mem_standard _ (h route hroute) hopcode

end Registry

/-! ### Views -/

/-- What a reporter sees of a state, and leaves as it is. -/
structure View where
  heap : Heap
  items : ListId → Array Value
  depth : Nat
  events : Array Event

/-- A state looks like this and has these modules. -/
structure State.Shows {σ : Type} (modules : List (String × Table Action)) (v : View)
    (s : State Action σ) : Prop where
  heap : s.heap = v.heap
  items : ∀ id, s.store.items id = v.items id
  depth : s.depth = v.depth
  events : s.events = v.events
  registry : s.registry.Holds modules

/-- Two lists that a reader cannot tell apart: one list, or two that are empty. -/
def View.Alike (v : View) (a b : ListId) : Prop := a = b ∨ v.items a = #[] ∧ v.items b = #[]

theorem View.Alike.items {v : View} {a b : ListId} (h : v.Alike a b) : v.items a = v.items b := by
  rcases h with rfl | ⟨ha, hb⟩
  · rfl
  · rw [ha, hb]

theorem Store.read_of_items_eq_empty {s : Store} {id : ListId} (h : s.items id = #[]) :
    s.read (.list id) = .list [] :=
  readInside_of_items_eq_empty h s.lists.size []

namespace State.Shows

variable {σ : Type} {modules : List (String × Table Action)} {v : View} {s t : State Action σ}

theorem alike (hs : s.Shows modules v) (ht : t.Shows modules v) : s.store.Alike t.store :=
  fun id => (hs.items id).trans (ht.items id).symm

/-- **Making an empty list is not seen.** -/
theorem emptyList (hs : s.Shows modules v) :
    State.Shows modules v { s with store := (s.store.create #[]).2 } :=
  ⟨hs.heap, fun id => (Store.alike_create_empty s.store id).trans (hs.items id), hs.depth,
    hs.events, hs.registry⟩

theorem items_next (hs : s.Shows modules v) : v.items (s.store.create #[]).1 = #[] := by
  rw [← hs.items]
  exact Store.items_of_size_le (Nat.le_refl _)

theorem afterRouting (hs : s.Shows modules v) (opcode : String) :
    (Machine.afterRouting s opcode).Shows modules v :=
  ⟨hs.heap, hs.items, hs.depth, hs.events, hs.registry.resolve opcode⟩

end State.Shows

/-! ### Computations that are the same in a view -/

namespace Run

variable {σ : Type}

/-- **Two computations are the same in a view**: from states that show it both end, with one value
or one fault, and leave states that show it. -/
def Same (setup : Setup σ) (modules : List (String × Table Action)) (v : View) {β : Type}
    (x y : Job σ β) : Prop :=
  ∀ s t : State Action σ, s.Shows modules v → t.Shows modules v →
    (x setup s).1 = (y setup t).1 ∧ (x setup s).1 ≠ .unfinished ∧
      (x setup s).2.Shows modules v ∧ (y setup t).2.Shows modules v

/-- **A pure computation** is the same as itself in every view. -/
def Pure (setup : Setup σ) (modules : List (String × Table Action)) (β : Type) (x : Job σ β) :
    Prop :=
  ∀ v : View, Same setup modules v x x

variable {setup : Setup σ} {modules : List (String × Table Action)} {v : View}

theorem Same.andThen {β γ : Type} {x y : Job σ β} {f g : β → Job σ γ}
    (hxy : Same setup modules v x y) (hfg : ∀ b, Same setup modules v (f b) (g b)) :
    Same setup modules v (x >>= f) (y >>= g) := by
  intro s t hs ht
  obtain ⟨houtcome, hends, hs', ht'⟩ := hxy s t hs ht
  rw [bind_apply, bind_apply]
  rcases hx : x setup s with ⟨o, s'⟩
  rcases hy : y setup t with ⟨o', t'⟩
  rw [hx] at hs' hends houtcome
  rw [hy] at ht' houtcome
  obtain rfl : o = o' := houtcome
  cases o with
  | value b => exact hfg b s' t' hs' ht'
  | fault e => exact ⟨rfl, nofun, hs', ht'⟩
  | unfinished => exact absurd rfl hends

theorem Same.mapFault {β : Type} {x y : Job σ β} (hxy : Same setup modules v x y)
    (g : Fault → Fault) : Same setup modules v (x.mapFault g) (y.mapFault g) := by
  intro s t hs ht
  obtain ⟨houtcome, hends, hs', ht'⟩ := hxy s t hs ht
  unfold Run.mapFault
  rcases hx : x setup s with ⟨o, s'⟩
  rcases hy : y setup t with ⟨o', t'⟩
  rw [hx] at hs' hends houtcome
  rw [hy] at ht' houtcome
  obtain rfl : o = o' := houtcome
  cases o with
  | value b => exact ⟨rfl, nofun, hs', ht'⟩
  | fault e => exact ⟨rfl, nofun, hs', ht'⟩
  | unfinished => exact absurd rfl hends

/-- Computations that leave the state alone. -/
theorem Same.still {β : Type} {x y : Job σ β} (o : State Action σ → Outcome β)
    (hx : ∀ s, x setup s = (o s, s)) (o' : State Action σ → Outcome β)
    (hy : ∀ t, y setup t = (o' t, t)) (hends : ∀ s, o s ≠ .unfinished)
    (hsame : ∀ s t : State Action σ, s.Shows modules v → t.Shows modules v → o s = o' t) :
    Same setup modules v x y := by
  intro s t hs ht
  rw [hx, hy]
  exact ⟨hsame s t hs ht, hends s, hs, ht⟩

/-- **Looking and failing are pure.** -/
theorem calm_pure : Calm (Pure setup modules) where
  look view hview := by
    intro v
    refine Same.still (fun s => .value (view s.heap s.store)) (fun _ => rfl) _ (fun _ => rfl)
      (fun _ => nofun) fun s t hs ht => ?_
    rw [hs.heap, ht.heap, hview v.heap (hs.alike ht)]
  andThen hx hf := fun v => (hx v).andThen fun b => hf b v
  fail {_ f} _ := fun v => Same.still (fun _ => .fault f) (fun _ => rfl) _ (fun _ => rfl)
    (fun _ => nofun) fun _ _ _ _ => rfl

/-! ### Readers of lists -/

theorem same_done {β : Type} (b : β) : Same setup modules v (Run.done b) (Run.done b) :=
  calm_pure.done b v

theorem same_itemsOf {a b : ListId} (hab : v.Alike a b) :
    Same setup modules v (itemsOf a) (itemsOf b) := by
  refine Same.still (fun s => .value (s.store.items a)) (fun _ => rfl)
    (fun t => .value (t.store.items b)) (fun _ => rfl) (fun _ => nofun)
    fun s t hs ht => ?_
  rw [hs.items, ht.items, hab.items]

theorem same_display {a b : ListId} (hab : v.Alike a b) :
    Same setup modules v (display (.list a)) (display (.list b)) := by
  rcases hab with rfl | ⟨ha, hb⟩
  · exact calm_pure.display (.list a) v
  · refine Same.still (fun s => .value (Value.display s.store (.list a))) (fun _ => rfl)
      (fun t => .value (Value.display t.store (.list b))) (fun _ => rfl)
      (fun _ => nofun) fun s t hs ht => ?_
    unfold Value.display
    rw [Store.read_of_items_eq_empty ((hs.items a).trans ha),
      Store.read_of_items_eq_empty ((ht.items b).trans hb)]

/-- A list that is made for reading is like any other empty list, wherever it is. -/
theorem same_newList {β : Type} {f : ListId → Job σ β}
    (hf : ∀ a b, v.Alike a b → Same setup modules v (f a) (f b)) :
    Same setup modules v (newList #[] >>= f) (newList #[] >>= f) := by
  intro s t hs ht
  exact hf _ _ (.inr ⟨hs.items_next, ht.items_next⟩) _ _ hs.emptyList ht.emptyList

/-- **What is done with the list in a variable** is the same if it is so for alike lists. -/
theorem same_list {β : Type} {f : ListId → Job σ β}
    (hf : ∀ a b, v.Alike a b → Same setup modules v (f a) (f b)) (scope : Scope Action σ) :
    Same setup modules v (Blocks.Data.list false scope >>= f)
      (Blocks.Data.list false scope >>= f) := by
  unfold Blocks.Data.list
  rw [bind_assoc]
  refine Same.andThen (calm_pure.fieldText scope "LIST" v) fun name => ?_
  unfold Blocks.Data.listIn
  rw [bind_assoc]
  refine Same.andThen (calm_pure.lookup name v) fun w => ?_
  split
  · rw [bind_assoc]
    exact same_newList hf
  · cases w.toList with
    | ok id => exact hf id id (.inl rfl)
    | error m =>
      have hfail : Pure setup modules ListId (Run.fail (.through ("LIST " ++ name) (.mismatch m))) :=
        calm_pure.fail rfl
      exact (hfail v).andThen fun id => hf id id (.inl rfl)

/-- **Reading data blocks are pure** if their slots are. -/
theorem pure_data {scope : Scope Action σ} (hs : scope.Holds (Pure setup modules))
    {d : Blocks.Data} (hd : d.reports = true) : Pure setup modules Value (d.perform scope) := by
  have hvalue : ∀ name, Pure setup modules Value (scope.evaluate name) := calm_pure.evaluate hs
  have hindex : ∀ name, Pure setup modules Int (scope.index name) := calm_pure.index hs
  intro v
  -- getting at a list may make an empty one, which nothing can see
  cases d with
  | «variable» => exact calm_pure.fieldVariable scope "VARIABLE" v
  | contents =>
    refine same_list (fun a b hab => ?_) scope
    exact (same_display hab).andThen fun text => same_done _
  | item =>
    refine same_list (fun a b hab => ?_) scope
    refine (hindex "INDEX" v).andThen fun i => ?_
    exact (same_itemsOf hab).andThen fun xs => same_done _
  | length =>
    refine same_list (fun a b hab => ?_) scope
    exact (same_itemsOf hab).andThen fun xs => same_done _
  | position | contains =>
    refine same_list (fun a b hab => ?_) scope
    refine (hvalue "ITEM" v).andThen fun item => ?_
    exact (same_itemsOf hab).andThen fun xs => same_done _
  | _ => exact absurd hd (by simp [Blocks.Data.reports])

theorem pure_perform (scope : Scope Action σ) (hs : scope.Holds (Pure setup modules))
    {a : Action} (ha : a.reports = true) : Pure setup modules Value (a.perform scope) := by
  cases a with
  | operator o => exact calm_pure.operator hs o
  | data d => exact pure_data hs ha
  | _ => exact absurd ha (by simp [Action.reports])

end Run

/-! ### Blocks and chains -/

namespace Machine

variable {σ : Type} {setup : Setup σ} {modules : List (String × Table Action)}

/-- The observer is told, and what it keeps is not in view. -/
theorem pure_completed (scope : Scope Action σ) (result : Value) :
    Run.Pure setup modules Unit (completed scope result) :=
  fun _ _ _ hs ht => ⟨rfl, nofun, ⟨hs.heap, hs.items, hs.depth, hs.events, hs.registry⟩,
    ⟨ht.heap, ht.items, ht.depth, ht.events, ht.registry⟩⟩

/-- A chain is entered in the view that is one level deeper. -/
theorem pure_nested (id : String) {x : Job σ Value} (hx : Run.Pure setup modules Value x) :
    Run.Pure setup modules Value (nested id x) := by
  intro v s t hs ht
  unfold nested
  rw [hs.depth, ht.depth]
  split
  · exact ⟨rfl, nofun, hs, ht⟩
  · have hdeeper : ∀ {s : State Action σ}, s.Shows modules v →
        State.Shows modules { v with depth := v.depth + 1 } { s with depth := v.depth + 1 } :=
      fun hs => ⟨hs.heap, hs.items, rfl, hs.events, hs.registry⟩
    have hback : ∀ {s : State Action σ}, s.Shows modules { v with depth := v.depth + 1 } →
        State.Shows modules v { s with depth := s.depth - 1 } :=
      fun hs => ⟨hs.heap, hs.items, congrArg (· - 1) hs.depth, hs.events, hs.registry⟩
    obtain ⟨houtcome, hends, hs', ht'⟩ := hx _ _ _ (hdeeper hs) (hdeeper ht)
    exact ⟨houtcome, hends, hback hs', hback ht'⟩

/-- **A block is pure** if its slots are and it is routed to a reporter, or to nothing. -/
theorem pure_dispatch {opcode : String}
    (hopcode : ∀ (r : Registry Action) (route : Route Action), r.Holds modules →
      (r.resolve opcode).1 = .ok route → route.handler.reports = true) (id : String)
    {slots : List (Slot Action σ)} (hslots : ∀ slot ∈ slots, slot.Holds (Run.Pure setup modules)) :
    Run.Pure setup modules Value (dispatch opcode id slots) := by
  intro v s t hs ht
  have hroute := hs.registry.resolve_fst_eq ht.registry opcode
  rw [dispatch_apply, dispatch_apply, hroute]
  cases hfound : (t.registry.resolve opcode).1 with
  | error e => exact ⟨rfl, nofun, hs.afterRouting opcode, ht.afterRouting opcode⟩
  | ok route =>
    have hperform := Run.pure_perform ⟨opcode, id, route.module, route.function, slots⟩ hslots
      (hopcode t.registry route ht.registry hfound)
    refine Run.Same.andThen ((hperform v).mapFault _) (fun result => ?_) _ _
      (hs.afterRouting opcode) (ht.afterRouting opcode)
    exact (pure_completed _ result v).andThen fun _ => Run.same_done result

theorem pure_execute {c : Chain}
    (hc : ∀ b ∈ Chain.blocks c, ∀ (r : Registry Action) (route : Route Action),
      r.Holds modules → (r.resolve b.opcode).1 = .ok route → route.handler.reports = true) :
    Run.Pure setup modules Value (execute c) :=
  execute_calm Run.calm_pure (fun id _ hx => pure_nested id hx)
    (fun _ id _ hopcode hslots => pure_dispatch hopcode id hslots) c hc

/-- **Reporters are pure.** Let all blocks of a chain, those in its slots included, have opcodes of
reporters that mean what they mean with the standard modules. Then the chain ends from every state,
with a value or with a fault. Either way it leaves every variable, the items of every list and the
events as they were, so that every value reads as before; and executed again at once it ends with
the same value or the same fault. -/
theorem reporters_are_pure (setup : Setup σ) (c : Chain) (s : State Action σ)
    (hcoherent : s.registry.Coherent)
    (hopcodes : ∀ b ∈ Chain.blocks c, b.opcode ∈ Blocks.reporterOpcodes)
    (hgenuine : ∀ b ∈ Chain.blocks c, s.registry.Genuine b.opcode) :
    (execute c setup s).1 ≠ .unfinished ∧
    (execute c setup s).2.heap = s.heap ∧
    (∀ id, (execute c setup s).2.store.items id = s.store.items id) ∧
    (∀ v, (execute c setup s).2.store.read v = s.store.read v) ∧
    (execute c setup s).2.events = s.events ∧
    (execute c setup (execute c setup s).2).1 = (execute c setup s).1 := by
  have hroutes : ∀ b ∈ Chain.blocks c, ∀ (r : Registry Action) (route : Route Action),
      r.Holds s.registry.modules → (r.resolve b.opcode).1 = .ok route →
        route.handler.reports = true := by
    intro b hb r route hr hroute
    -- registries with the same modules give the same routes
    rw [hr.resolve_fst_eq ⟨hcoherent, rfl⟩] at hroute
    exact (hgenuine b hb).reports (hopcodes b hb) hroute
  have hpure : Run.Pure setup s.registry.modules Value (execute c) := pure_execute hroutes
  let v : View := ⟨s.heap, s.store.items, s.depth, s.events⟩
  have hs : s.Shows s.registry.modules v := ⟨rfl, fun _ => rfl, rfl, rfl, hcoherent, rfl⟩
  obtain ⟨-, hends, hs', -⟩ := hpure v s s hs hs
  obtain ⟨hagain, -, -, -⟩ := hpure v _ s hs' hs
  exact ⟨hends, hs'.heap, hs'.items, (hs'.alike hs).read, hs'.events, hagain⟩

/-- The length of the text that shows a list. -/
def lengthOfContents : Chain :=
  [.mk "operator_length" "a"
    [.expression "STRING" [.mk "data_listcontents" "b" [.field ⟨"LIST", "", "items", ""⟩]]]]

/-- A machine whose list variable was never assigned. -/
def unassigned : Machine Unit :=
  create ⟨[⟨"items", "", "", true, false⟩], lengthOfContents, []⟩ ⟨.silent, 10, 10⟩
    (Blocks.standard ++ [("console", Blocks.consoleTable)]) ()

/-- Reading the list leaves the variable unassigned, and reading it again gives the same length. -/
theorem reporters_are_pure_unassigned :
    (execute lengthOfContents unassigned.setup unassigned.state).2.heap.get? "items"
      = some .undefined ∧
    (execute lengthOfContents unassigned.setup
        (execute lengthOfContents unassigned.setup unassigned.state).2).1
      = (execute lengthOfContents unassigned.setup unassigned.state).1 := by
  have hcoherent : unassigned.state.registry.Coherent := coherent_registry_create ..
  have hopcodes : ∀ b ∈ Chain.blocks lengthOfContents, b.opcode ∈ Blocks.reporterOpcodes := by
    decide
  have hgenuine : ∀ b ∈ Chain.blocks lengthOfContents,
      unassigned.state.registry.Genuine b.opcode := by
    intro b hb
    have hlisted : ∀ opcode ∈ Blocks.reporterOpcodes,
        opcode ∈ (Registry.functions Blocks.standard).map (·.1) := by decide
    exact hcoherent.genuine (by decide) (hlisted _ (hopcodes b hb))
  obtain ⟨-, hheap, -, -, -, hagain⟩ :=
    reporters_are_pure unassigned.setup lengthOfContents unassigned.state hcoherent hopcodes hgenuine
  exact ⟨by rw [hheap]; rfl, hagain⟩

end Machine

end Blockwork
