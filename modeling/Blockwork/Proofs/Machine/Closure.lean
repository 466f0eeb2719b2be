import Blockwork.Proofs.Machine.Parts
import Blockwork.Proofs.Program.Position
import Mathlib.Tactic.Common

/-!
# What actions are made of

Every action of every module is put together from a few parts: it reads the state, assigns a
variable, makes or changes a list, shows something, counts, fails, and runs the slots of its block,
once or in a loop. So a property of computations that these parts have, and that going on with a
result keeps, holds of the action as soon as it holds of the slots.

`Action.perform_plain` says so of standard actions and of properties that depend on the names in the
fields of a block or on how often slots are run. Most properties depend on neither. For them there
are four kinds of parts, each with fewer demands than the next.

* `Run.Calm`: looking at variables and at the items of lists, and failing. Operators do no more.
* `Run.Steady`: reading anything, making an empty list, showing and printing, looping. These are
  the actions that assign no variable and change no list.
* `Run.Standard`: assigning and changing lists too. Every fault of a slot is handed on as it is.
* `Run.Closed`: what introspection blocks do beyond that. They raise faults of their own making, put
  a fault in another place or go on after it, and count.

`Run.Calm.operator`, `Action.perform_steady`, `Action.perform_standard` and `Action.perform_closed`
are the statements. An invariant of runs is then proved part by part, and no invariant looks at the
single actions again. `Run.Nominal` and `Action.perform_nominal` are the kind of parts and the
statement for properties that depend on the names in the fields and that introspection blocks have
too.

A property that only relates the states before and after a computation is closed as soon as the
relation goes on from part to part (`Run.Drift.closed`).

`Machine.execute_induction` carries a property from the blocks of a chain to the chain. What
entering a chain and dispatching a block ask is left to the property, and so is what it asks of the
blocks; for a calm property these are the opcodes (`Machine.execute_calm`).
-/

namespace Blockwork

/-! ### Closed properties -/

namespace Run

variable {α σ : Type}

/-- **A property of looking and failing.** What is seen are the variables and the items of lists, not
how many lists there are. -/
structure Calm (Φ : (β : Type) → Run α σ β → Prop) : Prop where
  look : ∀ {β : Type} (view : Heap → Store → β),
    (∀ (heap : Heap) {s t : Store}, s.Alike t → view heap s = view heap t) →
    Φ β fun _ s => (.value (view s.heap s.store), s)
  andThen : ∀ {β γ : Type} {x : Run α σ β} {f : β → Run α σ γ},
    Φ β x → (∀ b, Φ γ (f b)) → Φ γ (x >>= f)
  fail : ∀ {β : Type} {f : Fault}, f.isOwn = true → Φ β (fail f)

/-- **A property of the parts that change no variable and no list.** A new list is empty. -/
structure Steady (Φ : (β : Type) → Run α σ β → Prop) : Prop where
  /-- Reading the setup and the state. -/
  read : ∀ {β : Type} (view : Setup σ → State α σ → β),
    Φ β fun setup s => (.value (view setup s), s)
  andThen : ∀ {β γ : Type} {x : Run α σ β} {f : β → Run α σ γ},
    Φ β x → (∀ b, Φ γ (f b)) → Φ γ (x >>= f)
  fail : ∀ {β : Type} {f : Fault}, f.isOwn = true → Φ β (fail f)
  exhausted : ∀ {β : Type}, Φ β exhausted
  emptyList : Φ ListId (newList #[])
  emit : ∀ e : Event, Φ Unit (emit e)

/-- **A property that the parts of standard actions have** and that putting them together keeps. -/
structure Standard (Φ : (β : Type) → Run α σ β → Prop) : Prop where
  /-- Reading the setup and the state. -/
  read : ∀ {β : Type} (view : Setup σ → State α σ → β),
    Φ β fun setup s => (.value (view setup s), s)
  andThen : ∀ {β γ : Type} {x : Run α σ β} {f : β → Run α σ γ},
    Φ β x → (∀ b, Φ γ (f b)) → Φ γ (x >>= f)
  fail : ∀ {β : Type} {f : Fault}, f.isOwn = true → Φ β (fail f)
  exhausted : ∀ {β : Type}, Φ β exhausted
  assign : ∀ (name : String) (v : Value), Φ Unit (assign name v)
  newList : ∀ items : Array Value, Φ ListId (newList items)
  updateList : ∀ (id : ListId) (f : Array Value → Array Value), Φ Unit (updateList id f)
  emit : ∀ e : Event, Φ Unit (emit e)

/-- **A property that the parts of all actions have.** -/
structure Closed (Φ : (β : Type) → Run α σ β → Prop) : Prop extends Standard Φ where
  raise : ∀ {β : Type} (text : String), Φ β (Run.fail (.raised text))
  breakOff : ∀ {β : Type} (text : String), Φ β (Run.fail (.panicked text))
  attempt : ∀ {β : Type} {x : Run α σ β}, Φ β x → Φ (Except Fault β) x.attempt
  through : ∀ {β : Type} {x : Run α σ β} (place : String), Φ β x →
    Φ β (x.mapFault (.through place))
  count : Φ Unit (modify fun s => { s with counter := s.counter + 1 })

section Kinds

variable {Φ : (β : Type) → Run α σ β → Prop}

theorem Steady.calm (h : Steady Φ) : Calm Φ :=
  ⟨fun view _ => h.read fun _ s => view s.heap s.store, h.andThen, h.fail⟩

theorem Standard.steady (h : Standard Φ) : Steady Φ :=
  ⟨h.read, h.andThen, h.fail, h.exhausted, h.newList #[], h.emit⟩

theorem Standard.calm (h : Standard Φ) : Calm Φ := h.steady.calm

end Kinds

end Run

/-! ### States before and after -/

/-- **A relation between states that the parts of actions keep**, and that goes on from one part to
the next. -/
structure Run.Drift {α σ : Type} (R : Setup σ → State α σ → State α σ → Prop) : Prop where
  refl : ∀ (setup : Setup σ) (s : State α σ), R setup s s
  trans : ∀ {setup : Setup σ} {s s' s'' : State α σ}, R setup s s' → R setup s' s'' →
    R setup s s''
  assign : ∀ (setup : Setup σ) {s : State α σ} {name : String} {v : Value} {heap : Heap},
    s.heap.set? name v = some heap → R setup s { s with heap := heap }
  store : ∀ (setup : Setup σ) (s : State α σ) (store : Store), R setup s { s with store := store }
  events : ∀ (setup : Setup σ) (s : State α σ) (events : Array Event),
    R setup s { s with events := events }
  counter : ∀ (setup : Setup σ) (s : State α σ) (counter : Nat),
    R setup s { s with counter := counter }

/-- A computation leads to a related state, whether it ends with a value, with a fault or not at
all. -/
def Run.Moves {α σ : Type} (R : Setup σ → State α σ → State α σ → Prop) (β : Type)
    (x : Run α σ β) : Prop :=
  ∀ setup s, R setup s (x setup s).2

namespace Run

variable {α σ β : Type} {R : Setup σ → State α σ → State α σ → Prop}

theorem Moves.mapFault {x : Run α σ β} (hx : Moves R β x) (g : Fault → Fault) :
    Moves R β (x.mapFault g) := by
  intro setup s
  have hmove := hx setup s
  unfold Run.mapFault
  rcases hout : x setup s with ⟨b | f | _, s'⟩ <;> rw [hout] at hmove <;> exact hmove

/-- No part of an action looks at the way another one ends, as far as states go. -/
theorem Drift.closed (h : Drift R) : Closed (Moves R) where
  read view := fun setup s => h.refl setup s
  andThen := by
    intro β γ x f hx hf setup s
    have hfirst := hx setup s
    rw [bind_apply]
    rcases hout : x setup s with ⟨b | e | _, s'⟩ <;> rw [hout] at hfirst
    · exact h.trans hfirst (hf b setup s')
    · exact hfirst
    · exact hfirst
  fail _ := fun setup s => h.refl setup s
  exhausted := fun setup s => h.refl setup s
  raise _ := fun setup s => h.refl setup s
  breakOff _ := fun setup s => h.refl setup s
  attempt := by
    intro β x hx setup s
    have hmove := hx setup s
    unfold Run.attempt
    rcases hout : x setup s with ⟨b | f | _, s'⟩ <;> rw [hout] at hmove <;> exact hmove
  through place hx := hx.mapFault (.through place)
  assign name v := by
    intro setup s
    rw [assign_apply]
    -- assigning is refused or replaces one value
    cases hset : s.heap.set? name v with
    | none => exact h.refl setup s
    | some heap => exact h.assign setup hset
  newList items := fun setup s => h.store setup s _
  updateList id f := fun setup s => h.store setup s _
  emit e := fun setup s => h.events setup s _
  count := fun setup s => h.counter setup s _

end Run

variable {α σ β : Type} {Φ : (β : Type) → Run α σ β → Prop} {s : Scope α σ}

/-! ### Looking and failing -/

namespace Run.Calm

theorem done (h : Calm Φ) (b : β) : Φ β (Run.done b) := h.look (fun _ _ => b) fun _ _ _ _ => rfl

theorem lookup (h : Calm Φ) (name : String) : Φ Value (Run.lookup name) := by
  have hget : Φ (Option Value) fun _ s => (.value (s.heap.get? name), s) :=
    h.look (fun heap _ => heap.get? name) fun _ _ _ _ => rfl
  have hfound : ∀ found : Option Value,
      Φ Value (found.elim (Run.fail (.unknownVariable name)) Run.done) := by
    intro found
    cases found with
    | some v => exact h.done v
    | none => exact h.fail rfl
  -- what is looked at is the value of the name alone, not the whole state
  have hlookup : Run.lookup name
      = (show Run α σ (Option Value) from fun _ s => (.value (s.heap.get? name), s)) >>=
        fun found => found.elim (Run.fail (.unknownVariable name)) Run.done := by
    funext setup s
    rw [lookup_apply, bind_apply]
    cases s.heap.get? name <;> rfl
  rw [hlookup]
  exact h.andThen hget hfound

/-- The parts without a count, and with any names. -/
theorem tame (h : Calm Φ) : Tame (fun _ => True) fun _ => Φ where
  inspect view hview := h.look (fun _ store => view store) fun _ _ _ hst => hview hst
  lookup _ := h.lookup _
  fail hown _ := h.fail hown
  andThen := h.andThen
  weaken _ hx := hx

theorem display (h : Calm Φ) (v : Value) : Φ String (Run.display v) := h.tame.display v

theorem evaluate (h : Calm Φ) (hs : s.Holds Φ) (name : String) : Φ Value (s.evaluate name) :=
  h.tame.evaluate hs name

theorem fieldText (h : Calm Φ) (s : Scope α σ) (name : String) : Φ String (s.fieldText name) := by
  unfold Scope.fieldText Scope.getField
  cases s.field? name with
  | none => exact h.fail rfl
  | some f => exact h.done f.value

theorem fieldVariable (h : Calm Φ) (s : Scope α σ) (name : String) :
    Φ Value (s.fieldVariable name) :=
  h.tame.fieldVariable (fun _ _ => trivial) name

theorem number (h : Calm Φ) (hs : s.Holds Φ) (name : String) : Φ Binary64 (s.number name) :=
  h.tame.number hs name

theorem index (h : Calm Φ) (hs : s.Holds Φ) (name : String) : Φ Int (s.index name) :=
  h.tame.index hs name

/-- **Operators look and fail.** -/
theorem operator (h : Calm Φ) (hs : s.Holds Φ) (o : Blocks.Operator) : Φ Value (o.perform s) :=
  h.tame.operator hs (fun _ _ => trivial) o

end Run.Calm

/-! ### Actions that change no variable and no list -/

namespace Run.Steady

theorem state (h : Steady Φ) : Φ (State α σ) Run.state := h.read fun _ s => s

theorem loopWhile (h : Steady Φ) {step : Run α σ Bool} (hstep : Φ Bool step) :
    Φ Unit (Run.loopWhile step) := by
  -- a loop is unfolded as often as the budget allows, and then it is unfinished
  have hloop : ∀ budget, Φ Unit (Run.loop step budget) := by
    intro budget
    induction budget with
    | zero => exact h.exhausted
    | succ budget ih =>
      refine h.andThen hstep fun b => ?_
      cases b with
      | true => exact ih
      | false => exact h.calm.done ()
  exact h.andThen (h.read fun setup _ => setup) fun setup => hloop setup.budget

theorem showVariable (h : Steady Φ) (s : Scope α σ) (name : String) :
    Φ Unit (s.showVariable name) :=
  h.andThen h.state fun _ => h.emit _

theorem hideVariable (h : Steady Φ) (s : Scope α σ) (name : String) :
    Φ Unit (s.hideVariable name) :=
  h.emit _

/-- The parts that do not write, without a count and with any names. -/
theorem plain (h : Steady Φ) : Plain (fun _ => True) True False fun _ => Φ where
  toTame := h.calm.tame
  loopWhile _ _ _ _ hstep := h.loopWhile hstep
  emptyList := h.emptyList
  emit := h.emit
  reveal s name _ := h.showVariable s name
  assign hwrites := hwrites.elim
  updateList hwrites := hwrites.elim

end Run.Steady

/-- **A property of the slots that the steady parts have is one of every standard action that does
not write.** -/
theorem Action.perform_steady {σ : Type} {Φ : (β : Type) → Job σ β → Prop} (h : Run.Steady Φ)
    {s : Scope Action σ} (hs : s.Holds Φ) {a : Action} (ha : a.isProbe = false)
    (hwrites : a.writes = false) : Φ Value (a.perform s) :=
  Action.perform_plain h.plain hs (fun _ _ => trivial) ha (fun _ => trivial)
    fun hw => absurd hw (by simp [hwrites])

/-! ### Standard actions -/

theorem Run.Standard.done (h : Standard Φ) (b : β) : Φ β (Run.done b) := h.calm.done b

/-- The parts that write, without a count and with any names. -/
theorem Run.Standard.plain (h : Standard Φ) : Plain (fun _ => True) True True fun _ => Φ where
  toTame := h.calm.tame
  loopWhile _ _ _ _ hstep := h.steady.loopWhile hstep
  emptyList := h.newList #[]
  emit := h.emit
  reveal s name _ := h.steady.showVariable s name
  assign _ name v _ := h.assign name v
  updateList _ := h.updateList

/-- **A property of the slots that the standard parts have is one of every standard action.** -/
theorem Action.perform_standard {σ : Type} {Φ : (β : Type) → Job σ β → Prop}
    (h : Run.Standard Φ) {s : Scope Action σ} (hs : s.Holds Φ) {a : Action}
    (ha : a.isProbe = false) : Φ Value (a.perform s) :=
  Action.perform_plain h.plain hs (fun _ _ => trivial) ha (fun _ => trivial) fun _ => trivial

/-! ### Introspection blocks -/

/-- An action that gets at variables by the names in the fields of its block. Two introspection
blocks do not: one counts the variables, and one shows a variable with the empty name if it has no
field. -/
def Action.isNominal : Action → Bool
  | .probe .info => false
  | .probe .showVariable => false
  | _ => true

/-- **A property of the parts of nominal actions.** Beyond standard actions, introspection blocks make
lists with items, raise faults of their own making, put a fault in another place or go on after it,
and count. -/
structure Run.Nominal (names : String → Prop) (Φ : (β : Type) → Run α σ β → Prop) : Prop
    extends Plain names True True fun _ => Φ where
  newList : ∀ items : Array Value, Φ ListId (newList items)
  raise : ∀ {β : Type} (text : String), Φ β (Run.fail (.raised text))
  breakOff : ∀ {β : Type} (text : String), Φ β (Run.fail (.panicked text))
  attempt : ∀ {β : Type} {x : Run α σ β}, Φ β x → Φ (Except Fault β) x.attempt
  through : ∀ {β : Type} {x : Run α σ β} (place : String), Φ β x →
    Φ β (x.mapFault (.through place))
  countUp : Φ Nat Blocks.Probe.countUp

namespace Run.Nominal

variable {names : String → Prop}

/-- Going on, where nothing is counted. -/
theorem goOn (h : Nominal names Φ) {γ : Type} {x : Run α σ γ} {f : γ → Run α σ β} (hx : Φ γ x)
    (hf : ∀ b, Φ β (f b)) : Φ β (x >>= f) :=
  h.andThen (m := 0) (n := 0) hx hf

theorem listValue (h : Nominal names Φ) (items : List Value) :
    Φ Value (Blocks.Probe.listValue items) :=
  h.goOn (h.newList _) fun _ => h.done _

theorem nest (h : Nominal names Φ) (v : Value) (depth : Nat) :
    Φ Value (Blocks.Probe.nest v depth) := by
  induction depth with
  | zero => exact h.done v
  | succ depth ih => exact h.goOn ih fun _ => h.listValue _

/-- Looking a slot up does not run it. -/
theorem getSlot (h : Nominal names Φ) (s : Scope α σ) : Φ Value (Blocks.Probe.get.perform s) := by
  unfold Blocks.Probe.perform Scope.getValue Scope.getStatement Scope.getField
  dsimp only
  split
  · cases s.value? (Blocks.Probe.textOf s "NAME") with
    | none => exact h.fail rfl rfl
    | some found =>
      obtain ⟨content, evaluate⟩ := found
      cases content <;> exact h.done _
  · split
    · cases s.statement? (Blocks.Probe.textOf s "NAME") with
      | none => exact h.fail rfl rfl
      | some found => exact h.done _
    · cases s.field? (Blocks.Probe.textOf s "NAME") with
      | none => exact h.fail rfl rfl
      | some found => exact h.done _

/-- **A property of the slots that the nominal parts have is one of every nominal introspection
block.** -/
theorem probe (h : Nominal names Φ) (hs : s.Holds Φ) (hn : s.Names names) {p : Blocks.Probe}
    (hp : (Action.probe p).isNominal = true) : Φ Value (p.perform s) := by
  have hend : Φ Value (Run.done .undefined) := h.done Value.undefined
  cases p with
  | slots | has => exact h.listValue _
  | get => exact h.getSlot s
  | value => exact h.evaluate hs _
  | field => exact h.fieldVariable hn _
  | execute => exact h.execute hs _
  | fail => exact h.raise _
  | breakOff => exact h.breakOff _
  | wrap => exact h.through _ (h.execute hs _)
  | tryOut =>
    -- the only action that goes on after a fault of its slot
    refine h.goOn (h.attempt (h.execute hs _)) fun result => ?_
    cases result with
    | ok v => exact h.done v
    | error f => exact h.done _
  | hideVariable => exact h.goOn (h.hideVariable s _) fun _ => hend
  | tick => exact h.goOn h.countUp fun _ => h.done _
  | limit =>
    refine h.goOn h.countUp fun n => ?_
    split
    · exact h.goOn (h.raise _) fun _ => hend
    · exact hend
  | list =>
    unfold Blocks.Probe.perform
    dsimp only
    split <;> exact h.listValue _
  | deep => exact h.nest _ _
  | typed =>
    unfold Blocks.Probe.perform
    dsimp only
    split
    · cases (Value.text (Blocks.Probe.textOf s "TEXT")).toNumber with
      | ok n => exact h.done _
      | error m => exact h.fail rfl rfl
    all_goals exact h.done _
  | info | showVariable => exact absurd hp nofun

end Run.Nominal

/-- **A property of the slots that the nominal parts have is one of every nominal action.** -/
theorem Action.perform_nominal {σ : Type} {names : String → Prop}
    {Φ : (β : Type) → Job σ β → Prop} (h : Run.Nominal names Φ) {s : Scope Action σ}
    (hs : s.Holds Φ) (hn : s.Names names) {a : Action} (ha : a.isNominal = true) :
    Φ Value (a.perform s) := by
  cases hprobe : a.isProbe with
  | false =>
    exact Action.perform_plain h.toPlain hs hn hprobe (fun _ => trivial) fun _ => trivial
  | true =>
    cases a with
    | probe p => exact h.probe hs hn ha
    | _ => exact absurd hprobe (by simp [Action.isProbe])

namespace Run.Closed

/-- With any names. -/
theorem nominal (h : Closed Φ) : Nominal (fun _ => True) Φ where
  toPlain := h.plain
  newList := h.newList
  raise := h.raise
  breakOff := h.breakOff
  attempt := h.attempt
  through := h.through
  countUp := h.andThen h.count fun _ => h.andThen h.steady.state fun _ => h.done _

theorem probe (h : Closed Φ) (hs : s.Holds Φ) (p : Blocks.Probe) : Φ Value (p.perform s) := by
  cases hp : (Action.probe p).isNominal with
  | true => exact h.nominal.probe hs (fun _ _ => trivial) hp
  | false =>
    cases p with
    | info => exact h.andThen h.steady.state fun _ => h.nominal.listValue _
    | showVariable => exact h.andThen (h.steady.showVariable s _) fun _ => h.done _
    | _ => exact absurd hp nofun

end Run.Closed

/-- **A closed property of the slots is one of the action.** -/
theorem Action.perform_closed {σ : Type} {Φ : (β : Type) → Job σ β → Prop} (h : Run.Closed Φ)
    {s : Scope Action σ} (hs : s.Holds Φ) (a : Action) : Φ Value (a.perform s) := by
  cases ha : a.isProbe with
  | false => exact Action.perform_standard h.toStandard hs ha
  | true =>
    cases a with
    | probe p => exact h.probe hs p
    | _ => exact absurd ha (by simp [Action.isProbe])

/-! ### Chains -/

namespace Machine

variable {σ : Type} {Φ : (β : Type) → Job σ β → Prop}

theorem slotsOf_eq_map (members : List Member) :
    slotsOf (σ := σ) members = members.map slotOf := by
  induction members with
  | nil => rfl
  | cons m members ih => rw [slotsOf, List.map_cons, ih]

/-- The computation behind a slot is that of its chain, or there is none. -/
theorem holds_slotOf (hdone : ∀ v, Φ Value (.done v)) {m : Member}
    (hm : Φ Value (execute m.chain)) : (slotOf m).Holds Φ := by
  cases m with
  | expression name chain => exact hm
  | literal name shadow => exact hdone _
  | statement name chain => exact hm
  | field f => trivial

/-- **From the blocks of a chain to the chain.** `G` is what the property asks of blocks. A good
block has the property when its slots have it, and going on and entering a chain keep it. -/
theorem execute_induction {G : Block → Prop} (hdone : ∀ v, Φ Value (.done v))
    (handThen : ∀ {x : Job σ Value} {f : Value → Job σ Value},
      Φ Value x → (∀ v, Φ Value (f v)) → Φ Value (x >>= f))
    (hnested : ∀ (id : String) {x : Job σ Value}, Φ Value x → Φ Value (nested id x))
    (hblock : ∀ b : Block, G b → (∀ slot ∈ slotsOf b.members, slot.Holds Φ) →
      Φ Value (executeBlock b))
    (c : Chain) (hc : ∀ b ∈ Chain.blocks c, G b) : Φ Value (execute c) := by
  -- along a chain the result of the block before is carried, so both forms are proved at once
  suffices hboth : Φ Value (execute c) ∧ ∀ v, Φ Value (executeRest v c) from hboth.1
  revert hc
  refine Chain.induction (P := fun c => (∀ b ∈ Chain.blocks c, G b) →
    Φ Value (execute c) ∧ ∀ v, Φ Value (executeRest v c)) ?_ ?_ c
  · exact fun _ => ⟨hdone _, fun v => hdone v⟩
  · intro b rest hslots hrest hgood
    have hfirst : Φ Value (executeBlock b) := by
      -- the slots hold chains of the block's own members, to which the induction applies
      refine hblock b (hgood b (Chain.mem_blocks_cons.2 (.inl rfl))) ?_
      rw [slotsOf_eq_map]
      intro slot hslot
      obtain ⟨m, hm, rfl⟩ := List.mem_map.1 hslot
      refine holds_slotOf hdone (hslots m hm fun x hx => ?_).1
      exact hgood x (Chain.mem_blocks_cons.2 (.inr (.inl ⟨m, hm, hx⟩)))
    obtain ⟨-, hrest⟩ := hrest fun x hx => hgood x (Chain.mem_blocks_cons.2 (.inr (.inr hx)))
    exact ⟨hnested b.id (handThen hfirst hrest), fun v => handThen hfirst hrest⟩

/-- The same for a calm property, which may look at the opcode of a block only. -/
theorem execute_calm {G : String → Prop} (h : Run.Calm Φ)
    (hnested : ∀ (id : String) {x : Job σ Value}, Φ Value x → Φ Value (nested id x))
    (hdispatch : ∀ (opcode id : String) (slots : List (Slot Action σ)), G opcode →
      (∀ slot ∈ slots, slot.Holds Φ) → Φ Value (dispatch opcode id slots))
    (c : Chain) (hc : ∀ b ∈ Chain.blocks c, G b.opcode) : Φ Value (execute c) := by
  refine execute_induction (fun v => h.done v) h.andThen hnested ?_ c hc
  rintro ⟨opcode, id, members⟩ hb hslots
  exact hdispatch opcode id (slotsOf members) hb hslots

theorem execute_closed {G : String → Prop} (h : Run.Closed Φ)
    (hnested : ∀ (id : String) {x : Job σ Value}, Φ Value x → Φ Value (nested id x))
    (hdispatch : ∀ (opcode id : String) (slots : List (Slot Action σ)), G opcode →
      (∀ slot ∈ slots, slot.Holds Φ) → Φ Value (dispatch opcode id slots))
    (c : Chain) (hc : ∀ b ∈ Chain.blocks c, G b.opcode) : Φ Value (execute c) :=
  execute_calm h.calm hnested hdispatch c hc

/-- **A relation between states that chains keep**: one that the parts of actions keep, that does not
look at the depth or at the routes that are kept, and that holds when a block is completed. -/
theorem moves_execute {R : Setup σ → State Action σ → State Action σ → Prop} (h : Run.Drift R)
    (hdepth : ∀ {setup : Setup σ} {s s' : State Action σ} (d d' : Nat),
      R setup { s with depth := d } s' → R setup s { s' with depth := d' })
    (hregistry : ∀ (setup : Setup σ) (s : State Action σ) (registry : Registry Action),
      R setup s { s with registry := registry })
    (hcompleted : ∀ (scope : Scope Action σ) (v : Value) (setup : Setup σ) (s : State Action σ),
      R setup s (completed scope v setup s).2)
    (c : Chain) : Run.Moves R Value (execute c) := by
  have hclosed : Run.Closed (Run.Moves R) := h.closed
  -- nothing is asked of the opcodes
  refine execute_calm (G := fun _ => True) hclosed.calm ?_ ?_ c fun _ _ => trivial
  · intro id x hx setup s
    unfold nested
    split
    · exact h.refl setup s
    · exact hdepth _ _ (hx setup { s with depth := s.depth + 1 })
  · intro opcode id slots _ hslots
    have hrouted : Run.Moves R (Route Action) (routed opcode) := by
      intro setup s
      unfold routed
      rcases s.registry.resolve opcode with ⟨e | route, registry⟩ <;>
        exact hregistry setup s registry
    refine hclosed.andThen hrouted fun route => ?_
    have hperform := Action.perform_closed hclosed
      (s := ⟨opcode, id, route.module, route.function, slots⟩) hslots route.handler
    refine hclosed.andThen (hperform.mapFault _) fun v => ?_
    exact hclosed.andThen (fun setup s => hcompleted _ v setup s) fun _ => hclosed.done v

end Machine

end Blockwork
