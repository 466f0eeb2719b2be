import Blockwork.Machine.Execute
import Blockwork.Proofs.Machine.Identity
import Blockwork.Proofs.Number.Truncation

/-!
# The parts of standard actions

A standard action reads and assigns variables, makes and changes lists, shows and prints, fails,
and runs the slots of its block. This module takes every standard action apart, once. What is left
to ask of a property of computations is that the parts have it and that going on with a result
keeps it.

The parts come with three measures of what an action can do, so that a property has to answer for no
more than it can.

* **Names.** The variables that an action reads, assigns or shows are those that the fields of its
  block name. `names` says which names there are to be reckoned with.
* **Loops and writes.** Only the open-ended loops repeat without a count (`Action.loops`), and only
  seven data blocks assign variables or change lists (`Action.writes`). The propositions `loops` and
  `writes` are given to a property that these parts have.
* **Counts.** `Φ n` is the property of a computation that runs slots at most `n` times. A slot that
  is run counts one, looking and failing count nothing, and one computation after another counts
  both. A counted loop runs its body less than `2 ^ 63` times; all other actions, open-ended loops
  apart, run no more than two slots (`Action.repetitions`). A property without a count is one that
  does not look at `n`.

`Action.perform_plain` is the statement. `Run.Tame` is the smaller kind of parts, all that
operators need.
-/

namespace Blockwork

/-! ### What actions do -/

/-- A fault that a standard action raises itself: a slot, a value or a name is not what it should
be. It comes neither from routing nor from the depth limit, and no block is named in it. -/
def Fault.isOwn : Fault → Bool
  | .mismatch _ => true
  | .slotMissing _ _ _ => true
  | .unknownVariable _ => true
  | .unknownOperator _ => true
  | .through _ cause => cause.isOwn
  | _ => false

/-- The variable that was not found, if this is the fault at the heart. -/
def Fault.unknown? : Fault → Option String
  | .unknownVariable name => some name
  | .through _ cause => cause.unknown?
  | .execution _ _ _ cause => cause.unknown?
  | _ => none

/-- The field in which a data block names the variable that it writes. -/
def Blocks.Data.target? : Blocks.Data → Option String
  | .set => some "VARIABLE"
  | .change => some "VARIABLE"
  | .add => some "LIST"
  | .clear => some "LIST"
  | .delete => some "LIST"
  | .insert => some "LIST"
  | .replace => some "LIST"
  | _ => none

/-- A loop whose condition is evaluated anew before every iteration, or that has none. -/
def Blocks.Control.isOpen : Blocks.Control → Bool
  | .untilTrue => true
  | .whileTrue => true
  | .endless => true
  | .await => true
  | _ => false

namespace Action

/-- An action that looks at the machine from inside. All others are standard. -/
def isProbe : Action → Bool
  | .probe _ => true
  | _ => false

/-- An action that may assign a variable or change a list itself. -/
def writes : Action → Bool
  | .data d => d.target?.isSome
  | _ => false

/-- An action that may go on for ever. -/
def loops : Action → Bool
  | .control c => c.isOpen
  | _ => false

/-- How often an action that does not loop for ever runs slots of its block, at most. A loop that
counts evaluates its count once and runs its body as often as the count says. -/
def repetitions : Action → Nat
  | .control .count => Nat.pow 2 63
  | _ => 2

end Action

/-! ### Computations in sequence -/

namespace Run

variable {α σ : Type}

/-- Going on with a result, at a state. -/
theorem bind_apply {β γ : Type} (x : Run α σ β) (f : β → Run α σ γ) (setup : Setup σ)
    (s : State α σ) :
    (x >>= f) setup s
      = match x setup s with
        | (.value b, s) => f b setup s
        | (.fault e, s) => (.fault e, s)
        | (.unfinished, s) => (.unfinished, s) := rfl

/-- Two computations end with a value if both do. -/
theorem bind_eq_value_iff {β γ : Type} {x : Run α σ β} {f : β → Run α σ γ} {setup : Setup σ}
    {s s' : State α σ} {c : γ} :
    (x >>= f) setup s = (.value c, s') ↔
      ∃ b m, x setup s = (.value b, m) ∧ f b setup m = (.value c, s') := by
  rw [bind_apply]
  rcases x setup s with ⟨b | e | _, m⟩ <;> simp

theorem bind_assoc {β γ δ : Type} (x : Run α σ β) (f : β → Run α σ γ) (g : γ → Run α σ δ) :
    (x >>= f) >>= g = x >>= fun b => f b >>= g := by
  funext setup s
  rw [bind_apply, bind_apply, bind_apply]
  rcases x setup s with ⟨b | e | _, s'⟩ <;> rfl

/-- Changing the fault leaves the state. -/
theorem mapFault_snd {β : Type} (x : Run α σ β) (g : Fault → Fault) (setup : Setup σ)
    (s : State α σ) : (x.mapFault g setup s).2 = (x setup s).2 := by
  unfold mapFault
  rcases x setup s with ⟨b | e | _, s'⟩ <;> rfl

theorem lookup_apply (name : String) (setup : Setup σ) (s : State α σ) :
    lookup name setup s
      = match s.heap.get? name with
        | some v => (.value v, s)
        | none => (.fault (.unknownVariable name), s) := by
  rw [lookup, bind_apply]
  simp only [state]
  cases s.heap.get? name <;> rfl

/-- Assigning changes the heap or fails with nothing changed. -/
theorem assign_apply (name : String) (v : Value) (setup : Setup σ) (s : State α σ) :
    assign name v setup s
      = match s.heap.set? name v with
        | some heap => (.value (), { s with heap := heap })
        | none => (.fault (.unknownVariable name), s) := by
  rw [assign, bind_apply]
  simp only [state]
  cases s.heap.set? name v <;> rfl

/-! ### The parts -/

/-- **A property of looking, failing and running slots.** The variables that are looked at have
certain names; of the store, the items of lists are seen and not how many lists there are. That a
variable is not found is left to the look at it. -/
structure Tame (names : String → Prop) (Φ : Nat → (β : Type) → Run α σ β → Prop) : Prop where
  inspect : ∀ {β : Type} (view : Store → β), (∀ {s t : Store}, s.Alike t → view s = view t) →
    Φ 0 β fun _ s => (.value (view s.store), s)
  lookup : ∀ {name : String}, names name → Φ 0 Value (lookup name)
  fail : ∀ {β : Type} {f : Fault}, f.isOwn = true → f.unknown? = none → Φ 0 β (fail f)
  andThen : ∀ {m n : Nat} {β γ : Type} {x : Run α σ β} {f : β → Run α σ γ},
    Φ m β x → (∀ b, Φ n γ (f b)) → Φ (m + n) γ (x >>= f)
  weaken : ∀ {m n : Nat} {β : Type} {x : Run α σ β}, m ≤ n → Φ m β x → Φ n β x

/-- **A property of the parts of standard actions.** What loops for ever has no count to go by. -/
structure Plain (names : String → Prop) (loops writes : Prop)
    (Φ : Nat → (β : Type) → Run α σ β → Prop) : Prop extends Tame names Φ where
  loopWhile : loops → ∀ {m n : Nat} {step : Run α σ Bool}, Φ m Bool step →
    Φ n Unit (loopWhile step)
  emptyList : Φ 0 ListId (newList #[])
  emit : ∀ e : Event, Φ 0 Unit (emit e)
  reveal : ∀ (s : Scope α σ) {name : String}, names name → Φ 0 Unit (s.showVariable name)
  assign : writes → ∀ {name : String} (v : Value), names name → Φ 0 Unit (assign name v)
  updateList : writes → ∀ (id : ListId) (f : Array Value → Array Value),
    Φ 0 Unit (updateList id f)

/-! ### Parts that end at once -/

/-- **A computation ends at once**: with a value or a fault, under all setups alike, with the functions
as they were and nothing told. It may change variables and lists, and add events. -/
def EndsAtOnce {β : Type} (x : Run α σ β) : Prop :=
  ∀ s : State α σ, ∃ (o : Outcome β) (s' : State α σ), (∀ setup, x setup s = (o, s')) ∧
    o ≠ .unfinished ∧ s'.registry = s.registry ∧ s'.memory = s.memory ∧
      s.events.toList <+: s'.events.toList

theorem endsAtOnce_done {β : Type} (b : β) : EndsAtOnce (α := α) (σ := σ) (done b) :=
  fun s => ⟨.value b, s, fun _ => rfl, nofun, rfl, rfl, List.prefix_rfl⟩

theorem endsAtOnce_lookup (name : String) : EndsAtOnce (α := α) (σ := σ) (lookup name) := by
  intro s
  cases hget : s.heap.get? name with
  | some v =>
    refine ⟨.value v, s, fun setup => ?_, nofun, rfl, rfl, List.prefix_rfl⟩
    rw [lookup_apply, hget]
  | none =>
    refine ⟨.fault (.unknownVariable name), s, fun setup => ?_, nofun, rfl, rfl, List.prefix_rfl⟩
    rw [lookup_apply, hget]

theorem endsAtOnce_assign (name : String) (v : Value) :
    EndsAtOnce (α := α) (σ := σ) (assign name v) := by
  intro s
  cases hset : s.heap.set? name v with
  | some heap =>
    refine ⟨.value (), { s with heap := heap }, fun setup => ?_, nofun, rfl, rfl, List.prefix_rfl⟩
    rw [assign_apply, hset]
  | none =>
    refine ⟨.fault (.unknownVariable name), s, fun setup => ?_, nofun, rfl, rfl, List.prefix_rfl⟩
    rw [assign_apply, hset]

theorem endsAtOnce_emit (e : Event) : EndsAtOnce (α := α) (σ := σ) (emit e) :=
  fun _ => ⟨_, _, fun _ => rfl, nofun, rfl, rfl, Array.toList_push ▸ List.prefix_append _ [e]⟩

/-- **The parts of standard actions end at once**, loops without a count apart. What is left to ask of
a property is that computations which end at once have it, and that it goes on from part to part. -/
theorem plain_of_endsAtOnce {loops : Prop} {Φ : Nat → (β : Type) → Run α σ β → Prop}
    (hparts : ∀ {β : Type} {x : Run α σ β}, EndsAtOnce x → Φ 0 β x)
    (handThen : ∀ {m n : Nat} {β γ : Type} {x : Run α σ β} {f : β → Run α σ γ},
      Φ m β x → (∀ b, Φ n γ (f b)) → Φ (m + n) γ (x >>= f))
    (hweaken : ∀ {m n : Nat} {β : Type} {x : Run α σ β}, m ≤ n → Φ m β x → Φ n β x)
    (hloop : loops → ∀ {m n : Nat} {step : Run α σ Bool}, Φ m Bool step →
      Φ n Unit (loopWhile step)) : Plain (fun _ => True) loops True Φ where
  inspect _ _ := hparts fun _ => ⟨_, _, fun _ => rfl, nofun, rfl, rfl, List.prefix_rfl⟩
  lookup _ := hparts (endsAtOnce_lookup _)
  fail _ _ := hparts fun _ => ⟨_, _, fun _ => rfl, nofun, rfl, rfl, List.prefix_rfl⟩
  andThen := handThen
  weaken := hweaken
  loopWhile := hloop
  emptyList := hparts fun _ => ⟨_, _, fun _ => rfl, nofun, rfl, rfl, List.prefix_rfl⟩
  emit e := hparts (endsAtOnce_emit e)
  -- what is shown depends on the state alone
  reveal _ _ _ := hparts fun s => endsAtOnce_emit _ s
  assign _ _ v _ := hparts (endsAtOnce_assign _ v)
  updateList _ _ _ := hparts fun _ => ⟨_, _, fun _ => rfl, nofun, rfl, rfl, List.prefix_rfl⟩

end Run

/-! ### Blocks and their slots -/

section Slots

variable {α σ : Type} {s : Scope α σ}

/-- The property of the computation behind a slot. -/
def Slot.Holds (Φ : (β : Type) → Run α σ β → Prop) : Slot α σ → Prop
  | .value _ _ evaluate => Φ Value evaluate
  | .statement _ _ execute => Φ Value execute
  | .field _ => True

/-- The property of every slot of a block. -/
def Scope.Holds (Φ : (β : Type) → Run α σ β → Prop) (s : Scope α σ) : Prop :=
  ∀ slot ∈ s.slots, slot.Holds Φ

/-- The texts in the fields of a block are certain names. -/
def Scope.Names (names : String → Prop) (s : Scope α σ) : Prop :=
  ∀ f : Field, .field f ∈ s.slots → names f.value

variable {Φ : (β : Type) → Run α σ β → Prop}

theorem Scope.Holds.value (hs : s.Holds Φ) {name : String} {found : Content × Run α σ Value}
    (h : s.value? name = some found) : Φ Value found.2 := by
  -- of equal names the last counts, so the slots are searched from the end
  obtain ⟨slot, hmem, hslot⟩ := List.exists_of_findSome?_eq_some h
  have hheld := hs slot (List.mem_reverse.1 hmem)
  cases slot with
  | value n content evaluate =>
    obtain ⟨-, hfound⟩ := Option.ite_none_right_eq_some.1 hslot
    obtain rfl := Option.some.inj hfound
    exact hheld
  | statement n chain execute => exact absurd hslot (by simp)
  | field f => exact absurd hslot (by simp)

theorem Scope.Holds.statement (hs : s.Holds Φ) {name : String} {found : Chain × Run α σ Value}
    (h : s.statement? name = some found) : Φ Value found.2 := by
  obtain ⟨slot, hmem, hslot⟩ := List.exists_of_findSome?_eq_some h
  have hheld := hs slot (List.mem_reverse.1 hmem)
  cases slot with
  | value n content evaluate => exact absurd hslot (by simp)
  | statement n chain execute =>
    obtain ⟨-, hfound⟩ := Option.ite_none_right_eq_some.1 hslot
    obtain rfl := Option.some.inj hfound
    exact hheld
  | field f => exact absurd hslot (by simp)

theorem Scope.Names.field {names : String → Prop} (hs : s.Names names) {name : String} {f : Field}
    (h : s.field? name = some f) : names f.value := by
  obtain ⟨slot, hmem, hslot⟩ := List.exists_of_findSome?_eq_some h
  cases slot with
  | value n content evaluate => exact absurd hslot (by simp)
  | statement n chain execute => exact absurd hslot (by simp)
  | field g =>
    obtain ⟨-, hfound⟩ := Option.ite_none_right_eq_some.1 hslot
    obtain rfl := Option.some.inj hfound
    exact hs _ (List.mem_reverse.1 hmem)

end Slots

/-! ### Looking and running slots -/

namespace Run.Tame

variable {α σ β : Type} {names : String → Prop} {Φ : Nat → (β : Type) → Run α σ β → Prop}
  {s : Scope α σ} {n : Nat}

theorem done (h : Tame names Φ) (b : β) : Φ 0 β (Run.done b) := h.inspect (fun _ => b) fun _ => rfl

/-- What only looks is free to go on with. -/
theorem andFree (h : Tame names Φ) {γ : Type} {x : Run α σ γ} {f : γ → Run α σ β}
    (hx : Φ n γ x) (hf : ∀ b, Φ 0 β (f b)) : Φ n β (x >>= f) :=
  h.andThen hx hf

theorem itemsOf (h : Tame names Φ) (id : ListId) : Φ 0 (Array Value) (Run.itemsOf id) :=
  h.inspect (fun store => store.items id) fun hst => hst id

theorem display (h : Tame names Φ) (v : Value) : Φ 0 String (Run.display v) :=
  h.inspect (fun store => v.display store) fun hst => hst.display v

theorem times (h : Tame names Φ) {step : Run α σ Unit} (hstep : Φ 1 Unit step) (count : Nat) :
    Φ count Unit (Run.times step count) := by
  induction count with
  | zero => exact h.done ()
  | succ count ih => exact h.weaken (Nat.le_of_eq (Nat.add_comm 1 count)) (h.andThen hstep fun _ => ih)

theorem evaluate (h : Tame names Φ) (hs : s.Holds (Φ 1)) (name : String) :
    Φ 1 Value (s.evaluate name) := by
  unfold Scope.evaluate Scope.getValue
  cases hfound : s.value? name with
  | none => exact h.weaken (Nat.zero_le 1) (h.fail rfl rfl)
  | some found => exact hs.value hfound

theorem execute (h : Tame names Φ) (hs : s.Holds (Φ 1)) (name : String) :
    Φ 1 Value (s.execute name) := by
  unfold Scope.execute Scope.getStatement
  cases hfound : s.statement? name with
  | none => exact h.weaken (Nat.zero_le 1) (h.fail rfl rfl)
  | some found => exact hs.statement hfound

/-- **What is done with the text of a field**: the text is one of the names. -/
theorem fieldText_andThen (h : Tame names Φ) (hn : s.Names names) (slot : String)
    {f : String → Run α σ β} (hf : ∀ name, names name → Φ n β (f name)) :
    Φ n β (s.fieldText slot >>= f) := by
  unfold Scope.fieldText Scope.getField
  cases hfound : s.field? slot with
  | none => exact h.weaken (Nat.zero_le n) (h.fail rfl rfl)
  | some field => exact hf field.value (hn.field hfound)

theorem fieldVariable (h : Tame names Φ) (hn : s.Names names) (slot : String) :
    Φ 0 Value (s.fieldVariable slot) :=
  h.fieldText_andThen hn slot fun _ hname => h.lookup hname

theorem number (h : Tame names Φ) (hs : s.Holds (Φ 1)) (name : String) :
    Φ 1 Binary64 (s.number name) := by
  refine h.andFree (h.evaluate hs name) fun v => ?_
  cases v.toNumber with
  | ok n => exact h.done n
  | error m => exact h.fail rfl rfl

theorem index (h : Tame names Φ) (hs : s.Holds (Φ 1)) (name : String) : Φ 1 Int (s.index name) :=
  h.andFree (h.number hs name) fun n => h.done n.toIndex

theorem condition (h : Tame names Φ) (hs : s.Holds (Φ 1)) (name : String) :
    Φ 1 Bool (s.condition name) := by
  unfold Scope.condition
  cases hfound : s.value? name with
  -- a condition that is not there is false
  | none => exact h.weaken (Nat.zero_le 1) (h.done false)
  | some found =>
    refine h.andFree (hs.value hfound) fun v => ?_
    exact h.inspect (fun store => v.truthy store) fun hst => hst.truthy v

theorem body (h : Tame names Φ) (hs : s.Holds (Φ 1)) (name : String) :
    Φ 1 Unit (s.body name) := by
  unfold Scope.body
  cases hfound : s.statement? name with
  -- a body that is not there does nothing
  | none => exact h.weaken (Nat.zero_le 1) (h.done ())
  | some found => exact h.andFree (hs.statement hfound) fun _ => h.done ()

/-! ### Operators -/

theorem arithmetic (h : Tame names Φ) (hs : s.Holds (Φ 1)) (f : Binary64 → Binary64 → Binary64) :
    Φ 2 Value (Blocks.Operator.arithmetic s f) :=
  h.andThen (h.number hs _) fun _ => h.andFree (h.number hs _) fun _ => h.done _

theorem comparison (h : Tame names Φ) (hs : s.Holds (Φ 1)) (test : Ordering → Bool) :
    Φ 2 Value (Blocks.Operator.comparison s test) := by
  refine h.andThen (h.evaluate hs _) fun a => h.andFree (h.evaluate hs _) fun b => ?_
  refine h.inspect (fun store => Value.truth (test (a.compare store b))) fun hst => ?_
  rw [hst.compare a b]

theorem logic (h : Tame names Φ) (hs : s.Holds (Φ 1)) (f : Bool → Bool → Bool) :
    Φ 2 Value (Blocks.Operator.logic s f) :=
  h.andThen (h.condition hs _) fun _ => h.andFree (h.condition hs _) fun _ => h.done _

/-- **Operators look and fail**, and run two slots at most. -/
theorem operator (h : Tame names Φ) (hs : s.Holds (Φ 1)) (hn : s.Names names)
    (o : Blocks.Operator) : Φ 2 Value (o.perform s) := by
  have hone : ∀ {x : Run α σ Value}, Φ 1 Value x → Φ 2 Value x := h.weaken (Nat.le_succ 1)
  cases o with
  | add | subtract | multiply | divide | modulo => exact h.arithmetic hs _
  | less => exact h.comparison hs (· == .lt)
  | greater => exact h.comparison hs (· == .gt)
  | both | either => exact h.logic hs _
  | equals =>
    exact h.andThen (h.evaluate hs _) fun _ => h.andFree (h.evaluate hs _) fun _ =>
      h.done _
  | negation => exact hone (h.andFree (h.condition hs _) fun _ => h.done _)
  | join | contains =>
    exact h.andThen (h.evaluate hs _) fun a => h.andFree (h.evaluate hs _) fun b =>
      h.andFree (h.display a) fun _ => h.andFree (h.display b) fun _ => h.done _
  | letter =>
    exact h.andThen (h.index hs _) fun _ => h.andFree (h.evaluate hs _) fun v =>
      h.andFree (h.display v) fun _ => h.done _
  | length =>
    exact hone (h.andFree (h.evaluate hs _) fun v =>
      h.andFree (h.display v) fun _ => h.done _)
  | round => exact hone (h.andFree (h.number hs _) fun _ => h.done _)
  | function =>
    refine hone (h.fieldText_andThen hn _ fun name _ => ?_)
    cases Blocks.Operator.mathFunction? name with
    | none => exact h.weaken (Nat.zero_le 1) (h.fail rfl rfl)
    | some f => exact h.andFree (h.number hs _) fun _ => h.done _

end Run.Tame

/-! ### Loops, variables and lists -/

/-- A count is less than `2 ^ 63`. -/
theorem Binary64.toIndex_toNat_lt (x : Binary64) : x.toIndex.toNat < Nat.pow 2 63 := by
  have hlimit : greatestIndex.toNat < Nat.pow 2 63 := by decide
  have hpos : 0 < Nat.pow 2 63 := by decide
  cases hx : x.isNaN with
  | true =>
    rw [toIndex, if_pos hx]
    exact hpos
  | false =>
    have hleast : leastIndex ≤ greatestIndex := by decide
    rw [toIndex_eq_clamp hx]
    omega

namespace Run.Plain

variable {α σ β : Type} {names : String → Prop} {loops writes : Prop}
  {Φ : Nat → (β : Type) → Run α σ β → Prop} {s : Scope α σ} {n : Nat}

theorem hideVariable (h : Plain names loops writes Φ) (s : Scope α σ) (name : String) :
    Φ 0 Unit (s.hideVariable name) :=
  h.emit _

/-- A counted loop evaluates its count once. Whatever the count is, the body runs less than
`2 ^ 63` times. -/
theorem repeats (h : Plain names loops writes Φ) (hs : s.Holds (Φ 1)) :
    Φ (Nat.pow 2 63) Value (Blocks.Control.count.perform s) := by
  refine h.andThen (m := 1) (n := Nat.pow 2 63 - 1) (h.number hs _) fun count => ?_
  have hcount : count.round.toIndex.toNat + 0 ≤ Nat.pow 2 63 - 1 := by
    have hlt := count.round.toIndex_toNat_lt
    omega
  exact h.weaken hcount (h.andThen (h.times (h.body hs _) _) fun _ => h.done _)

theorem control (h : Plain names loops writes Φ) (hs : s.Holds (Φ 1)) (c : Blocks.Control)
    (hloops : c.isOpen = true → loops) :
    Φ (Action.control c).repetitions Value (c.perform s) := by
  have hend : Φ 0 Value (Run.done .undefined) := h.done Value.undefined
  have hbody : ∀ name, Φ 1 Unit (s.body name) := h.body hs
  have hcondition : ∀ name, Φ 1 Bool (s.condition name) := h.condition hs
  have hloop : c.isOpen = true → ∀ {n : Nat} {step : Run α σ Bool}, Φ n Bool step →
      Φ 2 Value (Run.loopWhile step >>= fun _ => Run.done .undefined) :=
    fun hopen _ _ hstep => h.andFree (h.loopWhile (hloops hopen) hstep) fun _ => hend
  cases c with
  | count => exact h.repeats hs
  | untilTrue =>
    -- one turn evaluates the condition, and then the body unless it holds
    refine hloop rfl (h.andThen (n := 1) (hcondition _) fun b => ?_)
    cases b with
    | true => exact h.weaken (Nat.zero_le 1) (h.done false)
    | false => exact h.andFree (hbody _) fun _ => h.done true
  | whileTrue =>
    refine hloop rfl (h.andThen (n := 1) (hcondition _) fun b => ?_)
    cases b with
    | true => exact h.andFree (hbody _) fun _ => h.done true
    | false => exact h.weaken (Nat.zero_le 1) (h.done false)
  | endless => exact hloop rfl (h.andFree (hbody _) fun _ => h.done true)
  | branch =>
    refine h.andThen (n := 1) (hcondition _) fun b => ?_
    cases b with
    | true => exact h.andFree (hbody _) fun _ => hend
    | false => exact h.weaken (Nat.zero_le 1) hend
  | choice =>
    refine h.andThen (n := 1) (hcondition _) fun b => ?_
    cases b with
    | true => exact h.andFree (hbody _) fun _ => hend
    | false => exact h.andFree (hbody _) fun _ => hend
  | await => exact hloop rfl (h.andFree (hcondition _) fun b => h.done !b)

/-- A list variable that is unset has a new list. It is kept in the variable only for writing. -/
theorem listIn (h : Plain names loops writes Φ) {keep : Bool} (hkeep : keep = true → writes)
    {name : String} (hname : names name) : Φ 0 ListId (Blocks.Data.listIn keep name) := by
  refine h.andFree (h.lookup hname) fun v => ?_
  split
  · refine h.andFree h.emptyList fun id => ?_
    cases keep with
    | true => exact h.andFree (h.assign (hkeep rfl) _ hname) fun _ => h.done id
    | false => exact h.done id
  · cases v.toList with
    | ok id => exact h.done id
    | error m => exact h.fail rfl rfl

theorem list (h : Plain names loops writes Φ) (hn : s.Names names) {keep : Bool}
    (hkeep : keep = true → writes) : Φ 0 ListId (Blocks.Data.list keep s) :=
  h.fieldText_andThen hn _ fun _ hname => h.listIn hkeep hname

theorem data (h : Plain names loops writes Φ) (hs : s.Holds (Φ 1)) (hn : s.Names names)
    (d : Blocks.Data) (hwrites : d.target?.isSome = true → writes) :
    Φ 2 Value (d.perform s) := by
  have hend : Φ 0 Value (Run.done .undefined) := h.done Value.undefined
  have hnone : ∀ {x : Run α σ Value}, Φ 0 Value x → Φ 2 Value x := h.weaken (Nat.zero_le 2)
  have hone : ∀ {x : Run α σ Value}, Φ 1 Value x → Φ 2 Value x := h.weaken (Nat.le_succ 1)
  have hvalue : ∀ name, Φ 1 Value (s.evaluate name) := h.evaluate hs
  have hindex : ∀ name, Φ 1 Int (s.index name) := h.index hs
  have hread : Φ 0 ListId (Blocks.Data.list false s) := h.list hn nofun
  -- which variable or list is meant comes first, and then two slots are evaluated at most
  cases d with
  | «variable» => exact hnone (h.fieldVariable hn _)
  | set =>
    refine hone (h.fieldText_andThen hn _ fun name hname => ?_)
    exact h.andFree (hvalue _) fun v =>
      h.andFree (h.assign (hwrites rfl) v hname) fun _ => hend
  | change =>
    refine hone (h.fieldText_andThen hn _ fun name hname => ?_)
    -- what the variable holds decides whether the slot is evaluated at all
    refine h.andThen (m := 0) (n := 1) (h.lookup hname) fun current => ?_
    cases current.toNumber with
    | error m => exact h.weaken (Nat.zero_le 1) (h.fail rfl rfl)
    | ok base =>
      exact h.andFree (h.number hs _) fun _ =>
        h.andFree (h.assign (hwrites rfl) _ hname) fun _ => hend
  | showVariable | showList =>
    exact hnone (h.fieldText_andThen hn _ fun name hname =>
      h.andFree (h.reveal s hname) fun _ => hend)
  | hideVariable | hideList =>
    exact hnone (h.fieldText_andThen hn _ fun name _ =>
      h.andFree (h.hideVariable s name) fun _ => hend)
  | contents =>
    exact hnone (h.andFree hread fun id =>
      h.andFree (h.display _) fun _ => h.done _)
  | item =>
    exact hone (h.andThen hread fun id => h.andThen (hindex _) fun i =>
      h.andFree (h.itemsOf id) fun _ => h.done _)
  | length =>
    exact hnone (h.andFree hread fun id =>
      h.andFree (h.itemsOf id) fun _ => h.done _)
  | position | contains =>
    exact hone (h.andThen hread fun id => h.andThen (hvalue _) fun item =>
      h.andFree (h.itemsOf id) fun _ => h.done _)
  | add =>
    -- a list that is written is kept in its variable, which takes the right to write
    exact hone (h.andThen (h.list hn hwrites) fun id => h.andThen (hvalue _) fun item =>
      h.andFree (h.updateList (hwrites rfl) id _) fun _ => hend)
  | clear =>
    exact hnone (h.andThen (h.list hn hwrites) fun id =>
      h.andFree (h.updateList (hwrites rfl) id _) fun _ => hend)
  | delete =>
    exact hone (h.andThen (h.list hn hwrites) fun id => h.andThen (hindex _) fun i =>
      h.andFree (h.updateList (hwrites rfl) id _) fun _ => hend)
  | insert | replace =>
    exact h.andThen (m := 0) (h.list hn hwrites) fun id => h.andThen (hindex _) fun i =>
      h.andFree (hvalue _) fun item =>
        h.andFree (h.updateList (hwrites rfl) id _) fun _ => hend

end Run.Plain

/-- **A property of the slots that the plain parts have is one of every standard action.** -/
theorem Action.perform_plain {σ : Type} {names : String → Prop} {loops writes : Prop}
    {Φ : Nat → (β : Type) → Job σ β → Prop} (h : Run.Plain names loops writes Φ)
    {s : Scope Action σ} (hs : s.Holds (Φ 1)) (hn : s.Names names) {a : Action}
    (ha : a.isProbe = false) (hloops : a.loops = true → loops)
    (hwrites : a.writes = true → writes) : Φ a.repetitions Value (a.perform s) := by
  have hnone : ∀ {v : Value}, Φ 2 Value (Run.done v) :=
    fun {v} => h.weaken (Nat.zero_le 2) (h.done v)
  cases a with
  | control c => exact h.control hs c hloops
  | data d => exact h.data hs hn d hwrites
  | start => exact hnone
  | operator o => exact h.operator hs hn o
  | print =>
    refine h.weaken (m := 1) (Nat.le_succ 1) ?_
    exact h.andFree (h.evaluate hs _) fun v => h.andFree (h.display v) fun _ =>
      h.andFree (h.emit _) fun _ => h.done _
  | probe p => exact absurd ha (by simp [Action.isProbe])
  | answer text => exact hnone

end Blockwork
