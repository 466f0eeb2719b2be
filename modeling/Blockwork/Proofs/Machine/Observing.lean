import Blockwork.Journal.Recorder
import Blockwork.Proofs.Machine.Attribution
import Blockwork.Proofs.Machine.Discipline
import Blockwork.Proofs.Value.Unfolding

/-!
# Observing a run

The observer of a run has no part in it. It is told of every completed block, once, and of nothing
else, and whatever it does then, breaking off included, stays in its own memory.

* Machines that differ in their observers do the same, and all observers are told the same
  (`Machine.run_watchedBy`).
* An observer returns, or breaks off, whatever it is told. A recorder whose journal refuses a row is
  one of them as long as it can read out what it is told, which it can unless a list lies inside
  itself (`Recorder.observes_iff`).
* Wherever it is looked at, there is a step for every block that the observer was told of: what a
  chain or a block adds to the one it adds to the other (`Machine.Tallies`).
* A block is observed when all that its handler dispatched has returned, right before the block
  chained to it is dispatched (`Orderly`).

That the blocks around a failed block fail as well is not so where a handler goes on after a fault:
such a handler completes its block, and the observed depth drops by more than one if blocks in
between failed. Standard functions hand every fault on, so with them nothing is observed after a
fault, and the depth never drops by more than one.
-/

namespace Blockwork

open Chain (Position)

/-! ### Recorders -/

/-- No list that is met in the result or in a variable lies inside itself. -/
def Observation.Unfolds (o : Observation) : Prop :=
  o.store.Unfolds o.result ∧ ∀ b ∈ o.heap.bindings, o.store.Unfolds b.2

namespace Recorder

/-- **What a recorder does** when it is told of a block, if it returns. It does nothing if it has
stopped recording. Otherwise it reads the result and the variables to their end, and the journal
takes the row or refuses it. -/
inductive Observes (takes : Nat → Bool) (o : Observation) :
    Recorder × Journal → Recorder × Journal → Prop
  | stopped {r : Recorder} {j : Journal} (h : r.failure.isSome = true) :
    Observes takes o (r, j) (r, j)
  | recorded {r : Recorder} {j : Journal} {result : Datum} {heap : List (String × Datum)}
    (h : r.failure = none) (hresult : o.store.Reads o.result result)
    (hheap : List.Forall₂ (fun b c => b.1 = c.1 ∧ o.store.Reads b.2 c.2) o.heap.bindings heap) :
    Observes takes o (r, j)
      (if takes (r.seq + 1) then
        ({ r with seq := r.seq + 1 }, j.insert (Step.toRow r.run
          ⟨r.seq + 1, o.id, o.opcode, o.module, o.function, o.depth, result, heap⟩))
      else ({ r with seq := r.seq + 1, failure := some (.closed .saving) }, j))

/-- **What a recorder does when it is told of several blocks**, if it returns every time. -/
inductive Watches (takes : Nat → Bool) :
    Recorder × Journal → List Observation → Recorder × Journal → Prop
  | nil {memory : Recorder × Journal} : Watches takes memory [] memory
  | cons {memory memory' memory'' : Recorder × Journal} {o : Observation}
    {told : List Observation} (h : Observes takes o memory memory')
    (hrest : Watches takes memory' told memory'') : Watches takes memory (o :: told) memory''

theorem reads_heap_iff {o : Observation} {heap : List (String × Datum)} :
    List.Forall₂ (fun b c => b.1 = c.1 ∧ o.store.Reads b.2 c.2) o.heap.bindings heap ↔
      (∀ b ∈ o.heap.bindings, o.store.Unfolds b.2) ∧ heap = o.heap.read o.store := by
  have hentry : ∀ (b : String × Value) (c : String × Datum),
      b.1 = c.1 ∧ o.store.Reads b.2 c.2 ↔
        o.store.Unfolds b.2 ∧ (b.1, o.store.read b.2) = c := by
    rintro ⟨name, v⟩ ⟨name', d⟩
    rw [Store.reads_iff, Prod.mk.injEq]
    tauto
  simp only [hentry]
  rw [List.forall₂_and_left, ← List.forall₂_map_left_iff, List.forall₂_eq_eq_eq, @eq_comm _ heap]
  rfl

/-- **A recorder returns** if it has stopped recording or no list lies inside itself, and then it
has done what the observer does that stands for it. -/
theorem observes_iff {takes : Nat → Bool} {o : Observation} {memory memory' : Recorder × Journal} :
    Observes takes o memory memory' ↔
      (memory.1.failure.isSome = true ∨ o.Unfolds) ∧
        memory' = ((observing takes).observe o memory).1 := by
  constructor
  · rintro (h | ⟨h, hresult, hheap⟩)
    · exact ⟨.inl h, (if_pos h).symm⟩
    · obtain ⟨hunfolds, rfl⟩ := reads_heap_iff.1 hheap
      obtain ⟨hunfolds', rfl⟩ := Store.reads_iff.1 hresult
      refine ⟨.inr ⟨hunfolds', hunfolds⟩, ?_⟩
      exact (if_neg (by simp [h])).symm
  · rintro ⟨hreturns, rfl⟩
    obtain ⟨r, j⟩ := memory
    by_cases h : r.failure.isSome = true
    · have hsame : ((observing takes).observe o (r, j)).1 = (r, j) := if_pos h
      rw [hsame]
      exact .stopped h
    · have hunfolds := hreturns.resolve_left h
      have hrecorded : ((observing takes).observe o (r, j)).1 = _ := if_neg h
      rw [hrecorded]
      exact .recorded (by simpa using h) (Store.reads_iff.2 ⟨hunfolds.1, rfl⟩)
        (reads_heap_iff.2 ⟨hunfolds.2, rfl⟩)

/-- It returns every time if no list lies inside itself in anything that it is told. -/
theorem watches_memoryAfter (takes : Nat → Bool) {told : List Observation}
    (h : ∀ o ∈ told, o.Unfolds) (memory : Recorder × Journal) :
    Watches takes memory told ((observing takes).memoryAfter memory told) := by
  induction told generalizing memory with
  | nil => exact .nil
  | cons o told ih =>
    exact .cons (observes_iff.2 ⟨.inr (h o List.mem_cons_self), rfl⟩)
      (ih (fun o' ho' => h o' (List.mem_cons_of_mem o ho')) _)

end Recorder

variable {σ : Type}

namespace Machine

/-! ### Other observers -/

/-- The machine with another observer. -/
def watchedBy {τ : Type} (m : Machine σ) (observer : Observer τ) (memory : τ) : Machine τ where
  document := m.document
  setup := ⟨observer, m.setup.limit, m.setup.budget⟩
  state := { m.state with memory := memory }

/-- **No observer has a part in a run.** Whatever it does, the run ends the same, and what it is
told are the observations of the trail. -/
theorem run_watchedBy {τ : Type} (m : Machine σ) (observer : Observer τ) (memory : τ) :
    (m.watchedBy observer memory).run.1 = m.run.1 ∧
    (m.watchedBy observer memory).run.2.state = { m.run.2.state with
      memory := observer.memoryAfter memory (observations m.trail) } := by
  let K : Correspondence m.setup (m.watchedBy observer memory).setup :=
    .ofObservers rfl rfl (fun _ _ => True) fun _ _ _ _ => trivial
  have hends := ends_run (n := m.watchedBy observer memory) K rfl
    (Correspondence.alike_ofObservers m.started trivial)
  have hmemory : (m.watchedBy observer memory).run.2.state.memory
      = observer.memoryAfter memory m.observed := memory_run (m.watchedBy observer memory)
  refine ⟨hends.outcome.eq.symm, ?_⟩
  rw [← m.observed_eq, ← hmemory]
  exact (Correspondence.eq_of_alike_ofObservers hends.state).symm

/-- Under watch a run ends the same, and leaves the same state but for the memory. -/
theorem run_watched (m : Machine σ) :
    m.watched.run.1 = m.run.1 ∧
    m.watched.run.2.state = { m.run.2.state with memory := m.observed } := by
  obtain ⟨houtcome, hstate⟩ := m.run_watchedBy m.watched.setup.observer []
  have hmemory : m.observed = m.watched.setup.observer.memoryAfter [] (observations m.trail) :=
    congrArg State.memory hstate
  rw [hmemory]
  exact ⟨houtcome, hstate⟩

/-! ### Steps -/

/-- From one state to another the observer was told of these blocks, and as many steps were
made. -/
structure Told (setup : Setup σ) (s s' : State Action σ) (told : List Observation) : Prop where
  steps : s'.steps = s.steps + told.length
  memory : s'.memory = setup.observer.memoryAfter s.memory told

theorem Told.trans {setup : Setup σ} {s s' s'' : State Action σ} {told told' : List Observation}
    (h : Told setup s s' told) (h' : Told setup s' s'' told') :
    Told setup s s'' (told ++ told') where
  steps := by rw [h'.steps, h.steps, List.length_append, Nat.add_assoc]
  memory := by rw [h'.memory, h.memory, Observer.memoryAfter_append]

/-- **Steps and calls of the observer go together** in a computation, from whatever state. -/
def Tallies (β : Type) (x : Job σ β) : Prop :=
  Run.Moves (fun setup s s' => ∃ told, Told setup s s' told) β x

theorem drift_told :
    Run.Drift fun setup (s s' : State Action σ) => ∃ told, Told setup s s' told where
  refl _ _ := ⟨[], rfl, rfl⟩
  trans := by
    rintro setup s s' s'' ⟨told, h⟩ ⟨told', h'⟩
    exact ⟨told ++ told', h.trans h'⟩
  assign _ _ _ _ _ _ := ⟨[], rfl, rfl⟩
  store _ _ _ := ⟨[], rfl, rfl⟩
  events _ _ _ := ⟨[], rfl, rfl⟩
  counter _ _ _ := ⟨[], rfl, rfl⟩

/-- No part of an action makes a step or tells the observer anything by itself. -/
theorem closed_tallies : Run.Closed (Tallies (σ := σ)) := drift_told.closed

/-- Completing a block is one step, and the observer is told of the block. -/
theorem told_completed (scope : Scope Action σ) (v : Value) (setup : Setup σ)
    (s : State Action σ) :
    ∃ o, Told setup s (completed scope v setup s).2 [o] ∧
      o.id = scope.id ∧ o.opcode = scope.opcode ∧ o.result = v :=
  ⟨_, ⟨rfl, rfl⟩, rfl, rfl, rfl⟩

/-- **A block is told of when it has a result**, after all that was told of inside. -/
theorem told_handled (b : Block) (route : Route Action)
    (hscope : (scopeOf (σ := σ) b route).Holds Tallies) (setup : Setup σ) (s : State Action σ) :
    ∃ told, Told setup s (handled b route setup s).2 told ∧
      ∀ v, (handled b route setup s).1 = .value v →
        ∃ o, told.getLast? = some o ∧ o.id = b.id ∧ o.opcode = b.opcode ∧ o.result = v := by
  obtain ⟨told, htold⟩ := Action.perform_closed closed_tallies hscope route.handler setup s
  unfold handled
  rw [Run.bind_apply]
  unfold Run.mapFault
  rcases hout : route.handler.perform (scopeOf b route) setup s with ⟨v | f | _, s'⟩ <;>
    rw [hout] at htold
  · obtain ⟨o, hdone, hid, hopcode, hresult⟩ := told_completed (scopeOf b route) v setup s'
    refine ⟨told ++ [o], htold.trans hdone, fun w hw => ⟨o, List.getLast?_concat, hid, hopcode, ?_⟩⟩
    exact hresult.trans (Outcome.value.inj hw)
  · exact ⟨told, htold, fun w hw => absurd hw (by simp)⟩
  · exact ⟨told, htold, fun w hw => absurd hw (by simp)⟩

/-- **Steps are what the observer was told of**, in every chain and from every state. -/
theorem tallies_execute (c : Chain) : Tallies Value (execute (σ := σ) c) := by
  refine moves_execute drift_told ?_ (fun _ _ _ => ⟨[], rfl, rfl⟩) ?_ c
  · rintro setup s s' d d' ⟨told, htold⟩
    exact ⟨told, htold.steps, htold.memory⟩
  · -- the completion is the only part that makes a step
    intro scope v setup s
    obtain ⟨o, htold, -⟩ := told_completed scope v setup s
    exact ⟨[o], htold⟩

theorem tallies_slotsOf (members : List Member) :
    ∀ slot ∈ slotsOf (σ := σ) members, slot.Holds Tallies := by
  rw [slotsOf_eq_map]
  intro slot hslot
  obtain ⟨member, -, rfl⟩ := List.mem_map.1 hslot
  exact holds_slotOf closed_tallies.done (tallies_execute member.chain)

/-- What a block adds to what the observer was told. -/
theorem told_executeBlock (b : Block) (setup : Setup σ) (s : State Action σ) :
    ∃ told, Told setup s (executeBlock b setup s).2 told ∧
      ∀ v, (executeBlock b setup s).1 = .value v →
        ∃ o, told.getLast? = some o ∧ o.id = b.id ∧ o.opcode = b.opcode ∧ o.result = v := by
  rw [executeBlock_apply]
  cases (s.registry.resolve b.opcode).1 with
  | ok route =>
    obtain ⟨told, htold, hlast⟩ := told_handled b route (tallies_slotsOf b.members) setup
      (afterRouting s b.opcode)
    exact ⟨told, ⟨htold.steps, htold.memory⟩, hlast⟩
  | error e => exact ⟨[], ⟨rfl, rfl⟩, fun v hv => absurd hv (by simp)⟩

end Machine

/-! ### The order of observations -/

/-- The block at a position is dispatched. -/
def Mark.Dispatches (p : Position) : Mark → Prop
  | invoked q _ => q = p
  | stopped q _ => q = p
  | _ => False

/-- **When blocks are observed.** A handler returns, and its block is observed or has failed, when
the handlers that it had invoked have returned. A block that is chained to another one is dispatched
right after that one is observed. From one observation to the next the depth drops by one at most,
unless there was a fault in between. -/
structure Orderly (trail : List Mark) : Prop where
  completed : ∀ {before after : List Mark} {p : Position} {o : Observation},
    trail = before ++ .completed p o :: after →
    ∃ earlier depth inner, before = earlier ++ .invoked p depth :: inner ∧ Balanced inner
  failed : ∀ {before after : List Mark} {p : Position} {f : Fault},
    trail = before ++ .failed p f :: after →
    ∃ earlier depth inner, before = earlier ++ .invoked p depth :: inner ∧ Balanced inner
  chained : ∀ {before after : List Mark} {mark : Mark} {stem : Position} {i : Nat},
    trail = before ++ mark :: after → mark.Dispatches (stem ++ [i + 1]) →
    ∃ earlier o, before = earlier ++ [.completed (stem ++ [i]) o]
  depth_le : ∀ {before between after : List Mark} {p q : Position} {o o' : Observation},
    trail = before ++ .completed p o :: (between ++ .completed q o' :: after) →
    (∀ mark ∈ between, mark.isFault = false ∧ mark.observation? = none) → o.depth ≤ o'.depth + 1

theorem Lawful.orderly {trail : List Mark} (h : Lawful trail) : Orderly trail where
  completed := by
    intro before after p o htrail
    exact (htrail ▸ h).exists_invoked (h before _ after htrail).1
  failed := by
    intro before after p f htrail
    exact (htrail ▸ h).exists_invoked (h before _ after htrail)
  chained := by
    intro before after mark stem i htrail hmark
    -- the discipline allows a later block of a chain only after the one before it
    have hsucceeds : Succeeds before (stem ++ [i + 1]) := by
      have hallowed := h before mark after htrail
      cases mark with
      | invoked q depth =>
        obtain rfl : q = stem ++ [i + 1] := hmark
        exact hallowed
      | stopped q f =>
        obtain rfl : q = stem ++ [i + 1] := hmark
        exact hallowed
      | _ => exact hmark.elim
    obtain ⟨depth, earlier, o, hbefore, -⟩ := hsucceeds stem i rfl
    exact ⟨earlier, o, hbefore⟩
  depth_le := by
    intro before between after p q o o' htrail hquiet
    exact (htrail ▸ h).depth_le hquiet

namespace Machine

variable {m : Machine σ}

/-! ### Standard functions -/

/-- With standard functions a run goes without a fault up to some point, and from there on there
are marks of its fault only. -/
theorem Accounted.parts (h : m.Accounted) :
    ∃ calm fails, m.trail = calm ++ fails ∧ (∀ mark ∈ calm, mark.isFault = false) ∧
      ∀ mark ∈ fails, mark.isFault = true := by
  have hcourse := h.course
  rcases hout : m.run.1 with v | f | _ <;> rw [hout] at hcourse
  · exact ⟨m.trail, [], (List.append_nil _).symm, hcourse.calm,
      fun _ hmark => absurd hmark List.not_mem_nil⟩
  · generalize m.trail = trail at hcourse
    cases hcourse with
    | @bare calm origin hsmooth hhalts =>
      exact ⟨calm, origin, rfl, hsmooth.calm, hhalts.arises.isFault⟩
    | @blamed calm origin q outer b route cause hsmooth harises hfound hf =>
      exact ⟨calm, _, rfl, hsmooth.calm, List.forall_mem_append.2
        ⟨harises.isFault, isFault_of_mem_failures q outer cause f⟩⟩
  · exact ⟨m.trail, [], (List.append_nil _).symm, hcourse,
      fun _ hmark => absurd hmark List.not_mem_nil⟩

/-- **After a fault nothing is observed**, the blocks around the failed one included. -/
theorem Accounted.observations_after (h : m.Accounted) {before after : List Mark} {mark : Mark}
    (htrail : m.trail = before ++ mark :: after) (hfault : mark.isFault = true) :
    observations after = [] := by
  obtain ⟨calm, fails, hparts, hcalm, hfails⟩ := h.parts
  rw [hparts] at htrail
  -- a mark of a fault is in the second part, and so is what comes after it
  rcases List.append_eq_append_iff.1 htrail with ⟨rest, -, hrest⟩ | ⟨rest, hrest, htail⟩
  · refine observations_of_isFault fun mark' hmark' => hfails mark' ?_
    rw [hrest]
    exact List.mem_append_right _ (List.mem_cons_of_mem _ hmark')
  · cases rest with
    | nil =>
      refine observations_of_isFault fun mark' hmark' => hfails mark' ?_
      rw [← List.nil_append fails, ← htail]
      exact List.mem_cons_of_mem _ hmark'
    | cons mark' rest =>
      obtain ⟨rfl, -⟩ := List.cons.inj htail
      have hnot := hcalm mark (hrest ▸ List.mem_append_right _ List.mem_cons_self)
      exact absurd (hfault.symm.trans hnot) (by simp)

theorem Accounted.isChain (h : m.Accounted) (hlawful : Lawful m.trail) :
    (observations m.trail).IsChain fun o o' => o.depth ≤ o'.depth + 1 := by
  obtain ⟨calm, fails, hparts, hcalm, hfails⟩ := h.parts
  rw [hparts, observations_append, observations_of_isFault hfails, List.append_nil]
  rw [hparts] at hlawful
  exact hlawful.of_append.isChain hcalm

/-! ### The statement -/

/-- **Observation is faithful and harmless.** Of a run, after any history:

* with any other observer, one that breaks off included, it ends the same and leaves the same state,
  and every observer is told the same;
* a recorder, whatever rows its journal refuses, is such an observer if no list that is met in what
  it is told lies inside itself: it returns every time, and with the memory that the run ends with;
* it makes a step for every block that the observer is told of, and so does every chain and every
  block inside it, from whatever state; a block that has a result is told of last of all;
* its observations come in order, and when it has ended every handler that was invoked has returned
  once, its block being observed or having failed;
* the last observation of a run with a result is of depth one;
* with standard functions nothing is observed after a fault, and the observed depth drops by one at
  most from step to step. -/
theorem observation_discipline {document : Document} (hm : m.Reached document) :
    (∀ {τ : Type} (observer : Observer τ) (memory : τ),
      (m.watchedBy observer memory).run.1 = m.run.1 ∧
      (m.watchedBy observer memory).run.2.state = { m.run.2.state with
        memory := observer.memoryAfter memory (observations m.trail) }) ∧
    (∀ (takes : Nat → Bool) (memory : Recorder × Journal),
      (∀ o ∈ observations m.trail, o.Unfolds) →
      Recorder.Watches takes memory (observations m.trail)
        (m.watchedBy (Recorder.observing takes) memory).run.2.state.memory) ∧
    (m.run.2.state.steps = (observations m.trail).length ∧
      (∀ c, Tallies Value (execute (σ := σ) c)) ∧
      ∀ (b : Block) (setup : Setup σ) (s : State Action σ),
        ∃ told, Told setup s (executeBlock b setup s).2 told ∧
          ∀ v, (executeBlock b setup s).1 = .value v →
            ∃ o, told.getLast? = some o ∧ o.id = b.id ∧ o.opcode = b.opcode ∧ o.result = v) ∧
    (Orderly m.trail ∧
      (m.run.1 ≠ .unfinished → ∀ p, m.trail.countP (Mark.invokes p)
        = m.trail.countP (Mark.observes p) + m.trail.countP (Mark.fails p))) ∧
    (∀ v, m.run.1 = .value v → ∀ o, (observations m.trail).getLast? = some o → o.depth = 1) ∧
    (m.state.registry.all (fun a => !a.isProbe) = true →
      (∀ before mark after, m.trail = before ++ mark :: after → mark.isFault = true →
        observations after = []) ∧
      (observations m.trail).IsChain fun o o' => o.depth ≤ o'.depth + 1) := by
  obtain ⟨hlawful, hsteps⟩ := hm.sound
  refine ⟨fun observer memory => m.run_watchedBy observer memory,
    fun takes memory hunfolds => ?_, ⟨hsteps, tallies_execute, told_executeBlock⟩,
    ⟨hlawful.orderly, fun hend p => ?_⟩, fun v hv o ho => hm.last_depth hv ho,
    fun hstandard => ?_⟩
  · rw [(m.run_watchedBy (Recorder.observing takes) memory).2]
    exact Recorder.watches_memoryAfter takes hunfolds memory
  · rw [hlawful.countP_invokes p, hm.pending_eq hend]
    exact Nat.add_zero _
  · have haccount := hm.accounted hstandard
    exact ⟨fun _ _ _ htrail hfault => haccount.observations_after htrail hfault,
      haccount.isChain hlawful⟩

/-! ### A handler that goes on after a fault -/

/-- A block that runs two others, of which the second fails. -/
def breaking : Block :=
  .mk "probe_exec" "b" [.field ⟨"NAME", "", "S", ""⟩,
    .statement "S" [.mk "probe_typed" "c" [], .mk "probe_fail" "d" []]]

/-- A script with a block that goes on after the fault of the first one. -/
def recovering : Document :=
  ⟨[], [.mk "probe_try" "a" [.field ⟨"NAME", "", "S", ""⟩, .statement "S" [breaking]]], []⟩

/-- A machine for it, with an observer that keeps the depths. -/
def recoveringMachine : Machine (List (String × Nat)) :=
  create recovering ⟨⟨fun o told => (told ++ [(o.id, o.depth)], none)⟩, 10, 10⟩
    [("probe", Blocks.probeTable)] []

theorem started_recovering : recoveringMachine.started = { recoveringMachine.started with
    registry := ⟨[("probe", Blocks.probeTable)], ["probe"], []⟩ } := started_create_singleton ..

theorem told_recovering : (observations recoveringMachine.trail).map (fun o => (o.id, o.depth))
    = [("c", 3), ("a", 1)] := by
  unfold trail recorded
  rw [started_recovering]
  decide +kernel

/-- The outer block is observed although a block inside it failed, and so the depth drops by two. -/
theorem depth_drops_by_two :
    recoveringMachine.trail.countP (Mark.fails [0, 1, 0, 1, 1]) = 1 ∧
    recoveringMachine.trail.countP (Mark.observes [0]) = 1 ∧
    ¬ (observations recoveringMachine.trail).IsChain fun o o' => o.depth ≤ o'.depth + 1 := by
  unfold trail recorded
  rw [started_recovering]
  decide +kernel

theorem started_collecting : collectingMachine.started = { collectingMachine.started with
    registry := ⟨[("data", Blocks.dataTable)], ["data"], []⟩ } := started_create_singleton ..

theorem told_collecting :
    (observations collectingMachine.trail).map (fun o => (o.result, o.heap.bindings, o.store))
      = [(.undefined, [("items", .list ⟨0⟩)], ⟨#[#[.text "x"]]⟩)] := by
  unfold trail recorded
  rw [started_collecting]
  decide +kernel

theorem unfolds_collecting : ∀ o ∈ observations collectingMachine.trail, o.Unfolds := by
  intro o ho
  have htold := List.mem_map_of_mem (f := fun o : Observation =>
    (o.result, o.heap.bindings, o.store)) ho
  rw [told_collecting, List.mem_singleton, Prod.mk.injEq, Prod.mk.injEq] at htold
  obtain ⟨hresult, hbindings, hstore⟩ := htold
  unfold Observation.Unfolds
  rw [hresult, hbindings, hstore]
  refine ⟨Store.Reads.undefined.unfolds, fun b hb => ?_⟩
  rw [List.mem_singleton.1 hb]
  refine (Store.Reads.list (fun _ => .text "x") fun v hv => ?_).unfolds
  obtain rfl : v = .text "x" := by simpa [Store.items] using hv
  exact .text "x"

/-- The steps of that run, whoever observes it, and the order of its observations. A run with
standard functions that fails has nothing to observe after its fault. A recorder whose journal
refuses the first row returns from a run in which a list is filled. -/
theorem observation_discipline_recovering :
    recoveringMachine.run.2.state.steps = 2 ∧
    (recoveringMachine.watchedBy .silent ()).run.2.state.steps = 2 ∧
    Orderly recoveringMachine.trail ∧
    (∀ before mark after, misspeltMachine.trail = before ++ mark :: after → mark.isFault = true →
      observations after = []) ∧
    Recorder.Watches (fun _ => false) (⟨"r", 0, none⟩, {}) (observations collectingMachine.trail)
      (collectingMachine.watchedBy (Recorder.observing fun _ => false)
        (⟨"r", 0, none⟩, {})).run.2.state.memory := by
  have hreached : recoveringMachine.Reached recovering := ⟨_, _, _, [], rfl⟩
  have hstandard : misspeltMachine.Reached misspelt := ⟨_, _, _, [], rfl⟩
  have hcollecting : collectingMachine.Reached collecting := ⟨_, _, _, [], rfl⟩
  obtain ⟨hharmless, -, ⟨hsteps, -⟩, ⟨horderly, -⟩, -⟩ := observation_discipline hreached
  obtain ⟨-, -, -, -, -, hfault⟩ := observation_discipline hstandard
  obtain ⟨-, hwatches, -⟩ := observation_discipline hcollecting
  have htwo : recoveringMachine.run.2.state.steps = 2 := by
    rw [hsteps, ← List.length_map (fun o : Observation => (o.id, o.depth)), told_recovering]
    rfl
  refine ⟨htwo, ?_, horderly, (hfault rfl).1, hwatches _ _ unfolds_collecting⟩
  rw [(hharmless .silent ()).2]
  exact htwo

/-! ### A list inside itself -/

/-- A script that adds a list to itself. -/
def swallowing : Document :=
  ⟨[⟨"x", "", "", false, false⟩],
    [.mk "data_addtolist" "a" [.field ⟨"LIST", "", "x", ""⟩,
      .expression "ITEM" [.mk "data_variable" "b" [.field ⟨"VARIABLE", "", "x", ""⟩]]]], []⟩

/-- A machine for it. -/
def swallowingMachine : Machine Unit :=
  create swallowing ⟨.silent, 10, 10⟩ [("data", Blocks.dataTable)] ()

theorem started_swallowing : swallowingMachine.started = { swallowingMachine.started with
    registry := ⟨[("data", Blocks.dataTable)], ["data"], []⟩ } := started_create_singleton ..

theorem told_swallowing :
    (observations swallowingMachine.trail).map (fun o => (o.id, o.heap.bindings, o.store))
      = [("b", [("x", .list ⟨0⟩)], ⟨#[#[]]⟩), ("a", [("x", .list ⟨0⟩)], ⟨#[#[.list ⟨0⟩]]⟩)] := by
  unfold trail recorded
  rw [started_swallowing]
  decide +kernel

/-- From the second block of that run a recorder does not return. -/
theorem not_observes_swallowing :
    ∃ o ∈ observations swallowingMachine.trail, o.id = "a" ∧
      ∀ (takes : Nat → Bool) (memory memory' : Recorder × Journal),
        memory.1.failure = none → ¬ Recorder.Observes takes o memory memory' := by
  have hlast : ("a", [("x", Value.list ⟨0⟩)], Store.mk #[#[.list ⟨0⟩]])
      ∈ (observations swallowingMachine.trail).map (fun o => (o.id, o.heap.bindings, o.store)) := by
    rw [told_swallowing]
    exact List.mem_cons_of_mem _ List.mem_cons_self
  obtain ⟨o, ho, heq⟩ := List.mem_map.1 hlast
  rw [Prod.mk.injEq, Prod.mk.injEq] at heq
  obtain ⟨hid, hbindings, hstore⟩ := heq
  refine ⟨o, ho, hid, fun takes memory memory' hrecording hobserves => ?_⟩
  have hunfolds : o.Unfolds :=
    (Recorder.observes_iff.1 hobserves).1.resolve_left (by simp [hrecording])
  have hx := hunfolds.2 ("x", .list ⟨0⟩) (by rw [hbindings]; exact List.mem_cons_self)
  -- the one item of the list is the list
  refine hx _ .refl (.single ⟨⟨0⟩, rfl, ?_⟩)
  rw [hstore]
  simp [Store.items]

end Machine

end Blockwork
