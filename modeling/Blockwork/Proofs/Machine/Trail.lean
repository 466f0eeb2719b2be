import Blockwork.Proofs.Machine.Renewal

/-!
# The trail of a run

A run tells its observer of completed blocks only. To speak about what happens inside, this module
runs a chain a second time with a **trail**: a list of marks that says, in order, which chains were
entered, which handlers were invoked and at what depth, which blocks were completed, and where
faults arose and were handed on. A mark names the block by its position in the document.

`Machine.executeAt` does what `Machine.execute` does and writes the trail into the observer's
memory, where no action can see it. So the trail changes nothing (`Machine.recorded_eq`): the
outcome, the state and what the machine's own observer remembers are those of the run.

`pending` reads from a trail which handlers were invoked and have not returned, the innermost
first. `Chain.level` is the static nesting of a position.
-/

namespace Blockwork

/-! ### Nesting of positions -/

namespace Chain

/-- How deep a position is nested: one for the blocks of the program's own chain, and one more for
the blocks in the slots of a block. -/
def level : Position → Nat
  | [] => 0
  | [_] => 1
  | _ :: _ :: inner => level inner + 1

/-- The block in whose slot a position is; that of the program's own chain is in none. -/
def parent (p : Position) : Position := p.dropLast.dropLast

@[simp] theorem level_slot (p : Position) (j i : Nat) : level (p ++ [j] ++ [i]) = level p + 1 := by
  induction p using level.induct with
  | case1 => rfl
  | case2 a => rfl
  | case3 a b inner ih => exact congrArg (· + 1) ih

@[simp] theorem parent_slot (p : Position) (j i : Nat) : parent (p ++ [j] ++ [i]) = p := by
  unfold parent
  rw [List.dropLast_concat, List.dropLast_concat]

end Chain

open Chain (Position)

/-! ### Marks -/

/-- What is noted in a trail. -/
inductive Mark where
  /-- The chain that begins at this position is entered. -/
  | entered (p : Position)
  /-- The block at this position is not dispatched: its chain would nest too deep, or its opcode
  has no route. -/
  | stopped (p : Position) (f : Fault)
  /-- The handler of the block is invoked, in a scope of this depth. -/
  | invoked (p : Position) (depth : Nat)
  /-- The block is completed, and the observer is told of it. -/
  | completed (p : Position) (o : Observation)
  /-- The handler of the block returns with a fault. -/
  | failed (p : Position) (f : Fault)

namespace Mark

/-- What the observer is told. -/
def observation? : Mark → Option Observation
  | completed _ o => some o
  | _ => none

/-- A mark of a fault that arises or is handed on. -/
def isFault : Mark → Bool
  | stopped _ _ => true
  | failed _ _ => true
  | _ => false

/-- The handlers that have not returned, given those before the mark. -/
def pending (stack : List Position) : Mark → List Position
  | invoked p _ => p :: stack
  | completed p _ => stack.erase p
  | failed p _ => stack.erase p
  | _ => stack

end Mark

/-- **The handlers that were invoked and have not returned**, the innermost first. -/
def pending (trail : List Mark) : List Position := trail.foldl Mark.pending []

/-- What an observer is told along a trail. -/
def observations (trail : List Mark) : List Observation := trail.filterMap Mark.observation?

theorem observations_append (trail marks : List Mark) :
    observations (trail ++ marks) = observations trail ++ observations marks :=
  List.filterMap_append

theorem observations_singleton {mark : Mark} (h : mark.observation? = none) :
    observations [mark] = [] :=
  List.filterMap_cons_none h

theorem observations_noted (trail : List Mark) {mark : Mark} (h : mark.observation? = none) :
    observations (trail ++ [mark]) = observations trail := by
  rw [observations_append, observations_singleton h, List.append_nil]

/-- The memory of an observer with a trail, and the position of the block that is being
completed. -/
structure Traced (σ : Type) where
  memory : σ
  place : Position
  trail : List Mark

/-- The setup with an observer that also notes what it is told. -/
def Setup.traced {σ : Type} (setup : Setup σ) : Setup (Traced σ) where
  observer := ⟨fun o t =>
    (⟨(setup.observer.observe o t.memory).1, t.place, t.trail ++ [.completed t.place o]⟩, none)⟩
  limit := setup.limit
  budget := setup.budget

namespace State

variable {α σ : Type}

/-- The state with one mark more. -/
def noted (s : State α (Traced σ)) (mark : Mark) : State α (Traced σ) :=
  { s with memory := { s.memory with trail := s.memory.trail ++ [mark] } }

/-- The state without the trail. -/
def untraced (s : State α (Traced σ)) : State α σ := { s with memory := s.memory.memory }

end State

/-! ### Execution with a trail -/

namespace Machine

variable {σ : Type}

/-- Notes a mark that may depend on the state. -/
def note (mark : State Action (Traced σ) → Mark) : Job (Traced σ) Unit :=
  Run.modify fun s => s.noted (mark s)

/-- Notes the fault of a computation. -/
def noteFault {β : Type} (mark : Fault → Mark) (x : Job (Traced σ) β) : Job (Traced σ) β :=
  fun setup s =>
    match x setup s with
    | (.fault f, s) => (.fault f, s.noted (mark f))
    | other => other

/-- Enters a chain that begins at a position, or stops there. -/
def nestedAt (p : Position) (id : String) (job : Job (Traced σ) Value) : Job (Traced σ) Value :=
  fun setup s =>
    -- the mark is chosen by the test that `nested` makes, and leaves the depth as it is
    nested id job setup (s.noted
      (if setup.limit ≤ s.depth then .stopped p (.tooDeep setup.limit id) else .entered p))

/-- Sets the position of the block that is being completed. -/
def arrive (p : Position) : Job (Traced σ) Unit :=
  Run.modify fun s => { s with memory := { s.memory with place := p } }

/-- Runs the block at a position. -/
def dispatchAt (p : Position) (opcode id : String) (slots : List (Slot Action (Traced σ))) :
    Job (Traced σ) Value := do
  let route ← noteFault (.stopped p) (routed opcode)
  let scope : Scope Action (Traced σ) := ⟨opcode, id, route.module, route.function, slots⟩
  -- the depth that the handler sees is the one it is invoked at
  note fun s => .invoked p s.depth
  let result ← (noteFault (.failed p) (route.handler.perform scope)).mapFault
    (.wrap route.module route.function id)
  -- the observer notes where it is told of the block
  arrive p
  completed scope result
  return result

mutual

/-- Runs a chain whose blocks have the positions `stem ++ [0]`, `stem ++ [1]` and so on. -/
def executeAt (stem : Position) : List Block → Job (Traced σ) Value
  | [] => .done .undefined
  | b :: rest => nestedAt (stem ++ [0]) b.id do
    let v ← executeBlockAt (stem ++ [0]) b
    executeRestAt stem 1 v rest

/-- Runs the rest of a chain, whose first block has place `i`. -/
def executeRestAt (stem : Position) (i : Nat) (v : Value) : List Block → Job (Traced σ) Value
  | [] => .done v
  | b :: rest => do
    let v ← executeBlockAt (stem ++ [i]) b
    executeRestAt stem (i + 1) v rest

/-- Runs one block. -/
def executeBlockAt (p : Position) : Block → Job (Traced σ) Value
  | .mk opcode id members => fun setup s => dispatchAt p opcode id (slotsAt p 0 members) setup s

/-- The slots of the block at a position, the first of which has number `j`. -/
def slotsAt (p : Position) (j : Nat) : List Member → List (Slot Action (Traced σ))
  | [] => []
  | m :: ms => slotAt (p ++ [j]) m :: slotsAt p (j + 1) ms

/-- A slot with the computation behind it. -/
def slotAt (stem : Position) : Member → Slot Action (Traced σ)
  | .expression name chain => .value name (.block chain) (executeAt stem chain)
  | .literal name shadow => .value name (.shadow shadow) (.done (.text shadow.field.value))
  | .statement name chain => .statement name chain (executeAt stem chain)
  | .field f => .field f

end

theorem slotAt_eq (stem : Position) (m : Member) :
    slotAt (σ := σ) stem m = slotWith (executeAt stem) m := by
  cases m <;> rfl

/-- The run of a machine with a trail. -/
def recorded (m : Machine σ) : Outcome Value × State Action (Traced σ) :=
  executeAt [] m.document.entry m.setup.traced
    { m.started with memory := ⟨m.state.memory, [], []⟩ }

/-- **The trail of a run.** -/
def trail (m : Machine σ) : List Mark := m.recorded.2.memory.trail

/-! ### The trail changes nothing -/

/-- A correspondence of a machine with a trail to one without, for which only the observations of
the trail count. -/
structure Untraces {τ : Type} {A : Setup σ} {B : Setup τ} (K : Correspondence A.traced B) :
    Prop where
  noted : ∀ {t : Traced σ} {ν : τ} {mark : Mark}, mark.observation? = none → K.Recalls t ν →
    K.Recalls { t with trail := t.trail ++ [mark] } ν
  placed : ∀ {t : Traced σ} {ν : τ} (p : Position), K.Recalls t ν →
    K.Recalls { t with place := p } ν

section Untraces

variable {τ : Type} {A : Setup σ} {B : Setup τ} {K : Correspondence A.traced B}

theorem alike_noted (hK : Untraces K) {s : State Action (Traced σ)} {t : State Action τ}
    (h : K.Alike s t) {mark : Mark} (hmark : mark.observation? = none) :
    K.Alike (s.noted mark) t :=
  { h with memory := hK.noted hmark h.memory }

theorem pairs_note (hK : Untraces K) {mark : State Action (Traced σ) → Mark}
    (hmark : ∀ s, (mark s).observation? = none) {β γ : Type} {R : β → γ → Prop}
    {x : Job (Traced σ) β} {y : Job τ γ} (hxy : K.Pairs R x y) :
    K.Pairs R (note mark >>= fun _ => x) y :=
  fun s t hst => hxy (s.noted (mark s)) t (alike_noted hK hst (hmark s))

theorem pairs_noteFault (hK : Untraces K) {mark : Fault → Mark}
    (hmark : ∀ f, (mark f).observation? = none) {β γ : Type} {R : β → γ → Prop}
    {x : Job (Traced σ) β} {y : Job τ γ} (hxy : K.Pairs R x y) :
    K.Pairs R (noteFault mark x) y := by
  intro s t hst
  obtain ⟨hout, hstate⟩ := hxy s t hst
  unfold noteFault
  rcases hx : x A.traced s with ⟨b | f | _, s'⟩ <;> rw [hx] at hout hstate
  · exact ⟨hout, hstate⟩
  · exact ⟨hout, alike_noted hK hstate (hmark f)⟩
  · exact ⟨hout, hstate⟩

theorem pairs_nestedAt (hK : Untraces K) (p : Position) (id : String)
    {x : Job (Traced σ) Value} {y : Job τ Value} {R : Value → Value → Prop}
    (hxy : K.Pairs R x y) : K.Pairs R (nestedAt p id x) (nested id y) := by
  intro s t hst
  refine hxy.nested id _ t (alike_noted hK hst ?_)
  split <;> rfl

theorem pairs_dispatchAt (hK : Untraces K) (p : Position) (opcode id : String)
    {slots : List (Slot Action (Traced σ))} {slots' : List (Slot Action τ)}
    (hslots : List.Forall₂ (Slot.Matches K.Pairs K.offset) slots slots') :
    K.Pairs (Value.Shifted K.offset) (dispatchAt p opcode id slots)
      (dispatch opcode id slots') := by
  -- each part of `dispatch` is followed by the marks around it, which the relation drops
  refine (pairs_noteFault hK (fun _ => rfl) (Correspondence.pairs_routed opcode)).andThen ?_
  rintro route _ ⟨rfl, hcounts⟩
  have hscope : Scope.Matches K.Pairs K.offset
      ⟨opcode, id, route.module, route.function, slots⟩
      ⟨opcode, id, route.module, route.function, slots'⟩ := ⟨rfl, rfl, rfl, rfl, hslots⟩
  have hperform := Action.perform_coupled Correspondence.coupled_pairs hscope route.handler hcounts
  refine pairs_note hK (fun _ => rfl) ?_
  refine ((pairs_noteFault hK (fun _ => rfl) hperform).mapFault fun f => ?_).andThen
    fun v w hvw => ?_
  · exact Fault.wrap_shift K.offset route.module route.function id f
  · have hdone := (Correspondence.pairs_completed hscope hvw).andThen fun _ _ _ =>
      Correspondence.coupled_pairs.value hvw
    -- arriving changes the place only, which the relation does not look at
    exact fun s t hst => hdone _ t { hst with memory := hK.placed p hst.memory }

theorem matches_slotsAt (p : Position) {members : List Member}
    (h : ∀ mem ∈ members, ∀ stem, K.Pairs (Value.Shifted K.offset)
      (executeAt stem mem.chain) (execute mem.chain)) (j : Nat) :
    List.Forall₂ (Slot.Matches K.Pairs K.offset) (slotsAt p j members) (slotsOf members) := by
  induction members generalizing j with
  | nil => exact .nil
  | cons mem members ih =>
    refine .cons ?_ (ih (fun mem' hmem' => h mem' (List.mem_cons_of_mem mem hmem')) (j + 1))
    rw [slotAt_eq, slotOf_eq]
    exact Correspondence.matches_slotWith (h mem List.mem_cons_self (p ++ [j]))

/-- A chain does the same with a trail. -/
theorem pairs_executeAt (hK : Untraces K) (c : Chain) (stem : Position) :
    K.Pairs (Value.Shifted K.offset) (executeAt stem c) (execute c) := by
  -- the stem differs from slot to slot, and the result of the block before is carried along
  suffices hboth : ∀ stem,
      K.Pairs (Value.Shifted K.offset) (executeAt stem c) (execute c) ∧
      ∀ i v w, Value.Shifted K.offset v w → K.Pairs (Value.Shifted K.offset)
        (executeRestAt stem i v c) (executeRest w c) from (hboth stem).1
  refine Chain.induction (P := fun c => ∀ stem,
      K.Pairs (Value.Shifted K.offset) (executeAt stem c) (execute c) ∧
      ∀ i v w, Value.Shifted K.offset v w → K.Pairs (Value.Shifted K.offset)
        (executeRestAt stem i v c) (executeRest w c)) ?_ ?_ c
  · intro stem
    exact ⟨Correspondence.coupled_pairs.value rfl,
      fun i v w hvw => Correspondence.coupled_pairs.value hvw⟩
  · intro b rest hslots hrest stem
    have hblock : ∀ p, K.Pairs (Value.Shifted K.offset) (executeBlockAt p b)
        (executeBlock b) := by
      intro p
      obtain ⟨opcode, id, members⟩ := b
      exact pairs_dispatchAt hK p opcode id
        (matches_slotsAt p (fun mem hmem stem => (hslots mem hmem stem).1) 0)
    refine ⟨pairs_nestedAt hK _ b.id ((hblock _).andThen ((hrest stem).2 1)), fun i v w _ => ?_⟩
    exact (hblock _).andThen ((hrest stem).2 (i + 1))

end Untraces

/-- A recorded run corresponds to the run. The memory of the machine's observer is kept, and it is
what the observer makes of the trail. -/
def untracing (m : Machine σ) : Correspondence m.setup.traced m.setup :=
  .ofObservers rfl rfl
    (fun t memory => t.memory = memory ∧
      memory = m.setup.observer.memoryAfter m.state.memory (observations t.trail))
    fun o t memory h => by
      refine ⟨by rw [← h.1]; rfl, ?_⟩
      change _ = m.setup.observer.memoryAfter _ (observations (t.trail ++ [.completed t.place o]))
      rw [observations_append, h.2]
      exact (m.setup.observer.memoryAfter_concat m.state.memory (observations t.trail) o).symm

theorem untraces_untracing (m : Machine σ) : Untraces m.untracing where
  noted := by
    intro t ν mark hmark h
    refine ⟨h.1, h.2.trans ?_⟩
    change _ = m.setup.observer.memoryAfter _ (observations (t.trail ++ [mark]))
    rw [observations_noted t.trail hmark]
  placed _ h := h

theorem ends_recorded (m : Machine σ) :
    m.untracing.Ends (Value.Shifted 0) m.recorded (m.run.1, m.run.2.state) :=
  pairs_executeAt m.untraces_untracing m.document.entry [] _ m.started
    (Correspondence.alike_ofObservers
      ({ m.started with memory := ⟨m.state.memory, [], []⟩ } : State Action (Traced σ))
      ⟨rfl, rfl⟩)

/-- **The recorded run is the run**, but for the trail. -/
theorem recorded_eq (m : Machine σ) :
    m.recorded.1 = m.run.1 ∧ m.recorded.2.untraced = m.run.2.state ∧
    m.run.2.state.memory
      = m.setup.observer.memoryAfter m.state.memory (observations m.trail) := by
  obtain ⟨houtcome, hstate⟩ := m.ends_recorded
  refine ⟨houtcome.eq, ?_, hstate.memory.2⟩
  unfold State.untraced
  rw [hstate.memory.1]
  exact Correspondence.eq_of_alike_ofObservers hstate

/-- A recorded run corresponds to the run under watch: what is told there are the observations of
the trail. -/
def telling (m : Machine σ) : Correspondence m.setup.traced m.watched.setup :=
  .ofObservers rfl rfl (fun t told => told = observations t.trail) fun o t told h => by
    rw [h]
    exact (observations_append t.trail [.completed t.place o]).symm

/-- **What an observer is told** are the observations of the trail. -/
theorem observed_eq (m : Machine σ) : m.observed = observations m.trail := by
  have hK : Untraces m.telling :=
    { noted := fun {t _ _} hmark h => h.trans (observations_noted t.trail hmark).symm
      placed := fun _ h => h }
  exact (pairs_executeAt hK m.document.entry [] _ m.watched.started
    (Correspondence.alike_ofObservers
      ({ m.started with memory := ⟨m.state.memory, [], []⟩ } : State Action (Traced σ))
      rfl)).state.memory

end Machine

end Blockwork
