import Blockwork.Proofs.Machine.Detachment
import Blockwork.Proofs.Machine.Renewal

/-!
# The calls of a run

A **call** is a block from its dispatch to its end, with the calls that are made in between: those
of the blocks in its slots, as often as its handler asks for them. A call ends with a value, with a
fault or not at all, and it keeps the variables and the lists as they were at its dispatch and at
its end. The calls of a run are a forest, and read from left to right they are the **moments** of
the run, each the dispatch or the end of a block.

As with a trail, the calls are written into the observer's memory by a second way to execute chains
(`Machine.executeCalling`), and nothing else changes: the outcome and the state are those of the run
(`Machine.calling_eq`). Unlike the marks of a trail, calls nest by construction, so that what happens
inside a call is a part of it.
-/

namespace Blockwork

/-! ### Calls and moments -/

/-- A block that is dispatched, with the variables and the lists at that moment. -/
structure Dispatch where
  block : Block
  before : LiveHeap

/-- **A call**: a dispatch, the calls inside, and the variables and the lists at the end. -/
inductive Call where
  | mk (dispatch : Dispatch) (inner : List Call) (after : LiveHeap)

/-- A dispatch, or the end of a call. -/
inductive Moment where
  | begun (d : Dispatch)
  | ended (d : Dispatch) (after : LiveHeap)

namespace Moment

/-- The variables and the lists at the moment. -/
def live : Moment → LiveHeap
  | begun d => d.before
  | ended _ after => after

/-- The dispatch that the moment is. -/
def begun? : Moment → Option Dispatch
  | begun d => some d
  | ended _ _ => none

/-- The dispatch whose end the moment is. -/
def ended? : Moment → Option Dispatch
  | begun _ => none
  | ended d _ => some d

theorem eq_begun {m : Moment} {d : Dispatch} (h : d ∈ m.begun?) : m = .begun d := by
  cases m with
  | begun d' => rw [Option.some.inj h]
  | ended _ _ => exact absurd h nofun

theorem eq_ended {m : Moment} {d : Dispatch} (h : d ∈ m.ended?) : ∃ after, m = .ended d after := by
  cases m with
  | begun _ => exact absurd h nofun
  | ended d' after => exact ⟨after, by rw [Option.some.inj h]⟩

theorem before_of_mem_begun? {m : Moment} {d : Dispatch} (h : d ∈ m.begun?) :
    d.before = m.live := by
  rw [eq_begun h]
  rfl

end Moment

namespace Call

def dispatch : Call → Dispatch
  | mk d _ _ => d

def inner : Call → List Call
  | mk _ inner _ => inner

def after : Call → LiveHeap
  | mk _ _ after => after

mutual

/-- The moments of a call: its dispatch, those of the calls inside, and its end. -/
def moments : Call → List Moment
  | mk d inner after => .begun d :: (momentsOf inner ++ [.ended d after])

/-- The moments of several calls. -/
def momentsOf : List Call → List Moment
  | [] => []
  | c :: cs => c.moments ++ momentsOf cs

end

mutual

/-- A call and all calls inside. -/
def all : Call → List Call
  | mk d inner after => mk d inner after :: allOf inner

/-- Several calls and all calls inside. -/
def allOf : List Call → List Call
  | [] => []
  | c :: cs => c.all ++ allOf cs

end

/-- **Induction on forests of calls.** -/
theorem induction {P : List Call → Prop} (nil : P [])
    (cons : ∀ (d : Dispatch) (inner : List Call) (after : LiveHeap) (cs : List Call), P inner →
      P cs → P (.mk d inner after :: cs)) (cs : List Call) : P cs := by
  have hinner : ∀ c : Call, P c.inner := by
    intro c
    -- the recursor of the nested type, with the property at both of its levels
    refine Call.rec (motive_1 := fun c => P c.inner) (motive_2 := fun cs => P cs) ?_ ?_ ?_ c
    · exact fun _ _ _ h => h
    · exact nil
    · rintro ⟨d, inner, after⟩ cs hc hcs
      exact cons d inner after cs hc hcs
  induction cs with
  | nil => exact nil
  | cons c cs ih =>
    obtain ⟨d, inner, after⟩ := c
    exact cons d inner after cs (hinner (.mk d inner after)) ih

theorem momentsOf_append (cs cs' : List Call) :
    momentsOf (cs ++ cs') = momentsOf cs ++ momentsOf cs' := by
  induction cs with
  | nil => rfl
  | cons c cs ih =>
    rw [List.cons_append, momentsOf, momentsOf, ih, List.append_assoc]

theorem allOf_append (cs cs' : List Call) : allOf (cs ++ cs') = allOf cs ++ allOf cs' := by
  induction cs with
  | nil => rfl
  | cons c cs ih =>
    rw [List.cons_append, allOf, allOf, ih, List.append_assoc]

theorem momentsOf_singleton (c : Call) : momentsOf [c] = c.moments := by
  rw [momentsOf, momentsOf, List.append_nil]

/-- The moments of a call inside are a stretch of those of the whole. -/
theorem moments_infix {c : Call} {cs : List Call} (h : c ∈ allOf cs) :
    ∃ earlier later, momentsOf cs = earlier ++ c.moments ++ later := by
  induction cs using Call.induction with
  | nil => exact absurd h List.not_mem_nil
  | cons d inner after cs hinner hcs =>
    rw [allOf, all, List.cons_append, List.mem_cons, List.mem_append] at h
    rcases h with rfl | h | h
    · exact ⟨[], momentsOf cs, rfl⟩
    · obtain ⟨earlier, later, hsplit⟩ := hinner h
      refine ⟨.begun d :: earlier, later ++ [.ended d after] ++ momentsOf cs, ?_⟩
      rw [momentsOf, moments, hsplit]
      simp only [List.cons_append, List.append_assoc]
    · obtain ⟨earlier, later, hsplit⟩ := hcs h
      refine ⟨moments (.mk d inner after) ++ earlier, later, ?_⟩
      rw [momentsOf, hsplit]
      simp only [List.append_assoc]

/-- What ends in a forest of calls was dispatched in it. -/
theorem begun_of_ended {cs : List Call} {d : Dispatch} {after : LiveHeap}
    (h : .ended d after ∈ momentsOf cs) : .begun d ∈ momentsOf cs := by
  induction cs using Call.induction with
  | nil => exact absurd h List.not_mem_nil
  | cons d' inner after' cs hinner hcs =>
    rw [momentsOf, moments] at h ⊢
    rcases List.mem_append.1 h with h | h
    · refine List.mem_append_left _ ?_
      rcases List.mem_cons.1 h with h | h
      · exact absurd h nofun
      rcases List.mem_append.1 h with h | h
      · exact List.mem_cons_of_mem _ (List.mem_append_left _ (hinner h))
      · obtain ⟨rfl, -⟩ := Moment.ended.inj (List.mem_singleton.1 h)
        exact List.mem_cons_self
    · exact List.mem_append_right _ (hcs h)

end Call

/-! ### Execution with calls -/

/-- The memory of an observer with the calls so far. -/
structure Calling (σ : Type) where
  memory : σ
  calls : List Call

/-- The setup with an observer that leaves the calls alone. -/
def Setup.calling {σ : Type} (setup : Setup σ) : Setup (Calling σ) where
  observer := ⟨fun o t => (⟨(setup.observer.observe o t.memory).1, t.calls⟩, none)⟩
  limit := setup.limit
  budget := setup.budget

namespace State

variable {α σ : Type}

/-- The variables and the lists. -/
def live (s : State α σ) : LiveHeap := ⟨s.heap, s.store⟩

/-- The state with these calls. -/
def withCalls (s : State α (Calling σ)) (calls : List Call) : State α (Calling σ) :=
  { s with memory := { s.memory with calls := calls } }

/-- The state without the calls. -/
def uncalled (s : State α (Calling σ)) : State α σ := { s with memory := s.memory.memory }

end State

namespace Machine

variable {σ : Type}

/-- Runs a block and adds its call. What it adds itself are the calls inside. -/
def called (b : Block) (job : Job (Calling σ) Value) : Job (Calling σ) Value := fun setup s =>
  let (outcome, s') := job setup (s.withCalls [])
  (outcome, s'.withCalls (s.memory.calls ++ [.mk ⟨b, s.live⟩ s'.memory.calls s'.live]))

mutual

/-- Runs a chain of blocks. -/
def executeCalling : List Block → Job (Calling σ) Value
  | [] => .done .undefined
  | b :: rest => nested b.id do
    let v ← executeBlockCalling b
    executeRestCalling v rest

/-- Runs the rest of a chain. -/
def executeRestCalling (v : Value) : List Block → Job (Calling σ) Value
  | [] => .done v
  | b :: rest => do
    let v ← executeBlockCalling b
    executeRestCalling v rest

/-- Runs one block. -/
def executeBlockCalling : Block → Job (Calling σ) Value
  | .mk opcode id members =>
    called (.mk opcode id members) fun setup s => dispatch opcode id (slotsCalling members) setup s

/-- The slots of a block. -/
def slotsCalling : List Member → List (Slot Action (Calling σ))
  | [] => []
  | m :: ms => slotCalling m :: slotsCalling ms

/-- A slot with the computation behind it. -/
def slotCalling : Member → Slot Action (Calling σ)
  | .expression name chain => .value name (.block chain) (executeCalling chain)
  | .literal name shadow => .value name (.shadow shadow) (.done (.text shadow.field.value))
  | .statement name chain => .statement name chain (executeCalling chain)
  | .field f => .field f

end

theorem slotsCalling_eq_map (members : List Member) :
    slotsCalling (σ := σ) members = members.map (slotWith executeCalling) := by
  induction members with
  | nil => rfl
  | cons m members ih =>
    rw [slotsCalling, ih, List.map_cons]
    cases m <;> rfl

/-- The run of a machine with its calls. -/
def calling (m : Machine σ) : Outcome Value × State Action (Calling σ) :=
  executeCalling m.document.entry m.setup.calling { m.started with memory := ⟨m.state.memory, []⟩ }

/-- **The calls of a run**: those of the blocks of the document's own chain, with the calls
inside. -/
def calls (m : Machine σ) : List Call := m.calling.2.memory.calls

/-! ### The calls change nothing -/

/-- A run with calls corresponds to the run. -/
def uncalling (m : Machine σ) : Correspondence m.setup.calling m.setup :=
  .ofObservers rfl rfl (fun t memory => t.memory = memory) fun o t memory h => by
    change (m.setup.observer.observe o t.memory).1 = _
    rw [h]

variable {m : Machine σ}

theorem pairs_called (b : Block) {x : Job (Calling σ) Value} {y : Job σ Value}
    {R : Value → Value → Prop} (hxy : m.uncalling.Pairs R x y) :
    m.uncalling.Pairs R (called b x) y := by
  intro s t hst
  obtain ⟨houtcome, hstate⟩ := hxy (s.withCalls []) t { hst with memory := hst.memory }
  exact ⟨houtcome, { hstate with memory := hstate.memory }⟩

/-- A chain does the same with calls. -/
theorem pairs_executeCalling (c : Chain) :
    m.uncalling.Pairs (Value.Shifted m.uncalling.offset) (executeCalling c) (execute c) := by
  -- along a chain the result of the block before is carried, so both forms are proved at once
  suffices hboth :
      m.uncalling.Pairs (Value.Shifted m.uncalling.offset) (executeCalling c) (execute c) ∧
      ∀ v w, Value.Shifted m.uncalling.offset v w →
        m.uncalling.Pairs (Value.Shifted m.uncalling.offset) (executeRestCalling v c)
          (executeRest w c) from hboth.1
  refine Chain.induction (P := fun c =>
      m.uncalling.Pairs (Value.Shifted m.uncalling.offset) (executeCalling c) (execute c) ∧
      ∀ v w, Value.Shifted m.uncalling.offset v w →
        m.uncalling.Pairs (Value.Shifted m.uncalling.offset) (executeRestCalling v c)
          (executeRest w c)) ?_ ?_ c
  · exact ⟨Correspondence.coupled_pairs.value rfl,
      fun v w hvw => Correspondence.coupled_pairs.value hvw⟩
  · intro b rest hslots hrest
    have hblock : m.uncalling.Pairs (Value.Shifted m.uncalling.offset) (executeBlockCalling b)
        (executeBlock b) := by
      obtain ⟨opcode, id, members⟩ := b
      refine pairs_called _ (Correspondence.pairs_dispatch opcode id ?_)
      rw [slotsCalling_eq_map, slotsOf_eq_map, List.forall₂_map_left_iff,
        List.forall₂_map_right_iff, List.forall₂_same]
      intro mem hmem
      rw [slotOf_eq]
      exact Correspondence.matches_slotWith (hslots mem hmem).1
    exact ⟨(hblock.andThen hrest.2).nested b.id, fun v w _ => hblock.andThen hrest.2⟩

/-- **The run with calls is the run**, but for the calls. -/
theorem calling_eq (m : Machine σ) :
    m.calling.1 = m.run.1 ∧ m.calling.2.uncalled = m.run.2.state := by
  have hstart : m.uncalling.Alike { m.started with memory := ⟨m.state.memory, []⟩ } m.started :=
    Correspondence.alike_ofObservers
      ({ m.started with memory := ⟨m.state.memory, []⟩ } : State Action (Calling σ)) rfl
  obtain ⟨houtcome, hstate⟩ := pairs_executeCalling m.document.entry _ m.started hstart
  refine ⟨houtcome.eq, ?_⟩
  have hmemory : m.calling.2.memory.memory = m.run.2.state.memory := hstate.memory
  unfold State.uncalled
  rw [hmemory]
  exact Correspondence.eq_of_alike_ofObservers hstate

end Machine

end Blockwork
