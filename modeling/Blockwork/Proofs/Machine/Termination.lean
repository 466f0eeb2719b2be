import Blockwork.Proofs.Machine.Footprint
import Blockwork.Proofs.Machine.Limits

/-!
# Programs that count end

A loop that counts settles its count before the first iteration, and a count is less than `2 ^ 63`
whatever the number was that it is made of: a huge one, an infinite one, a fraction or none. What the
body does to the variables of the count comes too late. So the syntax tree bounds the run: a chain
dispatches no more blocks than `Chain.bound` says, which multiplies by the greatest count where a
loop counts, and by two where another block has slots.

`Run.EndsWithin` says of a computation, and `Run.Bounded` from every state, that it ends with a value
or a fault, that the budget of the setup has no part in it, and that it adds no more than so many
calls. With the counts of `Run.Plain` this goes from the slots of a block to its action, and so up
the tree. The depth limit may be any, since refusing a chain only makes a run shorter.
-/

namespace Blockwork

variable {σ : Type}

/-! ### Bounds from the syntax tree -/

/-- The opcodes of loops without a count. -/
def Blocks.openLoopOpcodes : List String :=
  ["control_repeat_until", "control_while", "control_forever", "control_wait_until"]

/-- How often a block with the opcode runs slots, at most, if it is no loop without a count. -/
def Blocks.repetitions (opcode : String) : Nat :=
  if opcode = "control_repeat" then 2 ^ 63 else 2

/-- What the opcode of a standard function says about how often it runs slots. -/
theorem Registry.opcodes_of_loops : ∀ f ∈ functions Blocks.standardAndConsole,
    f.2.isProbe = false ∧ (f.2.loops = true → f.1 ∈ Blocks.openLoopOpcodes) ∧
      f.2.repetitions = Blocks.repetitions f.1 := by
  decide +kernel

namespace Chain

mutual

/-- How many blocks are dispatched when a chain is run, at most. -/
def bound : List Block → Nat
  | [] => 0
  | b :: rest => blockBound b + bound rest

/-- How many are dispatched when a block is run: itself, and those in its slots. -/
def blockBound : Block → Nat
  | .mk opcode _ members => 1 + Blocks.repetitions opcode * slotsBound members

/-- How many are dispatched when every slot of a block is run once. -/
def slotsBound : List Member → Nat
  | [] => 0
  | m :: ms => slotBound m + slotsBound ms

/-- How many are dispatched when a slot is run. -/
def slotBound : Member → Nat
  | .expression _ chain => bound chain
  | .literal _ _ => 0
  | .statement _ chain => bound chain
  | .field _ => 0

end

theorem bound_chain (m : Member) : bound m.chain ≤ slotBound m := by
  cases m with
  | expression _ chain | statement _ chain =>
    rw [Member.chain, slotBound]
  | literal _ _ | field _ =>
    rw [Member.chain, bound]
    exact Nat.zero_le _

theorem slotBound_le {m : Member} {ms : List Member} (hm : m ∈ ms) :
    slotBound m ≤ slotsBound ms := by
  induction ms with
  | nil => exact absurd hm List.not_mem_nil
  | cons m' ms ih =>
    rw [slotsBound]
    rcases List.mem_cons.1 hm with rfl | hm
    · exact Nat.le_add_right _ _
    · exact (ih hm).trans (Nat.le_add_left _ _)

end Chain

/-! ### Computations that end -/

namespace Run

variable {setup : Setup σ} {modules : List (String × Table Action)} {β γ : Type} {m n : Nat}

/-- **A computation ends within so many calls**, whatever the budget is. -/
structure EndsWithin (setup : Setup σ) (modules : List (String × Table Action)) (n : Nat)
    (x : Job (Calling σ) β) (s : State Action (Calling σ)) : Prop where
  ends : (x setup.calling s).1 ≠ .unfinished
  same : ∀ budget, x (Setup.mk setup.observer setup.limit budget).calling s = x setup.calling s
  registry : (x setup.calling s).2.registry.Holds modules
  calls : ∃ calls, (x setup.calling s).2.memory.calls = s.memory.calls ++ calls ∧
    (Call.allOf calls).length ≤ n

/-- It ends within so many calls from every state with the given modules. -/
def Bounded (setup : Setup σ) (modules : List (String × Table Action)) (n : Nat) (β : Type)
    (x : Job (Calling σ) β) : Prop :=
  ∀ s : State Action (Calling σ), s.registry.Holds modules → EndsWithin setup modules n x s

/-- What ends at once makes no calls. -/
theorem EndsAtOnce.bounded {x : Job (Calling σ) β} (hx : EndsAtOnce x) :
    Bounded setup modules n β x := by
  intro s hs
  obtain ⟨o, s', hends, hended, hregistry, hmemory, -⟩ := hx s
  have hresult := hends setup.calling
  exact
    { ends := hresult ▸ hended
      same := fun budget => (hends _).trans hresult.symm
      registry := hresult ▸ hregistry.symm ▸ hs
      calls := ⟨[], by rw [hresult, hmemory, List.append_nil], Nat.zero_le n⟩ }

theorem Bounded.mono {x : Job (Calling σ) β} (hx : Bounded setup modules m β x) (hmn : m ≤ n) :
    Bounded setup modules n β x := by
  intro s hs
  obtain ⟨hends, hsame, hregistry, calls, hcalls, hlength⟩ := hx s hs
  exact ⟨hends, hsame, hregistry, calls, hcalls, hlength.trans hmn⟩

theorem Bounded.andThen {x : Job (Calling σ) β} {f : β → Job (Calling σ) γ}
    (hx : Bounded setup modules m β x) (hf : ∀ b, Bounded setup modules n γ (f b)) :
    Bounded setup modules (m + n) γ (x >>= f) := by
  intro s hs
  obtain ⟨hends, hsame, hregistry, calls, hcalls, hlength⟩ := hx s hs
  -- the first part ends the same with any budget, so the second one begins in the same state
  have hresume : ∀ A : Setup (Calling σ), x A s = x setup.calling s →
      (x >>= f) A s = resume f A (x setup.calling s) := by
    intro A hA
    rw [bind_eq_resume, hA]
  have hresult := hresume setup.calling rfl
  rcases hout : x setup.calling s with ⟨b | e | _, s'⟩
  all_goals rw [hout] at hends hregistry hcalls hresume hresult
  · obtain ⟨hends', hsame', hregistry', calls', hcalls', hlength'⟩ := hf b s' hregistry
    refine ⟨hresult ▸ hends', fun budget => ?_, hresult ▸ hregistry', calls ++ calls', ?_, ?_⟩
    · rw [hresume _ ((hsame budget).trans hout), hresult]
      exact hsame' budget
    · rw [hresult, ← List.append_assoc, ← hcalls]
      exact hcalls'
    · rw [Call.allOf_append, List.length_append]
      exact Nat.add_le_add hlength hlength'
  · have hfault : (x >>= f) setup.calling s = (.fault e, s') := hresult
    refine ⟨hfault ▸ nofun, fun budget => ?_, hfault ▸ hregistry, calls, hfault ▸ hcalls,
      hlength.trans (Nat.le_add_right m n)⟩
    rw [hresume _ ((hsame budget).trans hout), hfault]
    rfl
  · exact absurd rfl hends

theorem Bounded.mapFault {x : Job (Calling σ) β} (hx : Bounded setup modules n β x)
    (g : Fault → Fault) : Bounded setup modules n β (x.mapFault g) := by
  intro s hs
  obtain ⟨hends, hsame, hregistry, hcalls⟩ := hx s hs
  refine ⟨?_, fun budget => ?_, ?_, ?_⟩
  · unfold Run.mapFault
    rcases hout : x setup.calling s with ⟨b | e | _, s'⟩
    · exact nofun
    · exact nofun
    · exact absurd (congrArg Prod.fst hout) hends
  · unfold Run.mapFault
    rw [hsame budget]
  · rwa [mapFault_snd]
  · rwa [mapFault_snd]

/-- **The parts of standard actions end**, loops without a count apart. A slot is run within `k`
calls. -/
theorem plain_bounded (setup : Setup σ) (modules : List (String × Table Action)) (k : Nat) :
    Plain (fun _ => True) False True fun n => Bounded setup modules (n * k) :=
  plain_of_endsAtOnce (fun hx => hx.bounded) (fun hx hf => Nat.add_mul .. ▸ hx.andThen hf)
    (fun hmn hx => hx.mono (Nat.mul_le_mul_right k hmn)) fun hloops => hloops.elim

end Run

/-! ### Blocks and chains -/

namespace Machine

variable {setup : Setup σ} {modules : List (String × Table Action)} {n : Nat}

/-- A block adds one call to those inside. -/
theorem bounded_called (b : Block) {x : Job (Calling σ) Value}
    (hx : Run.Bounded setup modules n Value x) :
    Run.Bounded setup modules (1 + n) Value (called b x) := by
  intro s hs
  -- inside, calls are gathered anew; they become the parts of the one call
  obtain ⟨hends, hsame, hregistry, calls, hcalls, hlength⟩ := hx (s.withCalls []) hs
  refine ⟨hends, fun budget => ?_, hregistry,
    [.mk ⟨b, s.live⟩ calls (x setup.calling (s.withCalls [])).2.live], ?_, ?_⟩
  · unfold called
    rw [hsame budget]
  · have hinner : (x setup.calling (s.withCalls [])).2.memory.calls = calls := hcalls
    rw [← hinner]
    rfl
  · rw [Call.allOf, Call.all, Call.allOf, List.append_nil, List.length_cons]
    omega

/-- A chain that is refused makes no calls. -/
theorem bounded_nested (id : String) {x : Job (Calling σ) Value}
    (hx : Run.Bounded setup modules n Value x) :
    Run.Bounded setup modules n Value (nested id x) := by
  intro s hs
  by_cases hrefused : setup.limit ≤ s.depth
  · -- refused, whatever the budget is
    have hnested : ∀ budget, nested id x (Setup.mk setup.observer setup.limit budget).calling s
        = (.fault (.tooDeep setup.limit id), s) := fun _ => if_pos hrefused
    have hresult := hnested setup.budget
    exact ⟨hresult ▸ nofun, fun budget => (hnested budget).trans hresult.symm, hresult ▸ hs, [],
      hresult ▸ (List.append_nil _).symm, Nat.zero_le n⟩
  · -- executed one deeper, which does not count as a call
    obtain ⟨hends, hsame, hregistry, hcalls⟩ := hx { s with depth := s.depth + 1 } hs
    have hnested : ∀ budget, nested id x (Setup.mk setup.observer setup.limit budget).calling s
        = ((x setup.calling { s with depth := s.depth + 1 }).1,
          { (x setup.calling { s with depth := s.depth + 1 }).2 with
            depth := (x setup.calling { s with depth := s.depth + 1 }).2.depth - 1 }) := by
      intro budget
      rw [← hsame budget]
      exact if_neg hrefused
    have hresult := hnested setup.budget
    exact ⟨hresult ▸ hends, fun budget => (hnested budget).trans hresult.symm,
      hresult ▸ hregistry, hresult ▸ hcalls⟩

/-- Completing a block makes no calls. -/
theorem bounded_completed (scope : Scope Action (Calling σ)) (v : Value) :
    Run.Bounded setup modules 0 Unit (completed scope v) := by
  intro s hs
  exact
    { ends := nofun
      same := fun _ => rfl
      registry := hs
      calls := ⟨[], (List.append_nil _).symm, Nat.le_refl 0⟩ }

/-- An action ends when the slots of its block do, if it is no loop without a count. -/
theorem bounded_completing {scope : Scope Action (Calling σ)}
    (hslots : scope.Holds (Run.Bounded setup modules n)) {a : Action} (hprobe : a.isProbe = false)
    (hloops : a.loops ≠ true) :
    Run.Bounded setup modules (a.repetitions * n) Value (completing scope a) := by
  have hplain := Run.plain_bounded setup modules n
  have hperform := Action.perform_plain hplain (s := scope)
    (fun slot hslot => (Nat.one_mul n).symm ▸ hslots slot hslot) (fun _ _ => trivial) hprobe hloops
    fun _ => trivial
  refine (hperform.mapFault _).andThen (n := 0) fun v => ?_
  exact (bounded_completed scope v).andThen (n := 0) fun _ =>
    (hplain.done v).mono (Nat.le_of_eq (Nat.zero_mul n))

/-- **A block ends** when its slots do. It runs them as often as its opcode says. -/
theorem bounded_dispatch (hmodules : ∀ m ∈ modules, m ∈ Blocks.standardAndConsole) {opcode : String}
    (hopcode : opcode ∉ Blocks.openLoopOpcodes) (id : String)
    {slots : List (Slot Action (Calling σ))}
    (hslots : ∀ slot ∈ slots, slot.Holds (Run.Bounded setup modules n)) :
    Run.Bounded setup modules (Blocks.repetitions opcode * n) Value (dispatch opcode id slots) := by
  intro s hs
  cases hroute : (s.registry.resolve opcode).1 with
  | error e =>
    -- no slot is run
    have hdispatch : ∀ A, dispatch opcode id slots A s
        = (.fault (.routing e), afterRouting s opcode) := by
      intro A
      rw [dispatch_apply, hroute]
    have hresult := hdispatch setup.calling
    exact ⟨hresult ▸ nofun, fun budget => (hdispatch _).trans hresult.symm,
      hresult ▸ hs.resolve opcode, [], hresult ▸ (List.append_nil _).symm, Nat.zero_le _⟩
  | ok route =>
    obtain ⟨hprobe, hloops, hrepetitions⟩ :=
      Registry.opcodes_of_loops _ (hs.mem_functions hmodules hroute)
    have hdispatch : ∀ A, dispatch opcode id slots A s
        = completing ⟨opcode, id, route.module, route.function, slots⟩ route.handler A
            (afterRouting s opcode) := by
      intro A
      rw [dispatch_apply, hroute]
    have hscope : (Scope.mk opcode id route.module route.function slots).Holds
        (Run.Bounded setup modules n) := hslots
    obtain ⟨hends, hsame, hregistry, hcalls⟩ := bounded_completing hscope hprobe
      (fun h => hopcode (hloops h)) (afterRouting s opcode) (hs.resolve opcode)
    rw [hrepetitions] at hcalls
    have hresult := hdispatch setup.calling
    exact ⟨hresult ▸ hends, fun budget => (hdispatch _).trans ((hsame budget).trans hresult.symm),
      hresult ▸ hregistry, hresult ▸ hcalls⟩

/-- **A chain ends** within the bound that its blocks give. -/
theorem bounded_executeCalling (hmodules : ∀ m ∈ modules, m ∈ Blocks.standardAndConsole) (c : Chain)
    (hc : ∀ b ∈ Chain.blocks c, b.opcode ∉ Blocks.openLoopOpcodes) :
    Run.Bounded setup modules (Chain.bound c) Value (executeCalling c) := by
  -- along a chain the result of the block before is carried, so both forms are proved at once
  suffices hboth : Run.Bounded setup modules (Chain.bound c) Value (executeCalling c) ∧
      ∀ v, Run.Bounded setup modules (Chain.bound c) Value (executeRestCalling v c) from hboth.1
  have hdone : ∀ v, Run.Bounded setup modules 0 Value (.done v) :=
    fun v => (Run.endsAtOnce_done v).bounded
  revert hc
  refine Chain.induction (P := fun c => (∀ b ∈ Chain.blocks c, b.opcode ∉ Blocks.openLoopOpcodes) →
    Run.Bounded setup modules (Chain.bound c) Value (executeCalling c) ∧
      ∀ v, Run.Bounded setup modules (Chain.bound c) Value (executeRestCalling v c)) ?_ ?_ c
  · exact fun _ => ⟨hdone _, fun v => hdone v⟩
  · intro b rest hmembers hrest hgood
    have hblock : Run.Bounded setup modules (Chain.blockBound b) Value (executeBlockCalling b) := by
      have hopcode := hgood b (Chain.mem_blocks_cons.2 (.inl rfl))
      have hinside : ∀ m ∈ b.members, ∀ x ∈ Chain.blocks m.chain,
          x.opcode ∉ Blocks.openLoopOpcodes := fun m hm x hx =>
        hgood x (Chain.mem_blocks_cons.2 (.inr (.inl ⟨m, hm, hx⟩)))
      obtain ⟨opcode, id, members⟩ := b
      refine bounded_called _ (bounded_dispatch hmodules hopcode id fun slot hslot => ?_)
      rw [slotsCalling_eq_map] at hslot
      obtain ⟨m, hm, rfl⟩ := List.mem_map.1 hslot
      -- what one slot may take, all of them together may take
      have hchain := ((hmembers m hm (hinside m hm)).1).mono
        ((Chain.bound_chain m).trans (Chain.slotBound_le hm))
      cases m with
      | expression name chain => exact hchain
      | literal name shadow => exact (hdone _).mono (Nat.zero_le _)
      | statement name chain => exact hchain
      | field f => trivial
    have hafter := hrest fun x hx => hgood x (Chain.mem_blocks_cons.2 (.inr (.inr hx)))
    exact ⟨bounded_nested b.id (hblock.andThen hafter.2), fun _ => hblock.andThen hafter.2⟩

/-! ### Runs -/

/-- **Programs without open loops end.** Let a machine with standard modules and the console run a
document in which no block is a loop without a count, after any history and with any limit.

* The run ends, with a value or with a fault.
* It dispatches no more blocks than the bound of the syntax tree says, whatever the counts of its
  loops are and whatever happens to them inside. The calls are those of the run.
* The budget has no part in it. -/
theorem counted_programs_end {document : Document} {m : Machine σ} (hm : m.Reached document)
    (hmodules : ∀ x ∈ m.state.registry.modules, x ∈ Blocks.standardAndConsole)
    (hopcodes : ∀ opcode ∈ Chain.opcodes document.entry, opcode ∉ Blocks.openLoopOpcodes) :
    ((∃ v, m.run.1 = .value v) ∨ ∃ f, m.run.1 = .fault f) ∧
    (Call.allOf m.calls).length ≤ Chain.bound document.entry ∧
    (m.calling.1 = m.run.1 ∧ m.calling.2.uncalled = m.run.2.state) ∧
    ∀ budget, (m.within m.setup.limit budget).run.1 = m.run.1 ∧
      (m.within m.setup.limit budget).run.2.state = m.run.2.state := by
  have hblocks : ∀ b ∈ Chain.blocks document.entry, b.opcode ∉ Blocks.openLoopOpcodes :=
    fun b hb => hopcodes _ (Chain.mem_distinct.2 (List.mem_map_of_mem hb))
  rw [← hm.document_eq] at hblocks ⊢
  have hbounded : Run.Bounded m.setup m.state.registry.modules (Chain.bound m.document.entry) Value
      (executeCalling m.document.entry) :=
    bounded_executeCalling hmodules m.document.entry hblocks
  -- the bound is about the run with its calls recorded, which does the same as the run
  obtain ⟨hends, hsame, -, calls, hcalls, hlength⟩ :=
    hbounded { m.started with memory := ⟨m.state.memory, []⟩ } ⟨hm.coherent, rfl⟩
  have hcalling := m.calling_eq
  refine ⟨?_, ?_, hcalling, fun budget => ?_⟩
  · have hrun : m.run.1 ≠ .unfinished := hcalling.1 ▸ hends
    cases hout : m.run.1 with
    | value v => exact .inl ⟨v, rfl⟩
    | fault f => exact .inr ⟨f, rfl⟩
    | unfinished => exact absurd hout hrun
  · have hown : m.calls = calls := hcalls
    rw [hown]
    exact hlength
  · have hother := (m.within m.setup.limit budget).calling_eq
    have heq : (m.within m.setup.limit budget).calling = m.calling := hsame budget
    rw [heq] at hother
    exact ⟨hother.1.symm.trans hcalling.1, hother.2.symm.trans hcalling.2⟩

/-- A block that adds one to a variable. -/
def counting : Block :=
  .mk "data_changevariableby" "d" [.field ⟨"VARIABLE", "", "n", ""⟩,
    .literal "VALUE" ⟨"number", "", ⟨"NUM", "", "1", ""⟩⟩]

/-- A script that assigns a variable a number, and then repeats that often to add one to the
variable. The number is larger than any count, so the loop makes as many turns as a loop can. -/
def growing : Document :=
  ⟨[⟨"n", "", "", true, false⟩],
    [.mk "data_setvariableto" "a" [.field ⟨"VARIABLE", "", "n", ""⟩,
        .literal "VALUE" ⟨"number", "", ⟨"NUM", "", "1e300", ""⟩⟩],
      .mk "control_repeat" "b" [
        .expression "TIMES" [.mk "data_variable" "c" [.field ⟨"VARIABLE", "", "n", ""⟩]],
        .statement "SUBSTACK" [counting]]], []⟩

example : ((Value.text "1e300").toNumber.map fun n => n.round.toIndex).toOption
    = some (2 ^ 63 - 1) := by decide +kernel

/-- A machine for it with the standard modules and the console. -/
def growingMachine : Machine Unit :=
  create growing ⟨.silent, 10, 0⟩ Blocks.standardAndConsole ()

/-- It ends, with no budget for loops, and the tree bounds what it dispatches. -/
theorem counted_programs_end_growing :
    ((∃ v, growingMachine.run.1 = .value v) ∨ ∃ f, growingMachine.run.1 = .fault f) ∧
    (Call.allOf growingMachine.calls).length ≤ 2 + 2 ^ 64 ∧
    (growingMachine.within 10 7).run.1 = growingMachine.run.1 := by
  have hreached : growingMachine.Reached growing := ⟨_, _, _, [], rfl⟩
  obtain ⟨hends, hbound, -, hsame⟩ := counted_programs_end hreached
    (by decide +kernel) (by decide +kernel)
  have hvalue : Chain.bound growing.entry = 2 + 2 ^ 64 := by decide +kernel
  rw [hvalue] at hbound
  exact ⟨hends, hbound, (hsame 7).1⟩

end Machine

end Blockwork
