import Blockwork.Proofs.Machine.Course

/-!
# Faults name the innermost handler

A run with standard functions that ends with a fault ends in one of two ways. Before any handler is
to blame, a block of the document's own chain may have no route (`Machine.FailsUnrouted`); the
routing error is then the fault. Otherwise the fault names one block, that of the innermost handler
which had not returned when the fault arose, and holds what went wrong there
(`Machine.FailsInHandler`).

The trail says in both cases what came before and after. Everything up to the fault went without
one, all completed blocks are there, and what follows is only the way out: the handlers that had
not returned hand the fault on, from the innermost to the outermost.
-/

namespace Blockwork

open Chain (Position blockAt?)

variable {σ : Type} {m : Machine σ}

/-- An observer is told nothing by marks of a fault. -/
theorem observations_of_isFault {fails : List Mark} (h : ∀ mark ∈ fails, mark.isFault = true) :
    observations fails = [] := by
  refine List.filterMap_eq_nil_iff.2 fun mark hmark => ?_
  have hfault := h mark hmark
  cases mark with
  | completed p o => exact absurd hfault (by simp [Mark.isFault])
  | _ => rfl

/-- Where a fault arises, nothing but the fault is noted. -/
theorem Arises.isFault {p : Position} {f : Fault} {origin : List Mark}
    (h : Arises m p f origin) : ∀ mark ∈ origin, mark.isFault = true := by
  cases h with
  | own _ => exact fun mark hmark => absurd hmark List.not_mem_nil
  | stopped _ _ => exact List.forall_mem_singleton.2 rfl

/-- A handler that fails, and those further out that return its fault. -/
theorem isFault_of_mem_failures (q : Position) (outer : List Position) (cause f : Fault) :
    ∀ mark ∈ Mark.failed q cause :: outer.map (.failed · f), mark.isFault = true :=
  List.forall_mem_cons.2 ⟨rfl, List.forall_mem_map.2 fun _ _ => rfl⟩

namespace Machine

/-- **A block of the document's own chain has no route.** No handler is left to return, and the
fault is the routing error. -/
def FailsUnrouted (m : Machine σ) (f : Fault) (calm fails : List Mark) : Prop :=
  pending calm = [] ∧
    ∃ i b e, blockAt? m.document.entry [i] = some b ∧
      (m.state.registry.resolve b.opcode).1 = .error e ∧ f = .routing e ∧
      fails = [.stopped [i] f]

/-- **The handler of a block fails.** It is the innermost that had not returned. The fault names
its block and no other, and wraps what arose there; the handlers further out return the fault as it
is. -/
def FailsInHandler (m : Machine σ) (f : Fault) (calm fails : List Mark) : Prop :=
  ∃ q outer b route cause origin, pending calm = q :: outer ∧ m.Found q b route ∧
    f = .execution route.module route.function b.id cause ∧ cause.blame? = none ∧
    Arises m q cause origin ∧
    fails = origin ++ .failed q cause :: outer.map (.failed · f)

/-- The two ways exclude each other: a routing error names no block. -/
theorem not_failsUnrouted_and_failsInHandler (f : Fault) (calm fails : List Mark) :
    ¬ (m.FailsUnrouted f calm fails ∧ m.FailsInHandler f calm fails) := by
  rintro ⟨⟨-, i, b, e, -, -, hrouting, -⟩, q, outer, b', route, cause, origin, -, -, hexecution, -⟩
  rw [hrouting] at hexecution
  exact Fault.noConfusion hexecution

theorem Accounted.failure (h : m.Accounted) (hlimit : 0 < m.setup.limit) {f : Fault}
    (hrun : m.run.1 = .fault f) :
    ∃ calm fails, m.trail = calm ++ fails ∧ (∀ mark ∈ calm, mark.isFault = false) ∧
      (∀ mark ∈ fails, mark.isFault = true) ∧
      (m.FailsUnrouted f calm fails ∨ m.FailsInHandler f calm fails) := by
  have hcourse := h.course
  rw [hrun] at hcourse
  generalize m.trail = trail at hcourse
  cases hcourse with
  | @bare calm origin hsmooth hhalts =>
    -- no handler was pending, so it is a block of the entry chain that has no route
    obtain ⟨i, b, e, hb, hroute, hf, horigin⟩ := halts_entry hhalts hlimit
    exact ⟨calm, origin, rfl, hsmooth.calm, hhalts.arises.isFault,
      .inl ⟨hsmooth.pending [], i, b, e, hb, hroute, hf, horigin⟩⟩
  | @blamed calm origin q outer b route cause hsmooth harises hfound hf =>
    -- the handlers that were pending fail with the fault, from the inside out
    have hpending : pending calm = q :: outer :=
      (hsmooth.pending []).trans (List.append_nil _)
    have hfails := List.forall_mem_append.2
      ⟨harises.isFault, isFault_of_mem_failures q outer cause f⟩
    exact ⟨calm, _, rfl, hsmooth.calm, hfails, .inr ⟨q, outer, b, route, cause, origin, hpending,
      hfound, hf, harises.blame?_eq_none, harises, rfl⟩⟩

/-- **Where a fault is put down.** A run with standard functions that ends with a fault goes
without one up to some point, and from there on nothing is invoked, entered or completed any more;
its steps are the blocks completed before. The fault is either that of a block of the document's
own chain that has no route, or it names the innermost handler at that point and wraps what arose
there, and never both. -/
theorem fault_attribution {document : Document} (hm : m.Reached document)
    (hstandard : m.state.registry.all (fun a => !a.isProbe) = true) (requested : Int)
    (hlimit : m.setup.limit = limitOf requested) {f : Fault} (hrun : m.run.1 = .fault f) :
    (m.recorded.1 = m.run.1 ∧ m.recorded.2.untraced = m.run.2.state) ∧
    ∃ calm fails, m.trail = calm ++ fails ∧ (∀ mark ∈ calm, mark.isFault = false) ∧
      (∀ mark ∈ fails, mark.isFault = true) ∧
      m.run.2.state.steps = (observations calm).length ∧
      Xor (m.FailsUnrouted f calm fails) (m.FailsInHandler f calm fails) := by
  have haccount := hm.accounted hstandard
  obtain ⟨calm, fails, htrail, hcalm, hfails, hways⟩ :=
    haccount.failure (hlimit ▸ limitOf_pos requested) hrun
  refine ⟨⟨m.recorded_eq.1, m.recorded_eq.2.1⟩, calm, fails, htrail, hcalm, hfails, ?_, ?_⟩
  · rw [haccount.steps, htrail, observations_append, observations_of_isFault hfails,
      List.append_nil]
  · have hexclusive := not_failsUnrouted_and_failsInHandler (m := m) f calm fails
    rcases hways with hunrouted | hhandler
    · exact .inl ⟨hunrouted, fun hhandler => hexclusive ⟨hunrouted, hhandler⟩⟩
    · exact .inr ⟨hhandler, fun hunrouted => hexclusive ⟨hunrouted, hhandler⟩⟩

/-- A chain fails when its first block does. -/
theorem execute_of_fault {setup : Setup σ} {s t : State Action σ} {b : Block} {f : Fault}
    (rest : Chain) (hlimit : s.depth < setup.limit)
    (hb : executeBlock b setup { s with depth := s.depth + 1 } = (.fault f, t)) :
    execute (b :: rest) setup s = (.fault f, { t with depth := t.depth - 1 }) := by
  rw [execute, nested, if_neg (Nat.not_le.2 hlimit), Run.bind_apply, hb]

/-- A block that reads a variable which is not declared. -/
def misspelling : Block :=
  .mk "data_variable" "b" [.field ⟨"VARIABLE", "", "m", ""⟩]

/-- A block that sets a declared variable to what the first one reads. -/
def copying : Block :=
  .mk "data_setvariableto" "a"
    [.field ⟨"VARIABLE", "", "n", ""⟩, .expression "VALUE" [misspelling]]

/-- A script with this block. -/
def misspelt : Document := ⟨[⟨"n", "", "", false, false⟩], [copying], []⟩

/-- A machine for it that has only the data module. -/
def misspeltMachine : Machine Unit :=
  create misspelt ⟨.silent, limitOf 0, 10⟩ [("data", Blocks.dataTable)] ()

theorem run_misspelt :
    misspeltMachine.run.1 = .fault (.execution "data" "variable" "b" (.unknownVariable "m")) := by
  -- sorting is not unfolded by evaluation, so the registry and the routes are computed first
  let setting : Route Action := ⟨"data_setvariableto", "data", "setvariableto", .data .set⟩
  let s : State Action Unit := { misspeltMachine.started with depth := 1 }
  have hregistry : s.registry = ⟨[("data", Blocks.dataTable)], ["data"], []⟩ :=
    registry_create_singleton misspelt misspeltMachine.setup "data" Blocks.dataTable ()
  have hresolve : s.registry.resolve copying.opcode
      = (.ok setting, ⟨[("data", Blocks.dataTable)], ["data"],
          [("data_setvariableto", setting)]⟩) := by
    simp [setting, hregistry, copying, Block.opcode, Registry.resolve, Registry.route,
      Registry.functionOf?, Registry.dropLead?, Registry.module?, Table.find?, Blocks.dataTable,
      Blocks.tableOf, Blocks.Data.functions]
  have hread : ((afterRouting s copying.opcode).registry.resolve misspelling.opcode).1
      = .ok ⟨"data_variable", "data", "variable", .data .variable⟩ := by
    unfold afterRouting
    rw [hresolve]
    simp [misspelling, Block.opcode, Registry.resolve, Registry.route,
      Registry.functionOf?, Registry.dropLead?, Registry.module?, Table.find?, Blocks.dataTable,
      Blocks.tableOf, Blocks.Data.functions]
  -- the inner block finds no variable, and the outer one hands its fault on
  have hinner : ∃ t, executeBlock misspelling misspeltMachine.setup
      { afterRouting s copying.opcode with depth := 2 }
      = (.fault (.execution "data" "variable" "b" (.unknownVariable "m")), t) := by
    rw [executeBlock_apply]
    dsimp only
    rw [hread]
    exact ⟨_, rfl⟩
  obtain ⟨t, hinner⟩ := hinner
  -- the value slot fails, so the assignment is never reached
  have hslot := execute_of_fault [] (by decide) hinner
  have hperform : (Action.data .set).perform (scopeOf copying setting) misspeltMachine.setup
        (afterRouting s copying.opcode)
      = (execute [misspelling] >>= fun v => Run.assign "n" v >>= fun _ => Run.done .undefined)
          misspeltMachine.setup (afterRouting s copying.opcode) := rfl
  have houter : executeBlock copying misspeltMachine.setup s
      = (.fault (.execution "data" "variable" "b" (.unknownVariable "m")),
          { t with depth := t.depth - 1 }) := by
    rw [executeBlock_apply, hresolve]
    dsimp only
    unfold handled
    rw [Run.bind_apply]
    unfold Run.mapFault
    rw [hperform, Run.bind_apply, hslot]
    rfl
  exact congrArg Prod.fst (execute_of_fault [] (by decide) houter)

/-- Its run fails in the handler of the inner block. -/
theorem fault_attribution_misspelt :
    misspeltMachine.run.1 = .fault (.execution "data" "variable" "b" (.unknownVariable "m")) ∧
    ∃ calm fails, misspeltMachine.trail = calm ++ fails ∧
      misspeltMachine.FailsInHandler
        (.execution "data" "variable" "b" (.unknownVariable "m")) calm fails := by
  have hreached : misspeltMachine.Reached misspelt := ⟨_, _, _, [], rfl⟩
  obtain ⟨-, calm, fails, htrail, -, -, -, hways⟩ :=
    fault_attribution hreached rfl 0 rfl run_misspelt
  rcases hways with ⟨⟨-, i, b, e, -, -, hrouting, -⟩, -⟩ | ⟨hhandler, -⟩
  · exact absurd hrouting (by simp)
  · exact ⟨run_misspelt, calm, fails, htrail, hhandler⟩

end Machine

end Blockwork
