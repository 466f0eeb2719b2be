import Blockwork.Proofs.Machine.Correspondence

/-!
# A run does not depend on what came before it

A machine keeps more from one request to the next than a run resets: the lists in its store, the
routes it found, the depth, the events, the memory of its observer. None of it shows in a run.

* The depth is zero again after every request (`Machine.Reached.atRest`).
* A kept route is the one that would be found now, so the registry answers like a new one with the
  same functions, in whatever order its modules were registered (`Registry.Agree`).
* The lists from before are out of reach once the variables are made anew, and new lists only have
  other identities.

So the run corresponds, step by step, to that of a new machine (`run_after_any_history`). What an
observer is told is compared in full: `Machine.observed` are the observations of a run, and the
memory that the machine's own observer ends with is what it makes of them.

Functions with a state of their own are the exception that the statement has to name. The count of
introspection blocks is the only such state, and it is the host's: where a function looks at it, the
new machine has to go on with it.
-/

namespace Blockwork

/-! ### Registries that answer alike -/

namespace Registry

/-- Two registries, each in step with itself, that offer the same functions. -/
structure Agree {α : Type} (r r' : Registry α) : Prop where
  left : r.Coherent
  right : r'.Coherent
  directory : r.directory = r'.directory

namespace Agree

variable {α : Type} {r r' : Registry α}

/-- Registries that offer the same functions give the same answers, since an opcode has one
meaning. -/
theorem resolve_fst (h : r.Agree r') (opcode : String) :
    (r.resolve opcode).1 = (r'.resolve opcode).1 := by
  have hleft := h.left.meaning_resolve opcode
  have hright := h.right.meaning_resolve opcode
  rw [h.directory] at hleft
  exact hleft.unique hright

theorem resolve_snd (h : r.Agree r') (opcode : String) :
    (r.resolve opcode).2.Agree (r'.resolve opcode).2 where
  left := h.left.resolve opcode
  right := h.right.resolve opcode
  directory := by
    have hleft : (r.resolve opcode).2.directory = r.directory :=
      directory_apply r (.resolve opcode)
    have hright : (r'.resolve opcode).2.directory = r'.directory :=
      directory_apply r' (.resolve opcode)
    rw [hleft, hright, h.directory]

end Agree

end Registry

/-! ### The modules at the end of a history -/

/-- What a request asks of the registry, if it changes the modules. -/
def Request.operation? : Request → Option (Registry.Operation Action)
  | .register name table => some (.register name table)
  | .unregister name => some (.unregister name)
  | _ => none

/-! ### Memories -/

namespace Observer

variable {σ : Type}

/-- The memory of an observer that was told of some blocks, one after the other. -/
def memoryAfter (observer : Observer σ) (memory : σ) (told : List Observation) : σ :=
  told.foldl (fun μ o => (observer.observe o μ).1) memory

theorem memoryAfter_append (observer : Observer σ) (memory : σ) (told told' : List Observation) :
    observer.memoryAfter memory (told ++ told')
      = observer.memoryAfter (observer.memoryAfter memory told) told' :=
  List.foldl_append

theorem memoryAfter_concat (observer : Observer σ) (memory : σ) (told : List Observation)
    (o : Observation) :
    observer.memoryAfter memory (told ++ [o])
      = (observer.observe o (observer.memoryAfter memory told)).1 :=
  observer.memoryAfter_append memory told [o]

/-- An observer that keeps all it is told. -/
theorem memoryAfter_of_keeps {observer : Observer (List Observation)}
    (hkeeps : ∀ o told, (observer.observe o told).1 = told ++ [o]) (before told : List Observation) :
    observer.memoryAfter before told = before ++ told := by
  induction told generalizing before with
  | nil => exact (List.append_nil before).symm
  | cons o told ih =>
    change observer.memoryAfter (observer.observe o before).1 told = _
    rw [hkeeps, ih, List.append_assoc, List.singleton_append]

end Observer

namespace Machine

variable {σ : Type}

/-- The functions that a history ends with are those its registrations and removals leave; runs and
look-ups have no part in it. -/
theorem directory_after {m : Machine σ} (hm : m.state.registry.Coherent)
    (history : List Request) :
    (m.after history).state.registry.directory
      = (history.filterMap Request.operation?).foldl Registry.Operation.revise
          m.state.registry.directory := by
  induction history generalizing m with
  | nil => rfl
  | cons r history ih =>
    have hserve : (m.serve r).state.registry.Coherent := coherent_registry_after hm [r]
    have hrest := ih hserve
    -- a request changes the modules as it says, or keeps them
    by_cases hr : r.KeepsModules
    · have hmodules : (m.serve r).state.registry.modules = m.state.registry.modules :=
        (serve_holds ⟨hm, rfl⟩ hr).2
      have hdirectory : (m.serve r).state.registry.directory = m.state.registry.directory := by
        unfold Registry.directory Registry.module?
        rw [hmodules]
      have hnone : r.operation? = none := by
        cases r with
        | register name table => exact hr.elim
        | unregister name => exact hr.elim
        | _ => rfl
      rw [List.filterMap_cons_none hnone, ← hdirectory]
      exact hrest
    · cases r with
      | register name table =>
        have hdirectory := Registry.directory_apply m.state.registry (.register name table)
        exact hrest.trans (congrArg (fun d => List.foldl _ d _) hdirectory)
      | unregister name =>
        have hdirectory := Registry.directory_apply m.state.registry (.unregister name)
        exact hrest.trans (congrArg (fun d => List.foldl _ d _) hdirectory)
      | _ => exact absurd trivial hr

/-! ### What an observer is told -/

/-- The machine with an observer that keeps everything it is told. -/
def watched (m : Machine σ) : Machine (List Observation) where
  document := m.document
  setup := ⟨⟨fun o told => (told ++ [o], none)⟩, m.setup.limit, m.setup.budget⟩
  state := { m.state with memory := [] }

/-- What an observer is told in a run. -/
def observed (m : Machine σ) : List Observation := m.watched.run.2.state.memory

/-- The state in which the script of a run begins. -/
def started (m : Machine σ) : State Action σ :=
  { m.state with heap := .ofVariables m.document.declarations, steps := 0 }

/-- Sorting is not unfolded by evaluation. The registry of a machine with one module is computed here
for scripts that are evaluated. -/
theorem started_create_singleton (document : Document) (setup : Setup σ) (name : String)
    (table : Table Action) (memory : σ) :
    (create document setup [(name, table)] memory).started
      = { (create document setup [(name, table)] memory).started with
          registry := ⟨[(name, table)], [name], []⟩ } := by
  rw [← registry_create_singleton document setup name table memory]
  rfl

/-- **Runs of corresponding machines** end alike. -/
theorem ends_run {τ : Type} {m : Machine σ} {n : Machine τ} (K : Correspondence m.setup n.setup)
    (hdocument : m.document = n.document) (hstart : K.Alike m.started n.started) :
    K.Ends (Value.Shifted K.offset) (m.run.1, m.run.2.state) (n.run.1, n.run.2.state) := by
  have hends := Correspondence.pairs_execute (K := K) n.document.entry m.started n.started hstart
  rw [← hdocument] at hends
  have hn : (n.run.1, n.run.2.state) = execute m.document.entry n.setup n.started := by
    rw [hdocument]
    rfl
  rw [hn]
  exact hends

/-- A machine corresponds to itself under watch: its memory is what its observer makes of what the
other one keeps. -/
def underWatch (m : Machine σ) : Correspondence m.setup m.watched.setup :=
  .ofObservers rfl rfl
    (fun memory told => memory = m.setup.observer.memoryAfter m.state.memory told)
    fun o _ told h => by
      rw [h]
      exact (m.setup.observer.memoryAfter_concat m.state.memory told o).symm

/-- **Watching changes nothing**, and shows what the machine's own observer is told. -/
theorem ends_underWatch (m : Machine σ) :
    m.underWatch.Ends (Value.Shifted 0) (m.run.1, m.run.2.state)
      (m.watched.run.1, m.watched.run.2.state) :=
  ends_run (n := m.watched) m.underWatch rfl (Correspondence.alike_ofObservers m.started rfl)

theorem memory_run (m : Machine σ) :
    m.run.2.state.memory = m.setup.observer.memoryAfter m.state.memory m.observed :=
  m.ends_underWatch.state.memory

/-! ### Used machines and new ones -/

/-- The machine with another count for introspection blocks to go on with. -/
def withCounter (m : Machine σ) (count : Nat) : Machine σ :=
  { m with state := { m.state with counter := count } }

/-- **The first machine has a past that the second one has not.** They agree in everything that a
run does not make anew. -/
structure Renews (m fresh : Machine σ) : Prop where
  document : m.document = fresh.document
  setup : m.setup = fresh.setup
  registry : m.state.registry.Agree fresh.state.registry
  counter : m.state.counter = fresh.state.counter ∨
    fresh.state.registry.all (fun a => !a.counts) = true
  depth : m.state.depth = fresh.state.depth
  store : fresh.state.store = .empty
  events : fresh.state.events = #[]

namespace Renews

variable {m fresh : Machine σ}

theorem watched (h : m.Renews fresh) : m.watched.Renews fresh.watched where
  document := h.document
  setup := by
    unfold Machine.watched
    rw [h.setup]
  registry := h.registry
  counter := h.counter
  depth := h.depth
  store := h.store
  events := h.events

/-- How the two machines correspond, for any relation between their memories that the observer
keeps. Identities on the left begin behind the lists from before. -/
def correspondence (h : m.Renews fresh) (Recalls : σ → σ → Prop)
    (hobserve : ∀ (o o' : Observation) (μ ν : σ),
      o.Alike m.state.store.lists.size m.state.events.size o' → Recalls μ ν →
      Recalls (m.setup.observer.observe o μ).1 (m.setup.observer.observe o' ν).1) :
    Correspondence m.setup fresh.setup where
  offset := m.state.store.lists.size
  told := m.state.events
  counting := m.state.counter = fresh.state.counter
  Routes r r' := r.Agree r' ∧
    (m.state.counter = fresh.state.counter ∨ r'.all (fun a => !a.counts) = true)
  Recalls := Recalls
  limit_eq := congrArg Setup.limit h.setup
  budget_eq := congrArg Setup.budget h.setup
  resolve_fst hr opcode := hr.1.resolve_fst opcode
  resolve_snd {r r'} hr opcode := by
    -- the modules stay, whatever route is kept
    refine ⟨hr.1.resolve_snd opcode, ?_⟩
    unfold Registry.all
    rw [Registry.resolve_snd_modules]
    exact hr.2
  counts {r r'} hr {opcode route} hroute hcounts := by
    refine hr.2.resolve_right fun hplain => ?_
    have hnot := hr.1.right.handler_of_all hplain hroute
    rw [hcounts] at hnot
    exact absurd hnot (by simp)
  observe ho hrecalls := by
    rw [← h.setup]
    exact hobserve _ _ _ _ ho hrecalls

/-- **The runs of the two machines** end alike. -/
theorem ends_run (h : m.Renews fresh) (Recalls : σ → σ → Prop)
    (hobserve : ∀ (o o' : Observation) (μ ν : σ),
      o.Alike m.state.store.lists.size m.state.events.size o' → Recalls μ ν →
      Recalls (m.setup.observer.observe o μ).1 (m.setup.observer.observe o' ν).1)
    (hmemory : Recalls m.state.memory fresh.state.memory) :
    (h.correspondence Recalls hobserve).Ends (Value.Shifted m.state.store.lists.size)
      (m.run.1, m.run.2.state) (fresh.run.1, fresh.run.2.state) := by
  refine Machine.ends_run _ h.document ⟨⟨?_, ?_, h.depth, id⟩, ⟨h.registry, h.counter⟩, rfl, ?_,
    hmemory⟩
  · -- the variables are new on both sides and hold no lists
    change Heap.ofVariables m.document.declarations
      = (Heap.ofVariables fresh.document.declarations).shift m.state.store.lists.size
    rw [Heap.ofVariables_shift, h.document]
  · change m.state.store.Shifts m.state.store.lists.size fresh.state.store
    rw [h.store]
    exact .of_size m.state.store
  · change m.state.events = m.state.events ++ fresh.state.events
    rw [h.events, Array.append_empty]

/-- What the two observers are told is the same, up to the identities of lists. -/
theorem observed (h : m.Renews fresh) :
    List.Forall₂ (Observation.Alike m.state.store.lists.size m.state.events.size) m.observed
      fresh.observed :=
  (h.watched.ends_run (List.Forall₂ (Observation.Alike _ _))
    (fun _ _ _ _ ho htold => List.rel_append htold (.cons ho .nil)) .nil).state.memory

end Renews

/-- **A run does not depend on the history of its machine.** After any history, a run goes like that
of a new machine with the same document, the same setup and the functions that the history ended
with: it has the same value or the same fault, the same variables, the same events after those from
before and the same number of steps, and its observer is told the same things, of the same depths.
Only the identities of lists differ, by how many there were before. -/
theorem run_after_any_history {document : Document} {m fresh : Machine σ}
    (hm : m.Reached document) (modules : List (String × Table Action)) (memory : σ) (count : Nat)
    (hfresh : fresh = (create document m.setup modules memory).withCounter count)
    (hsame : m.state.registry.directory = fresh.state.registry.directory)
    (hcount : m.state.counter = count ∨
      fresh.state.registry.all (fun a => !a.counts) = true) :
    let k := m.state.store.lists.size
    m.run.1.Alike k (Value.Shifted k) fresh.run.1 ∧
    m.run.1.message? = fresh.run.1.message? ∧
    m.run.2.state.heap = fresh.run.2.state.heap.shift k ∧
    m.run.2.state.store.Shifts k fresh.run.2.state.store ∧
    m.run.2.state.heap.read m.run.2.state.store
      = fresh.run.2.state.heap.read fresh.run.2.state.store ∧
    m.run.2.state.events = m.state.events ++ fresh.run.2.state.events ∧
    m.run.2.state.steps = fresh.run.2.state.steps ∧
    List.Forall₂ (Observation.Alike k m.state.events.size) m.observed fresh.observed ∧
    m.run.2.state.memory = m.setup.observer.memoryAfter m.state.memory m.observed ∧
    fresh.run.2.state.memory = m.setup.observer.memoryAfter memory fresh.observed := by
  intro k
  -- both machines start the run in corresponding states, and so they end in such
  have hrenews : m.Renews fresh := by
    rw [hfresh] at hsame hcount ⊢
    have hcoherent := coherent_registry_create document m.setup modules memory
    exact ⟨hm.document_eq, rfl, ⟨hm.coherent, hcoherent, hsame⟩, hcount, hm.atRest.depth, rfl, rfl⟩
  have hends := hrenews.ends_run (fun _ _ => True) (fun _ _ _ _ _ _ => trivial) trivial
  refine ⟨hends.outcome, hends.outcome.message?_eq, hends.state.heap, hends.state.store, ?_,
    hends.state.events, hends.state.steps, hrenews.observed, m.memory_run, ?_⟩
  · have hheap : m.run.2.state.heap = fresh.run.2.state.heap.shift k := hends.state.heap
    rw [hheap]
    exact Heap.read_shift hends.state.store _
  · have hmemory := fresh.memory_run
    rw [← hrenews.setup] at hmemory
    rw [hmemory, hfresh]
    rfl

/-- One list, and a script that adds to it. -/
def collecting : Document :=
  ⟨[⟨"items", "", "", false, false⟩],
    [.mk "data_addtolist" "a" [.field ⟨"LIST", "", "items", ""⟩,
      .literal "ITEM" ⟨"text", "", ⟨"TEXT", "", "x", ""⟩⟩]], []⟩

/-- A machine for it that has not run yet. -/
def collectingMachine : Machine Unit :=
  create collecting ⟨.silent, 10, 10⟩ [("data", Blocks.dataTable)] ()

/-- A machine that ran, lost its module, failed to run and got the module back goes on like a new
one. -/
theorem run_collecting_again :
    let m := collectingMachine.after
      [.run, .unregister "data", .run, .register "data" Blocks.dataTable, .check]
    m.run.2.state.heap.read m.run.2.state.store
      = collectingMachine.run.2.state.heap.read collectingMachine.run.2.state.store ∧
    m.run.2.state.steps = collectingMachine.run.2.state.steps := by
  intro m
  have hregistry : collectingMachine.state.registry
      = ⟨[("data", Blocks.dataTable)], ["data"], []⟩ := registry_create_singleton ..
  have hcoherent : collectingMachine.state.registry.Coherent :=
    coherent_registry_create collecting ⟨.silent, 10, 10⟩ [("data", Blocks.dataTable)] ()
  have hsame : m.state.registry.directory = collectingMachine.state.registry.directory := by
    -- what is registered again is what was removed
    have hdata : collectingMachine.state.registry.directory "data"
        = some (Table.find? Blocks.dataTable) := by
      rw [hregistry]
      rfl
    refine (directory_after hcoherent _).trans ?_
    change Function.update (Function.update collectingMachine.state.registry.directory "data" none)
      "data" (some (Table.find? Blocks.dataTable)) = _
    rw [Function.update_idem, ← hdata, Function.update_eq_self]
  have hplain : collectingMachine.state.registry.all (fun a => !a.counts) = true := by
    rw [hregistry]
    decide
  have hreached : m.Reached collecting := ⟨_, _, _, _, rfl⟩
  have hfresh : collectingMachine
      = (create collecting m.setup [("data", Blocks.dataTable)] ()).withCounter 0 := rfl
  obtain ⟨-, -, -, -, hread, -, hsteps, -⟩ :=
    run_after_any_history hreached _ _ _ hfresh hsame (.inr hplain)
  exact ⟨hread, hsteps⟩

end Machine

end Blockwork
